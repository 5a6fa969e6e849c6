/-
  SolidFrame formalization — requests that wait for the space of a storage
  (`Utf8Controller` in `solid/frame/file/src/filestore.cpp`).

  A request that no storage takes at once waits in `tempwaitdq`, with one entry for each
  storage that can be used.  The entries are counted by the storages, and a closed temp lists
  its storage for delivery.
-/
import SolidFrame.File.TempAccounting

namespace SolidFrame

open TempStorage

namespace TempStore
variable {s s' : TempStore} {w : TempWaitStub} {n i j : ℕ}

def waitingFor (s : TempStore) (i : ℕ) : List TempWaitStub :=
  s.tempwaitdq.filter fun e => e.value == i && e.pfile.isSome

def waitsAt (s : TempStore) (w : TempWaitStub) (i : ℕ) : Bool :=
  (s.storagevec i).canUse w.size w.value && !(s.storagevec i).shouldUse w.size

/-- What the storages know of the entries, and that no storage can deliver. -/
structure Waits (s : TempStore) : Prop where
  count : ∀ i, (s.storagevec i).waitcount = (s.waitingFor i).length
  first : ∀ i, ∀ e ∈ (s.waitingFor i).head?, (s.storagevec i).waitsizefirst = e.size
  quiet : ∀ i, (s.storagevec i).canDeliver = false

theorem Waits.congr (h : s.Waits) (hstrg : s'.storagevec = s.storagevec)
    (hqueue : s'.tempwaitdq = s.tempwaitdq) : s'.Waits := by
  have hwaiting : ∀ i, s'.waitingFor i = s.waitingFor i := by
    intro i
    rw [waitingFor, hqueue, waitingFor]
  refine ⟨?_, ?_, ?_⟩
  · intro i
    rw [hstrg, hwaiting]
    exact h.count i
  · intro i
    rw [hstrg, hwaiting]
    exact h.first i
  · intro i
    rw [hstrg]
    exact h.quiet i

/-! ## One request -/

theorem waitsAt_useStorage (h : j ≠ i) : (s.useStorage w n i).1.waitsAt w j = s.waitsAt w j := by
  unfold waitsAt
  rw [useStorage_of_ne h]

theorem waitingFor_pushWaiting (hw : w.pfile.isSome) :
    (s.pushWaiting w i).waitingFor j = s.waitingFor j ++
      if j = i then [{ w with value := i }] else [] := by
  unfold waitingFor pushWaiting
  rw [List.filter_append]
  by_cases hj : j = i
  · simp [hj, hw]
  · simp [hj, hw, Ne.symm hj]

/-- **A request waits for a storage** that should not be used: something waits for it already,
    or its space is too small for the request, which is then the first one to wait. -/
theorem Waits.pushWaiting (h : s.Waits) (hw : w.pfile.isSome)
    (hshould : (s.storagevec i).shouldUse w.size = false) : (s.pushWaiting w i).Waits := by
  have hself : (s.pushWaiting w i).storagevec i = { s.storagevec i with
      waitcount := (s.storagevec i).waitcount + 1
      waitsizefirst := if (s.storagevec i).waitcount = 0 then w.size
        else (s.storagevec i).waitsizefirst } := Function.update_self _ _ _
  have hother : ∀ j, j ≠ i → (s.pushWaiting w i).storagevec j = s.storagevec j :=
    fun j hj => Function.update_of_ne hj _ _
  have hcount := h.count i
  refine ⟨?_, ?_, ?_⟩
  · intro j
    rw [waitingFor_pushWaiting hw, List.length_append]
    rcases eq_or_ne j i with rfl | hne
    · rw [hself, if_pos rfl, hcount]
      rfl
    · rw [hother j hne, if_neg hne, h.count j]
      rfl
  · intro j e he
    rw [waitingFor_pushWaiting hw] at he
    rcases eq_or_ne j i with rfl | hne
    · rw [if_pos rfl] at he
      rw [hself]
      cases hwaiting : s.waitingFor j with
      | nil =>
        rw [hwaiting] at he hcount
        cases he
        exact if_pos hcount
      | cons e' es =>
        rw [hwaiting] at he hcount
        cases he
        have hne : (s.storagevec j).waitcount ≠ 0 := by simp [hcount]
        exact (if_neg hne).trans (h.first j e (by rw [hwaiting]; rfl))
    · rw [if_neg hne, List.append_nil] at he
      rw [hother j hne]
      exact h.first j e he
  · intro j
    rcases eq_or_ne j i with rfl | hne
    · rw [hself]
      have hquiet := h.quiet j
      by_cases hzero : (s.storagevec j).waitcount = 0
      · simp [shouldUse, hzero] at hshould
        simp [canDeliver, hzero, hshould]
      · simp [canDeliver, hzero] at hquiet
        simp [canDeliver, hzero, hquiet]
    · rw [hother j hne]
      exact h.quiet j

/-- **A storage takes a request**: it has no entries, and gets none. -/
theorem Waits.doPrepareOpenTemp {idx : ℕ} {sz : UInt64} (h : s.Waits)
    (hzero : (s.storagevec i).waitcount = 0) : (s.doPrepareOpenTemp idx sz i).Waits := by
  have hself : (s.doPrepareOpenTemp idx sz i).storagevec i = (s.storagevec i).take sz :=
    Function.update_self _ _ _
  have hother : ∀ j, j ≠ i → (s.doPrepareOpenTemp idx sz i).storagevec j = s.storagevec j :=
    fun j hj => Function.update_of_ne hj _ _
  have htake : ((s.storagevec i).take sz).waitcount = (s.storagevec i).waitcount ∧
      ((s.storagevec i).take sz).waitsizefirst = (s.storagevec i).waitsizefirst := by
    unfold take
    split <;> exact ⟨rfl, rfl⟩
  refine ⟨?_, ?_, ?_⟩
  · intro j
    rcases eq_or_ne j i with rfl | hne
    · rw [hself, htake.1]
      exact h.count j
    · rw [hother j hne]
      exact h.count j
  · intro j
    rcases eq_or_ne j i with rfl | hne
    · rw [hself, htake.2]
      exact h.first j
    · rw [hother j hne]
      exact h.first j
  · intro j
    rcases eq_or_ne j i with rfl | hne
    · rw [hself, canDeliver, htake.1, hzero]
      rfl
    · rw [hother j hne]
      exact h.quiet j

/-- The loop keeps the counts, as long as no storage takes the request after an entry was
    pushed for another one: the queue is cut back, and the count of the other is not. -/
theorem waits_offer {is : List ℕ} (hnodup : is.Nodup) (h : s.Waits) (hw : w.pfile.isSome)
    (horder : is.Pairwise fun i j => s.waitsAt w i → s.takes w j = false)
    (hn : n = s.tempwaitdq.length ∨ ∀ j ∈ is, s.takes w j = false) :
    (offer w n is s).1.Waits := by
  induction is generalizing s with
  | nil => exact h
  | cons i is ih =>
    obtain ⟨hi, hnodup⟩ := List.nodup_cons.1 hnodup
    obtain ⟨hhead, horder⟩ := List.pairwise_cons.1 horder
    have hne : ∀ k ∈ is, k ≠ i := fun k hk heq => hi (heq ▸ hk)
    have hn' : n = s.tempwaitdq.length ∨ ∀ j ∈ is, s.takes w j = false :=
      hn.imp_right fun h j hj => h j (List.mem_cons_of_mem i hj)
    rw [offer]
    split_ifs with huse
    · have hsame : ∀ k ∈ is, (s.useStorage w n i).1.takes w k = s.takes w k :=
        fun k hk => takes_useStorage (hne k hk)
      refine ih hnodup ?_ ?_ ?_
      · unfold useStorage
        split_ifs with hshould
        · have htakes : s.takes w i := by rw [takes, huse, hshould]; rfl
          have hlength : n = s.tempwaitdq.length := by
            refine hn.resolve_right fun hnot => ?_
            rw [hnot i List.mem_cons_self] at htakes
            cases htakes
          rw [shouldUse, Bool.and_eq_true, beq_iff_eq] at hshould
          refine Waits.doPrepareOpenTemp ?_ hshould.1
          exact h.congr rfl (List.take_of_length_le hlength.ge)
        · exact h.pushWaiting hw (Bool.eq_false_iff.2 hshould)
      · refine horder.imp_of_mem fun {k l} hk hl himp hwaits => ?_
        rw [waitsAt_useStorage (hne k hk)] at hwaits
        rw [hsame l hl]
        exact himp hwaits
      · by_cases hshould : (s.storagevec i).shouldUse w.size
        · refine hn'.imp (fun hn => ?_) fun hn k hk => (hsame k hk).trans (hn k hk)
          rw [useStorage, if_pos hshould]
          show n = (s.tempwaitdq.take n).length
          rw [hn, List.take_length]
        · have hwaits : s.waitsAt w i := by
            rw [waitsAt, huse, Bool.eq_false_iff.2 hshould]
            rfl
          exact .inr fun k hk => (hsame k hk).trans (hhead k hk hwaits)
    · exact ih hnodup h horder hn'

/-! ## Steps -/

/-- The condition of a step: no storage that a request has to wait for comes before one that
    takes it; and a temp is closed only when its storage cannot deliver afterwards. -/
def Settled (s : TempStore) : TempAction → Prop
  | .consume => ∀ w ∈ s.todo.head?, ∀ j < s.storageCount, ∀ i < j,
      s.waitsAt w i = true → s.takes w j = false
  | .clear idx => ∀ t ∈ s.ptmp idx, ((s.storagevec t.tempstorageid).giveBack t).canDeliver = false
  | _ => True

def WithFile (s : TempStore) : Prop :=
  ∀ w ∈ s.todo ++ s.pfilltempwaitvec ++ s.pconstempwaitvec, w.pfile.isSome = true

theorem Waits.clear (h : s.Waits) {idx : ℕ} (hok : s.Settled (.clear idx)) :
    (s.clear idx).Waits := by
  unfold TempStore.clear
  split
  · exact h
  · rename_i t ht
    have hquiet : ((s.storagevec t.tempstorageid).giveBack t).canDeliver = false := hok t ht
    have hself : (s.doCloseTemp t).storagevec t.tempstorageid =
        (s.storagevec t.tempstorageid).giveBack t := modifyStorage_self _
    have hother : ∀ i, i ≠ t.tempstorageid → (s.doCloseTemp t).storagevec i = s.storagevec i :=
      fun i hne => modifyStorage_of_ne hne _
    have hnot : ¬ (((s.doCloseTemp t).storagevec t.tempstorageid).canDeliver ∧
        ((s.doCloseTemp t).storagevec t.tempstorageid).enqued = false) := by
      rw [hself, hquiet]
      rintro ⟨⟨⟩, -⟩
    rw [enqueStorage, if_neg hnot]
    refine ⟨?_, ?_, ?_⟩
    · intro i
      rcases eq_or_ne i t.tempstorageid with rfl | hne
      · exact (congrArg waitcount hself).trans (h.count _)
      · exact (congrArg waitcount (hother i hne)).trans (h.count i)
    · intro i e he
      rcases eq_or_ne i t.tempstorageid with rfl | hne
      · exact (congrArg waitsizefirst hself).trans (h.first _ e he)
      · exact (congrArg waitsizefirst (hother i hne)).trans (h.first i e he)
    · intro i
      rcases eq_or_ne i t.tempstorageid with rfl | hne
      · exact (congrArg canDeliver hself).trans hquiet
      · exact (congrArg canDeliver (hother i hne)).trans (h.quiet i)

theorem withFile_exec {a : TempAction} {ev : List TempEvent} (h : s.WithFile)
    (hexec : s.exec a = some (s', ev)) : s'.WithFile := by
  have hmem : ∀ w, w ∈ s.todo ∨ w ∈ s.pfilltempwaitvec ∨ w ∈ s.pconstempwaitvec →
      w.pfile.isSome := by
    intro w hw
    refine h w ?_
    simpa [or_assoc] using hw
  suffices hsuff : ∀ w, w ∈ s'.todo ∨ w ∈ s'.pfilltempwaitvec ∨ w ∈ s'.pconstempwaitvec →
      w.pfile.isSome by
    intro w hw
    refine hsuff w ?_
    simpa [or_assoc] using hw
  cases a with
  | request uid size openflags =>
    cases hexec
    rintro w (hw | hw | hw)
    · exact hmem w (.inl hw)
    · rcases List.mem_append.1 hw with hw | hw
      · exact hmem w (.inr (.inl hw))
      · cases List.mem_singleton.1 hw
        rfl
    · exact hmem w (.inr (.inr hw))
  | execute signal =>
    rw [exec] at hexec
    split_ifs at hexec
    cases hexec
    cases signal with
    | true =>
      rintro w (hw | hw | hw)
      · exact hmem w (.inr (.inl hw))
      · cases hw
      · exact hmem w (.inr (.inl hw))
    | false =>
      rintro w (hw | hw | hw)
      · exact hmem w (.inr (.inr hw))
      · exact hmem w (.inr (.inl hw))
      · exact hmem w (.inr (.inr hw))
  | consume =>
    rw [exec] at hexec
    split at hexec
    · rename_i w rest hphase
      have htodo : s.todo = w :: rest := by rw [todo, hphase]
      obtain ⟨-, hfill, hcons, hphase'⟩ := consume_frame { s with phase := .consuming rest } w
      obtain rfl : s' = ({ s with phase := .consuming rest }.consume w).1 := by
        cases hexec
        rfl
      rw [todo, hphase', hfill, hcons]
      rintro w' (hw | hw)
      · exact hmem w' (.inl (htodo ▸ List.mem_cons_of_mem w hw))
      · exact hmem w' (.inr hw)
    · cases hexec
  | deliver =>
    rw [exec, deliver_eq] at hexec
    split_ifs at hexec
    cases hexec
    rintro w (hw | hw)
    · cases hw
    · exact hmem w (.inr hw)
  | clear idx =>
    rw [exec] at hexec
    split_ifs at hexec
    cases hexec
    obtain ⟨hphase, hfill, hcons⟩ := s.clear_frame idx
    rw [todo, hphase, hfill, hcons]
    exact hmem
  | finish =>
    rw [exec] at hexec
    split_ifs at hexec
    cases hexec
    rintro w (hw | hw)
    · cases hw
    · exact hmem w (.inr hw)

/-- **One step**: the counts of the entries stay right, and no storage can deliver. -/
theorem Waits.exec {a : TempAction} {ev : List TempEvent} (h : s.Waits) (hfile : s.WithFile)
    (hok : s.Settled a) (hexec : s.exec a = some (s', ev)) : s'.Waits := by
  cases a with
  | request uid size openflags =>
    cases hexec
    exact h.congr rfl rfl
  | execute signal =>
    rw [TempStore.exec] at hexec
    split_ifs at hexec
    cases hexec
    cases signal <;> exact h.congr rfl rfl
  | consume =>
    rw [TempStore.exec] at hexec
    split at hexec
    · rename_i w rest hphase
      have htodo : s.todo = w :: rest := by rw [todo, hphase]
      have hw : w.pfile.isSome :=
        hfile w (by rw [htodo]; exact List.mem_cons_self)
      have horder := hok w (by rw [htodo]; rfl)
      cases hexec
      refine waits_offer List.nodup_range (h.congr rfl rfl) hw ?_ (.inl rfl)
      refine List.pairwise_lt_range.imp_of_mem fun {i j} _ hj hlt => ?_
      exact horder j (List.mem_range.1 hj) i hlt
    · cases hexec
  | deliver =>
    rw [TempStore.exec, deliver_eq] at hexec
    split_ifs at hexec
    cases hexec
    exact h.congr rfl rfl
  | clear idx =>
    rw [TempStore.exec] at hexec
    split_ifs at hexec
    cases hexec
    exact h.clear hok
  | finish =>
    rw [TempStore.exec] at hexec
    split_ifs at hexec
    cases hexec
    exact h.congr rfl rfl

end TempStore

/-! ## Runs -/

namespace TempRun
open TempStore
variable {ok : TempStore → TempAction → Prop} {cfg : List TempStorageConfiguration}
  {rs : List TempWaitStub} {tr : List TempEvent} {s : TempStore}

theorem withFile (h : TempRun ok cfg rs tr s) : s.WithFile := by
  induction h with
  | start =>
    intro w hw
    simp [new, todo] at hw
  | step a _ _ hexec ih => exact withFile_exec ih hexec

theorem waits (h : TempRun Settled cfg rs tr s) : s.Waits := by
  induction h with
  | start =>
    refine ⟨fun _ => rfl, ?_, fun _ => rfl⟩
    intro i e he
    cases he
  | step a h hok hexec ih => exact ih.exec h.withFile hok hexec

/-- **Waiting requests are counted** in every run of settled steps, and after an execution no
    listed storage has space for the first of its requests: in such a run no storage is ever
    listed. -/
theorem waiting (h : TempRun Settled cfg rs tr s) :
    (∀ i, (s.storagevec i).waitcount = (s.waitingFor i).length ∧
      ∀ e ∈ (s.waitingFor i).head?, (s.storagevec i).waitsizefirst = e.size) ∧
    ∀ s' ev, s.exec .deliver = some (s', ev) → ∀ i ∈ s.tempidxvec,
      (s'.storagevec i).waitcount = 0 ∨ (s'.storagevec i).capacity - (s'.storagevec i).usedsize <
        (s'.storagevec i).waitsizefirst := by
  refine ⟨fun i => ⟨h.waits.count i, h.waits.first i⟩, ?_⟩
  intro s' ev hexec i _
  have hquiet := (h.waits.exec (a := .deliver) h.withFile trivial hexec).quiet i
  rw [canDeliver, Bool.and_eq_false_iff] at hquiet
  rcases hquiet with hzero | hspace
  · exact .inl (by simpa using hzero)
  · exact .inr (UInt64.not_le.1 (of_decide_eq_false hspace))

/-- One storage, a request that takes all of it and a request that waits. -/
theorem waiting_full_storage : ∃ s tr, TempRun Settled [⟨"", 1, 10, 0, 0⟩]
        [⟨⟨3, 1⟩, some 3, 10, 31⟩, ⟨⟨4, 1⟩, some 4, 6, 31⟩] tr s ∧
      (s.storagevec 0).waitcount = (s.waitingFor 0).length ∧ (s.waitingFor 0).length = 1 := by
  have hrun := (TempRun.start : TempRun Settled [⟨"", 1, 10, 0, 0⟩] [] [] _).step
    (.request ⟨3, 1⟩ 10 31) trivial rfl
    |>.step (.request ⟨4, 1⟩ 6 31) trivial rfl
    |>.step (.execute true) trivial rfl
    |>.step .consume (by rintro w ⟨⟩; decide) rfl
    |>.step .consume (by rintro w ⟨⟩; decide) rfl
  exact ⟨_, _, hrun, (hrun.waiting.1 0).1, by decide⟩

/-- **Freed space is not delivered**: both iterators of the loop over the listed storages are
    `begin()`, so that a storage can still deliver after the execution for which it was
    listed.  And **an entry is lost**: the queue is cut back when a later storage takes the
    request, but the count of the storage that it was to wait for is not. -/
theorem waiting_not_delivered :
    (∃ s s' rs tr ev, TempRun (fun _ _ => True) [⟨"", 1, 10, 0, 0⟩] rs tr s ∧
      s.exec .deliver = some (s', ev) ∧ s.tempidxvec = [0] ∧
      (s'.storagevec 0).waitcount = 1 ∧ (s'.storagevec 0).waitsizefirst = 6 ∧
      (s'.storagevec 0).capacity - (s'.storagevec 0).usedsize = 10) ∧
    ∃ s rs tr, TempRun (fun _ _ => True) [⟨"", 1, 10, 0, 0⟩, ⟨"/tmp/", 8, 10, 0, 0⟩] rs tr s ∧
      (s.storagevec 0).waitcount = 1 ∧ s.waitingFor 0 = [] := by
  have hrun := (TempRun.start : TempRun (fun _ _ => True) [⟨"", 1, 10, 0, 0⟩] [] [] _).step
    (.request ⟨3, 1⟩ 10 31) trivial rfl
    |>.step (.request ⟨4, 1⟩ 6 31) trivial rfl
    |>.step (.execute true) trivial rfl
    |>.step .consume trivial rfl
    |>.step .consume trivial rfl
    |>.step .deliver trivial rfl
    |>.step (.clear 3) trivial rfl
    |>.step .finish trivial rfl
    |>.step (.execute true) trivial rfl
  have hcut := (TempRun.start : TempRun (fun _ _ => True)
    [⟨"", 1, 10, 0, 0⟩, ⟨"/tmp/", 8, 10, 0, 0⟩] [] [] _).step
    (.request ⟨3, 1⟩ 10 1) trivial rfl
    |>.step (.request ⟨4, 1⟩ 6 9) trivial rfl
    |>.step (.execute true) trivial rfl
    |>.step .consume trivial rfl
    |>.step .consume trivial rfl
  exact ⟨⟨_, _, _, _, _, hrun, rfl, by decide, by decide, by decide, by decide⟩,
    _, _, _, hcut, by decide, by decide⟩

end TempRun

end SolidFrame
