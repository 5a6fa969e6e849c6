/-
  SolidFrame formalization — the locks of the store of shared objects
  (solid/frame/sharedstore.hpp).

  The counters of a stub are the numbers of live pointers to its object, and a
  live unique pointer is the only use pointer.  `Stub.Counts` says this of one
  stub and the pointers to it; each function of the stub keeps it, so every step
  of the system does (`Locked.step`).
-/
import SolidFrame.Frame.SharedStore

namespace SolidFrame

open List System

namespace Shared

variable {F : Type}

/-! ## One stub and the pointers to it -/

/-- The counters and the state of a stub, against the live pointers to it. -/
structure Stub.Counts (rs : Stub F) (ps : List Pointer) : Prop where
  usecnt : rs.usecnt = ps.countP (·.lock ≠ .alive)
  alivecnt : rs.alivecnt = ps.countP (·.lock = .alive)
  current : ∀ p ∈ ps, p.uid.unique = rs.uid
  exclusive : ∀ p ∈ ps, p.lock = .unique → rs.usecnt = 1 ∧ rs.state = .uniqueLock

variable {live : List Pointer} {p : Pointer} {s' : System F}

namespace Stub.Counts

variable {rs : Stub F} {ps qs : List Pointer}

section
variable (h : rs.Counts ps)
include h

theorem perm (hp : ps.Perm qs) : rs.Counts qs where
  usecnt := h.usecnt.trans (hp.countP_eq _)
  alivecnt := h.alivecnt.trans (hp.countP_eq _)
  current p hq := h.current p (hp.mem_iff.2 hq)
  exclusive p hq := h.exclusive p (hp.mem_iff.2 hq)

theorem of_waits (ws : List (WaitStub F)) : ({ rs with waits := ws } : Stub F).Counts ps :=
  ⟨h.usecnt, h.alivecnt, h.current, h.exclusive⟩

/-- A use pointer is added: a unique one when there is no other, a shared one when
    there is none or the stub is in the shared state. -/
theorem use {l : Lock} {st : StubState} (i : ℕ)
    (hl : (l = .unique ∧ rs.usecnt = 0 ∧ st = .uniqueLock) ∨
      (l = .shared ∧ (rs.usecnt = 0 ∨ rs.state = .sharedLock))) :
    ({ rs with usecnt := rs.usecnt + 1, state := st } : Stub F).Counts
    (⟨⟨i, rs.uid⟩, l⟩ :: ps) := by
  have hne : l ≠ .alive := by
    rcases hl with ⟨rfl, -⟩ | ⟨rfl, -⟩ <;> decide
  have hold : ∀ p ∈ ps, p.lock ≠ .unique := by
    intro p hp hu
    obtain ⟨h1, hst⟩ := h.exclusive p hp hu
    rcases hl with ⟨-, h0, -⟩ | ⟨-, h0 | hsh⟩
    · omega
    · omega
    · rw [hst] at hsh
      cases hsh
  refine ⟨?_, ?_, ?_, ?_⟩
  · simp [hne, h.usecnt]
  · simp [hne, h.alivecnt]
  · rintro p (_ | ⟨_, hp⟩)
    · rfl
    · exact h.current p hp
  · rintro p (_ | ⟨_, hp⟩) hu
    · rcases hl with ⟨-, h0, rfl⟩ | ⟨rfl, -⟩
      · exact ⟨by simp [h0], rfl⟩
      · cases hu
    · exact absurd hu (hold p hp)

theorem doTryGet {a : Access} {rs' : Stub F} (i : ℕ)
    (hget : rs.doTryGet a = some rs') : rs'.Counts (⟨⟨i, rs'.uid⟩, a.lock⟩ :: ps) := by
  cases a with
  | alive =>
    cases hget
    refine ⟨?_, ?_, ?_, ?_⟩
    · simp [Access.lock, h.usecnt]
    · simp [Access.lock, h.alivecnt]
    · rintro p (_ | ⟨_, hp⟩)
      · rfl
      · exact h.current p hp
    · rintro p (_ | ⟨_, hp⟩) hu
      · cases hu
      · exact ⟨(h.exclusive p hp hu).1, rfl⟩
  | unique =>
    simp only [Stub.doTryGet, Stub.doTryGetUnique] at hget
    split_ifs at hget with h0
    cases hget
    exact h.use i (.inl ⟨rfl, h0, rfl⟩)
  | shared =>
    simp only [Stub.doTryGet, Stub.doTryGetShared] at hget
    split_ifs at hget with hst
    cases hget
    exact h.use i (.inr ⟨rfl, .inr hst.1⟩)
  | reinit =>
    simp only [Stub.doTryGet, Stub.doTryGetReinit] at hget
    split_ifs at hget with h0
    cases hget
    exact h.use i (.inl ⟨rfl, h0.1, rfl⟩)

theorem deliver {kind : WaitKind} {st : StubState} (i : ℕ) (hd : rs.deliver kind = some st) :
    ({ rs with state := st, usecnt := rs.usecnt + 1 } : Stub F).Counts
      (⟨⟨i, rs.uid⟩, kind.access.lock⟩ :: ps) := by
  cases kind <;> simp only [Stub.deliver] at hd <;> split_ifs at hd with h0 <;> cases hd
  · exact h.use i (.inl ⟨rfl, h0, rfl⟩)
  · exact h.use i (.inr ⟨rfl, h0⟩)
  · exact h.use i (.inl ⟨rfl, h0.1, rfl⟩)

theorem eraseLoop (i : ℕ) (ws : List (WaitStub F)) :
    (rs.eraseLoop ws).1.uid = rs.uid ∧ (rs.eraseLoop ws).1.Counts
      ((rs.eraseLoop ws).2.map (fun w => ⟨⟨i, rs.uid⟩, w.kind.access.lock⟩) ++ ps) := by
  induction ws generalizing rs ps with
  | nil => exact ⟨rfl, h.of_waits []⟩
  | cons w ws ih =>
    simp only [Stub.eraseLoop]
    cases hd : rs.deliver w.kind with
    | none => exact ⟨rfl, h.of_waits (w :: ws)⟩
    | some st =>
      obtain ⟨huid, hrest⟩ := ih (h.deliver i hd)
      exact ⟨huid, hrest.perm perm_middle⟩

theorem doSwitchUniqueToShared (hp : p ∈ ps) (hl : p.lock = .unique) :
    ({ rs with state := .sharedLock } : Stub F).Counts (⟨p.uid, .shared⟩ :: ps.erase p) := by
  have h1 := (h.exclusive p hp hl).1
  have hpos : 0 < ps.countP (·.lock ≠ .alive) := countP_pos_iff.2 ⟨p, hp, by simp [hl]⟩
  have hrest : (ps.erase p).countP (·.lock ≠ .alive) = 0 := by
    rw [countP_erase, if_pos ⟨hp, by simp [hl]⟩, ← h.usecnt, h1]
  refine ⟨?_, ?_, ?_, ?_⟩
  · simp only [countP_cons, hrest, h1]
    rfl
  · simp [countP_erase, hl, h.alivecnt]
  · rintro q (_ | ⟨_, hq⟩)
    · exact h.current p hp
    · exact h.current q (mem_of_mem_erase hq)
  · rintro q (_ | ⟨_, hq⟩) hu
    · cases hu
    · rw [countP_eq_zero] at hrest
      exact absurd (hrest q hq) (by simp [hu])

theorem doDecrementObjectUseCount (hp : p ∈ ps) :
    (rs.doDecrementObjectUseCount p).Counts (ps.erase p) := by
  have hmem : ∀ q ∈ ps.erase p, q ∈ ps := fun q hq => mem_of_mem_erase hq
  unfold Stub.doDecrementObjectUseCount
  rw [if_pos (h.current p hp).symm]
  split_ifs with hl
  · refine ⟨?_, ?_, fun q hq => h.current q (hmem q hq), fun q hq => h.exclusive q (hmem q hq)⟩
    · simp [countP_erase, hl, h.usecnt]
    · simp [countP_erase, hl, hp, h.alivecnt]
  · have huse : rs.usecnt - 1 = (ps.erase p).countP (·.lock ≠ .alive) := by
      simp [countP_erase, hl, hp, h.usecnt]
    refine ⟨huse, ?_, fun q hq => h.current q (hmem q hq), fun q hq hu => ?_⟩
    · simp [countP_erase, hl, h.alivecnt]
    -- another unique pointer would be a second use pointer
    · have hpos : 0 < (ps.erase p).countP (·.lock ≠ .alive) :=
        countP_pos_iff.2 ⟨q, hq, by simp [hu]⟩
      have h1 := (h.exclusive q (hmem q hq) hu).1
      omega

theorem eq_nil (hc : rs.canClear) : ps = [] := by
  simp only [Stub.canClear, Bool.and_eq_true, beq_iff_eq] at hc
  have huse := h.usecnt.symm.trans hc.1.1
  have halive := h.alivecnt.symm.trans hc.1.2
  rw [countP_eq_zero] at huse halive
  refine eq_nil_iff_forall_not_mem.2 fun p hp => ?_
  have h1 := huse p hp
  have h2 := halive p hp
  simp only [decide_eq_true_eq, not_not] at h1 h2
  exact h2 h1

theorem clear (hc : rs.canClear) : rs.clear.Counts ps := by
  obtain rfl := h.eq_nil hc
  exact ⟨h.usecnt, h.alivecnt, by simp, by simp⟩

end

end Stub.Counts

/-! ## The whole store -/

def pointersAt (live : List Pointer) (i : ℕ) : List Pointer :=
  live.filter (·.uid.index = i)

theorem mem_pointersAt {i : ℕ} :
    p ∈ pointersAt live i ↔ p ∈ live ∧ p.uid.index = i := by
  simp [pointersAt]

theorem pointersAt_cons_self (live : List Pointer) (p : Pointer) :
    pointersAt (p :: live) p.uid.index = p :: pointersAt live p.uid.index := by
  simp [pointersAt]

theorem pointersAt_cons_of_ne {j : ℕ}
    (h : j ≠ p.uid.index) : pointersAt (p :: live) j = pointersAt live j := by
  simp [pointersAt, h.symm]

theorem pointersAt_erase (live : List Pointer) (p : Pointer) (j : ℕ) :
    pointersAt (live.erase p) j = (pointersAt live j).erase p :=
  erase_filter.symm

theorem pointersAt_erase_of_ne {j : ℕ}
    (h : j ≠ p.uid.index) : pointersAt (live.erase p) j = pointersAt live j := by
  rw [pointersAt_erase, erase_of_not_mem]
  exact fun hp => h (mem_pointersAt.1 hp).2.symm

/-- Every index the store or a client has is that of a stub. -/
structure Inside (s : System F) : Prop where
  live : ∀ p ∈ s.live, p.uid.index < s.store.objmaxcnt
  stk : ∀ i ∈ s.store.cacheobjidxstk, i < s.store.objmaxcnt
  fill : ∀ u ∈ s.store.fillEraseVec, u.index < s.store.objmaxcnt
  cons : ∀ u ∈ s.store.consEraseVec, u.index < s.store.objmaxcnt
  vec : ∀ i ∈ s.store.cacheobjidxvec, i < s.store.objmaxcnt

structure Locked (s : System F) : Prop extends Inside s where
  counts : ∀ i, (s.store.stubvec i).Counts (pointersAt s.live i)

namespace Locked

variable {s : System F}

theorem initial : Locked ({} : System F) where
  live := by simp
  stk := by simp
  fill := by simp
  cons := by simp
  vec := by simp
  counts _ := ⟨rfl, rfl, by simp [pointersAt], by simp [pointersAt]⟩

variable {i : ℕ} {p : Pointer}

section
variable (h : Locked s)
include h

theorem update {t : Store F} {rs : Stub F}
    (hin : Inside ⟨t, live⟩) (hstub : t.stubvec = Function.update s.store.stubvec i rs)
    (hrs : rs.Counts (pointersAt live i))
    (hother : ∀ j, j ≠ i → pointersAt live j = pointersAt s.live j) :
    Locked ⟨t, live⟩ where
  toInside := hin
  counts := by
    intro j
    show (t.stubvec j).Counts (pointersAt live j)
    rw [hstub]
    rcases eq_or_ne j i with rfl | hj
    · rw [Function.update_self]
      exact hrs
    · rw [Function.update_of_ne hj, hother j hj]
      exact h.counts j

theorem nextIndex_lt : s.store.nextIndex < s.allocate.store.objmaxcnt := by
  unfold Store.nextIndex System.allocate Store.doAllocateIndex
  cases hstk : s.store.cacheobjidxstk with
  | nil => simp
  | cons i stk => exact h.stk i (by simp [hstk])

theorem allocate : Locked s.allocate := by
  unfold System.allocate Store.doAllocateIndex
  cases hstk : s.store.cacheobjidxstk with
  | nil =>
    have hgrow : ∀ i, i < s.store.objmaxcnt → i < s.store.objmaxcnt + 1024 := by omega
    refine ⟨⟨fun p hp => hgrow _ (h.live p hp), ?_, fun u hu => hgrow _ (h.fill u hu),
      fun u hu => hgrow _ (h.cons u hu), fun i hi => hgrow _ (h.vec i hi)⟩, h.counts⟩
    simp only [List.mem_map, List.mem_range]
    rintro i ⟨k, hk, rfl⟩
    omega
  | cons i stk =>
    exact ⟨⟨h.live, fun j hj => h.stk j (by simp_all), h.fill, h.cons, h.vec⟩, h.counts⟩

theorem prepare (a : Action F) : Locked (s.prepare a) := by
  unfold System.prepare
  split_ifs
  · exact h.allocate
  · exact h

theorem grant {acc : Access} {rs : Stub F} (hi : i < s.store.objmaxcnt)
    (hget : (s.store.stubvec i).doTryGet acc = some rs) : Locked (s.grant acc i rs) := by
  refine h.update ⟨?_, h.stk, h.fill, h.cons, h.vec⟩ rfl ?_ fun j hj => pointersAt_cons_of_ne hj
  · rintro p (_ | ⟨_, hp⟩)
    · exact hi
    · exact h.live p hp
  · rw [pointersAt_cons_self s.live ⟨⟨i, rs.uid⟩, acc.lock⟩]
    exact (h.counts i).doTryGet i hget

theorem pushWait {kind : WaitKind} {f : F} : Locked (s.pushWait kind f i) :=
  h.update ⟨h.live, h.stk, h.fill, h.cons, h.vec⟩ rfl ((h.counts i).of_waits _) fun _ _ => rfl

theorem answer {a : Action F} {acc : Access}
    {gs : List (Grant F)} (hi : i < s.store.objmaxcnt) (ha : s.Answer a acc i s' gs) :
    Locked s' := by
  cases ha with
  | granted hget => exact h.grant hi hget
  | refused _ => exact h
  | queued _ _ _ => exact h.pushWait
  | kept _ _ hget => exact (h.grant hi hget).pushWait

theorem knows (hp : p ∈ s.live) : s.store.Knows p.uid :=
  ⟨h.live p hp, ((h.counts _).current p (mem_pointersAt.2 ⟨hp, rfl⟩)).symm⟩

theorem uniqueLock (hp : p ∈ s.live) (hl : p.lock = .unique) :
    (s.store.stubvec p.uid.index).state = .uniqueLock :=
  ((h.counts _).exclusive p (mem_pointersAt.2 ⟨hp, rfl⟩) hl).2

theorem uniqueToShared (hp : p ∈ s.live) (hl : p.lock = .unique) : Locked (s.uniqueToShared p) := by
  have hknows := h.knows hp
  simp only [System.uniqueToShared, hknows, if_true, Stub.doSwitchUniqueToShared,
    h.uniqueLock hp hl]
  have hlive : ∀ q ∈ (⟨p.uid, .shared⟩ : Pointer) :: s.live.erase p,
      q.uid.index < s.store.objmaxcnt := by
    rintro q (_ | ⟨_, hq⟩)
    · exact hknows.1
    · exact h.live q (List.mem_of_mem_erase hq)
  refine h.update (i := p.uid.index) ?_ (by split_ifs <;> rfl) ?_ fun j hj => ?_
  · split_ifs
    · refine ⟨hlive, h.stk, fun u hu => ?_, h.cons, h.vec⟩
      rcases List.mem_append.1 hu with hu | hu
      · exact h.fill u hu
      · rw [List.mem_singleton.1 hu]
        exact hknows.1
    · exact ⟨hlive, h.stk, h.fill, h.cons, h.vec⟩
  · rw [pointersAt_cons_self _ ⟨p.uid, .shared⟩, pointersAt_erase]
    exact (h.counts _).doSwitchUniqueToShared (mem_pointersAt.2 ⟨hp, rfl⟩) hl
  · rw [pointersAt_cons_of_ne (p := ⟨p.uid, .shared⟩) hj, pointersAt_erase_of_ne hj]

theorem release (hp : p ∈ s.live) : Locked (s.release p) := by
  have hi := h.live p hp
  simp only [System.release, hi, if_true]
  refine h.update (i := p.uid.index) ⟨fun q hq => h.live q (List.mem_of_mem_erase hq), h.stk,
    fun u hu => ?_, h.cons, h.vec⟩ rfl ?_ fun j hj => pointersAt_erase_of_ne hj
  · rcases List.mem_append.1 hu with hu | hu
    · exact h.fill u hu
    · rw [List.mem_singleton.1 hu]
      exact hi
  · rw [pointersAt_erase]
    exact (h.counts _).doDecrementObjectUseCount (mem_pointersAt.2 ⟨hp, rfl⟩)

theorem exchange : Locked { s with store := { s.store with
    consEraseVec := s.store.fillEraseVec, fillEraseVec := [] } } :=
  ⟨⟨h.live, h.stk, by simp, h.fill, h.vec⟩, h.counts⟩

end

theorem pointersAt_granted (uid : UniqueId) (ws : List (WaitStub F)) (live : List Pointer)
    (j : ℕ) : pointersAt (ws.map (fun w => ⟨uid, w.kind.access.lock⟩) ++ live) j =
      (if uid.index = j then ws.map (fun w => (⟨uid, w.kind.access.lock⟩ : Pointer)) else []) ++
        pointersAt live j := by
  unfold pointersAt
  rw [filter_append]
  congr 1
  split_ifs with hj
  · rw [filter_eq_self]
    simp [hj]
  · rw [filter_eq_nil_iff]
    simp [hj]

theorem erase (h : Locked s) {uid : UniqueId} {rest : List UniqueId}
    (hc : s.store.consEraseVec = uid :: rest) : Locked (s.erase uid rest).1 := by
  have hrest : ∀ u ∈ rest, u.index < s.store.objmaxcnt := fun u hu => h.cons u (by simp [hc, hu])
  have hi : uid.index < s.store.objmaxcnt := h.cons uid (by simp [hc])
  simp only [System.erase]
  split_ifs with huid hclear
  · refine ⟨⟨h.live, h.stk, h.fill, hrest, fun i hv => ?_⟩, h.counts⟩
    rcases List.mem_append.1 hv with hv | hv
    · exact h.vec i hv
    · rw [List.mem_singleton.1 hv]
      exact hi
  · refine h.update ⟨fun p hp => ?_, h.stk, h.fill, hrest, h.vec⟩ rfl ?_ fun j hj => ?_
    · rcases List.mem_append.1 hp with hp | hp
      · obtain ⟨w, -, rfl⟩ := List.mem_map.1 hp
        exact hi
      · exact h.live p hp
    · rw [pointersAt_granted, if_pos rfl]
      have hloop := ((h.counts uid.index).eraseLoop uid.index (s.store.stubvec uid.index).waits).2
      rwa [← huid] at hloop
    · rw [pointersAt_granted, if_neg hj.symm, List.nil_append]
  · exact ⟨⟨h.live, h.stk, h.fill, hrest, h.vec⟩, h.counts⟩

theorem cache (h : Locked s) {rest : List ℕ}
    (hv : s.store.cacheobjidxvec = i :: rest) : Locked (s.cache i rest).1 := by
  have hrest : ∀ j ∈ rest, j < s.store.objmaxcnt := fun j hj => h.vec j (by simp [hv, hj])
  simp only [System.cache]
  split_ifs with hclear
  · refine h.update ⟨h.live, ?_, h.fill, h.cons, hrest⟩ rfl ((h.counts i).clear hclear)
      fun _ _ => rfl
    rintro j (_ | ⟨_, hj⟩)
    · exact h.vec _ (by simp [hv])
    · exact h.stk j hj
  · exact ⟨⟨h.live, h.stk, h.fill, h.cons, hrest⟩, h.counts⟩

theorem step (h : Locked s) {a : Action F} {o : Outcome F}
    (hs : s.Step a s' o) : Locked s' := by
  cases hs with
  | call hw hi hn _ _ ha =>
    refine (h.prepare a).answer ?_ ha
    cases halloc : a.allocates with
    | true =>
      rw [hn halloc, System.prepare, if_pos halloc]
      exact h.nextIndex_lt
    | false =>
      simp only [System.prepare, halloc, Bool.false_eq_true, if_false]
      exact hi halloc
  | ignored _ => exact h
  | uniqueToShared hp hl => exact h.uniqueToShared hp hl
  | release hp => exact h.release hp
  | exchange _ _ => exact h.exchange
  | erase hc => exact h.erase hc
  | cache _ hv => exact h.cache hv

end Locked

/-! ## Runs -/

/-- The states reached by steps that are all `ok`, with the outcomes of the steps,
    the last one first. -/
inductive Run (ok : List (Outcome F) → System F → Action F → Prop) :
    List (Outcome F) → System F → Prop where
  | initial : Run ok [] {}
  | step {os} {s s' : System F} {a o} :
      Run ok os s →
      ok os s a →
      s.exec a = some (s', o) →
      Run ok (o :: os) s'

variable {ok : List (Outcome F) → System F → Action F → Prop} {os : List (Outcome F)}

theorem Run.locked {s : System F} (h : Run ok os s) : Locked s := by
  induction h with
  | initial => exact .initial
  | step _ _ hexec ih => exact ih.step (System.exec_step hexec)

def System.run (ok : List (Outcome F) → System F → Action F → Prop)
    [∀ os s a, Decidable (ok os s a)] :
    List (Action F) → List (Outcome F) → System F → Option (List (Outcome F) × System F)
  | [], os, s => some (os, s)
  | a :: as, os, s =>
    if ok os s a then (s.exec a).bind fun r => run ok as (r.2 :: os) r.1 else none

theorem Run.of_run [∀ os s a, Decidable (ok os s a)] {as : List (Action F)}
    {s : System F} {os' : List (Outcome F)} (h : Run ok os s)
    (hrun : System.run ok as os s = some (os', s')) : Run ok os' s' := by
  induction as generalizing os s with
  | nil => cases hrun; exact h
  | cons a as ih =>
    simp only [System.run] at hrun
    split_ifs at hrun with hok
    obtain ⟨⟨s1, o⟩, hexec, hrest⟩ := Option.bind_eq_some_iff.1 hrun
    exact ih (h.step hok hexec) hrest

theorem exists_run (ok : List (Outcome F) → System F → Action F → Prop)
    [∀ os s a, Decidable (ok os s a)] (as : List (Action F))
    (P : List (Outcome F) × System F → Bool)
    (h : (System.run ok as [] {}).any P) : ∃ r, Run ok r.1 r.2 ∧ P r = true := by
  cases hrun : System.run ok as [] {} with
  | none => simp [hrun] at h
  | some r => exact ⟨r, Run.of_run .initial hrun, by simpa [hrun] using h⟩

theorem exists_run_exec (ok : List (Outcome F) → System F → Action F → Prop)
    [∀ os s a, Decidable (ok os s a)] (as : List (Action F)) (a : Action F)
    (P : List (Outcome F) → System F → System F → Outcome F → Bool)
    (h : (System.run ok as [] {}).any (fun r => decide (ok r.1 r.2 a) &&
      (r.2.exec a).any fun x => P r.1 r.2 x.1 x.2)) :
    ∃ os s s' o, Run ok os s ∧ ok os s a ∧ s.exec a = some (s', o) ∧ P os s s' o = true := by
  obtain ⟨⟨os, s⟩, hrun, hstep⟩ := exists_run ok as _ h
  obtain ⟨hok, hexec⟩ := Bool.and_eq_true_iff.1 hstep
  cases hx : s.exec a with
  | none => simp [hx] at hexec
  | some x => exact ⟨os, s, x.1, x.2, hrun, of_decide_eq_true hok, hx, by simpa [hx] using hexec⟩

/-- **Mutual exclusion.**  While a unique or reinit pointer to an object is live,
    every other live pointer to it is an alive pointer; and the counters of every
    object are the numbers of live use and alive pointers to it. -/
theorem System.unique_pointer_exclusive {s : System F} (h : Run (fun _ _ _ => True) os s) :
    (∀ p ∈ s.live, p.lock = .unique →
      ∀ q ∈ s.live.erase p, q.uid.index = p.uid.index → q.lock = .alive) ∧
    (∀ i, (s.store.stubvec i).usecnt = s.live.countP (fun p => p.uid.index = i ∧ p.lock ≠ .alive) ∧
      (s.store.stubvec i).alivecnt =
        s.live.countP (fun p => p.uid.index = i ∧ p.lock = .alive)) := by
  have hl := h.locked
  refine ⟨fun p hp hu q hq hi => ?_, fun i => ⟨?_, ?_⟩⟩
  · by_contra hne
    have hmem := mem_pointersAt.2 ⟨hp, rfl⟩
    obtain ⟨h1, -⟩ := (hl.counts p.uid.index).exclusive p hmem hu
    -- two use pointers among those to the object
    have hq' : q ∈ (pointersAt s.live p.uid.index).erase p := by
      rw [← pointersAt_erase]
      exact mem_pointersAt.2 ⟨hq, hi⟩
    have hpos : 0 < ((pointersAt s.live p.uid.index).erase p).countP (·.lock ≠ .alive) :=
      countP_pos_iff.2 ⟨q, hq', by simpa using hne⟩
    rw [countP_erase, if_pos ⟨hmem, by simp [hu]⟩, ← (hl.counts p.uid.index).usecnt, h1] at hpos
    omega
  · rw [(hl.counts i).usecnt, pointersAt, countP_filter]
    congr 1
    funext p
    simp [Bool.and_comm]
  · rw [(hl.counts i).alivecnt, pointersAt, countP_filter]
    congr 1
    funext p
    simp [Bool.and_comm]

/-- An object with a live unique pointer and an alive one. -/
theorem System.unique_pointer_with_alive :
    ∃ s : System ℕ, s.live = [⟨⟨0, 0⟩, .alive⟩, ⟨⟨0, 0⟩, .unique⟩] ∧
      (∀ q ∈ s.live.erase ⟨⟨0, 0⟩, .unique⟩, q.uid.index = 0 → q.lock = .alive) ∧
      (s.store.stubvec 0).usecnt = 1 ∧ (s.store.stubvec 0).alivecnt = 1 := by
  obtain ⟨⟨os, s⟩, hrun, hlive⟩ := exists_run (F := ℕ) (fun _ _ _ => True)
    [.insertUnique, .alive ⟨0, 0⟩]
    (fun r => r.2.live = [⟨⟨0, 0⟩, .alive⟩, ⟨⟨0, 0⟩, .unique⟩]) (by decide +kernel)
  have hlive : s.live = [⟨⟨0, 0⟩, .alive⟩, ⟨⟨0, 0⟩, .unique⟩] := by simpa using hlive
  obtain ⟨hex, hcnt⟩ := unique_pointer_exclusive hrun
  refine ⟨s, hlive, hex ⟨⟨0, 0⟩, .unique⟩ (by simp [hlive]) rfl, ?_, ?_⟩
  · rw [(hcnt 0).1, hlive]
    decide
  · rw [(hcnt 0).2, hlive]
    decide

end Shared

end SolidFrame
