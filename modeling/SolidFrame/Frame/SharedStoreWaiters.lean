/-
  SolidFrame formalization — the waiters of the store of shared objects
  (solid/frame/sharedstore.hpp).

  A request that cannot be served joins the queue of its object, and
  `doExecuteErase` serves the queue from its head as far as it can.  Two things
  are asked of this: that nobody overtakes the queue, and that the head of the
  queue never waits in vain.
-/
import SolidFrame.Frame.SharedStoreLocks

namespace SolidFrame

open Function List System

namespace Shared

variable {F : Type}

/-! ## The order of service -/

/-- The loop of `doExecuteErase` serves a first part of the queue and leaves the
    rest. -/
theorem Stub.eraseLoop_append (rs : Stub F) (ws : List (WaitStub F)) :
    (rs.eraseLoop ws).2 ++ (rs.eraseLoop ws).1.waits = ws := by
  induction ws generalizing rs with
  | nil => rfl
  | cons w ws ih =>
    simp only [Stub.eraseLoop]
    cases rs.deliver w.kind with
    | none => rfl
    | some st => simp [ih]

variable {acc : Access} {p : Pointer}

theorem Stub.doTryGet_waits {rs rs' : Stub F} (h : rs.doTryGet acc = some rs') :
    rs'.waits = rs.waits := by
  cases acc <;>
    simp only [Stub.doTryGet, Stub.doTryGetAlive, Stub.doTryGetUnique, Stub.doTryGetShared,
      Stub.doTryGetReinit] at h
  · cases h; rfl
  all_goals
    split_ifs at h
    cases h
    rfl

theorem Stub.doDecrementObjectUseCount_waits (rs : Stub F) (p : Pointer) :
    (rs.doDecrementObjectUseCount p).waits = rs.waits := by
  unfold Stub.doDecrementObjectUseCount
  split_ifs <;> rfl

def System.waitsAt (s : System F) (i : ℕ) : List (WaitStub F) := (s.store.stubvec i).waits

namespace System

variable {s : System F}

theorem update_waits (f : ℕ → Stub F) (i : ℕ) (rs : Stub F) (j : ℕ) :
    (update f i rs j).waits = if j = i then rs.waits else (f j).waits := by
  split_ifs with hj
  · rw [hj, update_self]
  · rw [update_of_ne hj]

theorem update_waits_eq (f : ℕ → Stub F) (i : ℕ) {rs : Stub F} (h : rs.waits = (f i).waits)
    (j : ℕ) : (update f i rs j).waits = (f j).waits := by
  rw [update_waits]
  split_ifs with hj
  · rw [h, hj]
  · rfl

theorem waitsAt_prepare (s : System F) (a : Action F) (j : ℕ) :
    (s.prepare a).waitsAt j = s.waitsAt j := by
  unfold waitsAt
  rw [prepare_stubvec]

theorem waitsAt_grant {i : ℕ} {rs : Stub F}
    (h : (s.store.stubvec i).doTryGet acc = some rs) (j : ℕ) :
    (s.grant acc i rs).waitsAt j = s.waitsAt j :=
  update_waits_eq _ i (Stub.doTryGet_waits h) j

theorem waitsAt_pushWait (kind : WaitKind) (f : F) (i j : ℕ) : (s.pushWait kind f i).waitsAt j =
      if j = i then s.waitsAt i ++ [⟨kind, f⟩] else s.waitsAt j :=
  update_waits _ i _ j

theorem waitsAt_uniqueToShared (p : Pointer) (j : ℕ) :
    (s.uniqueToShared p).waitsAt j = s.waitsAt j := by
  simp only [uniqueToShared, Stub.doSwitchUniqueToShared]
  by_cases hk : s.store.Knows p.uid
  · by_cases hst : (s.store.stubvec p.uid.index).state = .uniqueLock
    · simp only [hk, hst, if_true]
      split_ifs <;> exact update_waits_eq s.store.stubvec p.uid.index (by rfl) j
    · simp [hk, hst]
  · simp [hk]

theorem waitsAt_release (p : Pointer) (j : ℕ) : (s.release p).waitsAt j = s.waitsAt j := by
  unfold release
  split_ifs
  · exact update_waits_eq _ _ (Stub.doDecrementObjectUseCount_waits _ p) j
  · rfl

theorem waitsAt_cache (i : ℕ) (rest : List ℕ) (j : ℕ) :
    (s.cache i rest).1.waitsAt j = s.waitsAt j := by
  simp only [cache]
  split_ifs
  · exact update_waits_eq s.store.stubvec i (by rfl) j
  · rfl

/-- The queue of the object whose id is erased is served from its head, no other
    queue changes. -/
theorem waitsAt_erase (s : System F) (uid : UniqueId) (rest : List UniqueId) :
    ∃ served : List (WaitStub F),
      s.waitsAt uid.index = served ++ (s.erase uid rest).1.waitsAt uid.index ∧
      (s.erase uid rest).2.grants =
        served.map (fun w => ⟨uid.index, w.kind.access.lock, some w.fnc⟩) ∧
      ∀ j, j ≠ uid.index → (s.erase uid rest).1.waitsAt j = s.waitsAt j := by
  simp only [erase]
  split_ifs
  · exact ⟨[], rfl, rfl, fun _ _ => rfl⟩
  · refine ⟨(s.store.stubvec uid.index).doExecuteErase.2, ?_, rfl, fun j hj => ?_⟩
    · refine (Stub.eraseLoop_append (s.store.stubvec uid.index) _).symm.trans ?_
      congr 1
      exact ((update_waits _ uid.index _ uid.index).trans (if_pos rfl)).symm
    · exact (update_waits _ uid.index _ j).trans (if_neg hj)
  · exact ⟨[], rfl, rfl, fun _ _ => rfl⟩

end System

/-! ### Requests numbered by the steps that make them -/

/-- The function of the request made by step `n` is `n`. -/
def Action.numbered (n : ℕ) (a : Action ℕ) : Bool := a.fnc?.all (· == n)

/-- A unique pointer is asked for on an object with waiters only while somebody
    uses the object. -/
def System.uniqueInTurn (s : System F) (a : Action F) : Bool :=
  match a.wanted s with
  | some (.unique, i) => (s.waitsAt i).isEmpty || (s.store.stubvec i).usecnt != 0
  | _ => true

/-- Step `n` served requests in the order in which they were made: those it served
    in their order, and none of them while an earlier one waits for the same
    object.  Who is served without having waited made the request in this step. -/
def FirstCome (n : ℕ) (gs : List (Grant ℕ)) (s' : System ℕ) : Prop :=
  gs.Pairwise (fun g g' => g.request.getD n < g'.request.getD n) ∧
  ∀ g ∈ gs, g.lock ≠ .alive → ∀ w ∈ s'.waitsAt g.index, g.request.getD n < w.fnc

/-- The queues are in the order of the requests made before step `n`. -/
def Ordered (n : ℕ) (s : System ℕ) : Prop :=
  ∀ i, (s.waitsAt i).Pairwise (·.fnc < ·.fnc) ∧ ∀ w ∈ s.waitsAt i, w.fnc < n

namespace Ordered

variable {n : ℕ} {s s' : System ℕ}

theorem of_sublist (h : Ordered n s) (hs : ∀ i, (s'.waitsAt i).Sublist (s.waitsAt i)) :
    Ordered (n + 1) s' := by
  intro i
  refine ⟨(h i).1.sublist (hs i), fun w hw => ?_⟩
  have hlt := (h i).2 w ((hs i).subset hw)
  omega

theorem of_eq (h : Ordered n s) (hs : ∀ i, s'.waitsAt i = s.waitsAt i) : Ordered (n + 1) s' :=
  h.of_sublist fun i => by rw [hs i]

theorem pushWait (h : Ordered n s) (hs : ∀ i, s'.waitsAt i = s.waitsAt i) (kind : WaitKind)
    (i : ℕ) : Ordered (n + 1) (s'.pushWait kind n i) := by
  have hnext := h.of_eq hs
  intro j
  rw [System.waitsAt_pushWait]
  split_ifs with hj
  · rw [hs i]
    refine ⟨List.pairwise_append.2 ⟨(h i).1, List.pairwise_singleton _ _, ?_⟩, ?_⟩
    · intro w hw w' hw'
      rw [List.mem_singleton.1 hw']
      exact (h i).2 w hw
    · intro w hw
      rcases List.mem_append.1 hw with hw | hw
      · have hlt := (h i).2 w hw
        omega
      · rw [List.mem_singleton.1 hw]
        exact Nat.lt_succ_self n
  · exact hnext j

theorem erase (h : Ordered n s) (uid : UniqueId) (rest : List UniqueId) :
    Ordered (n + 1) (s.erase uid rest).1 ∧
      FirstCome n (s.erase uid rest).2.grants (s.erase uid rest).1 := by
  obtain ⟨served, hq, hgrants, hother⟩ := s.waitsAt_erase uid rest
  have hsorted := (h uid.index).1
  rw [hq, pairwise_append] at hsorted
  refine ⟨h.of_sublist fun i => ?_, ?_, ?_⟩
  · rcases eq_or_ne i uid.index with rfl | hi
    · rw [hq]
      exact sublist_append_right _ _
    · rw [hother i hi]
  · rw [hgrants]
    exact pairwise_map.2 hsorted.1
  · rw [hgrants]
    intro g hg _ w hw
    obtain ⟨v, hv, rfl⟩ := mem_map.1 hg
    exact hsorted.2.2 v hv w hw

theorem answer (h : Ordered n s) {a : Action ℕ} {i : ℕ}
    {gs : List (Grant ℕ)} (hnum : a.numbered n)
    (hfree : acc = .unique → s.waitsAt i = [] ∨ (s.store.stubvec i).usecnt ≠ 0)
    (ha : s.Answer a acc i s' gs) : Ordered (n + 1) s' ∧ FirstCome n gs s' := by
  have hf : ∀ f, a.fnc? = some f → f = n := by
    intro f hf
    simpa [Action.numbered, hf] using hnum
  cases ha with
  | refused _ => exact ⟨h.of_eq fun _ => rfl, List.Pairwise.nil, by simp⟩
  | queued _ hfn _ =>
    rw [hf _ hfn]
    exact ⟨h.pushWait (fun _ => rfl) _ i, List.Pairwise.nil, by simp⟩
  | kept _ hfn hget =>
    rw [hf _ hfn]
    exact ⟨h.pushWait (System.waitsAt_grant hget) _ i, List.Pairwise.nil, by simp⟩
  | granted hget =>
    refine ⟨h.of_eq (System.waitsAt_grant hget), List.pairwise_singleton _ _, ?_⟩
    -- nobody waits where a pointer is given at once
    have hempty : acc.lock ≠ .alive → s.waitsAt i = [] := by
      intro hne
      cases acc with
      | alive => exact absurd rfl hne
      | unique =>
        simp only [Stub.doTryGet, Stub.doTryGetUnique] at hget
        split_ifs at hget with h0
        exact (hfree rfl).resolve_right fun h => h h0
      | shared =>
        simp only [Stub.doTryGet, Stub.doTryGetShared] at hget
        split_ifs at hget with h0
        exact h0.2
      | reinit =>
        simp only [Stub.doTryGet, Stub.doTryGetReinit] at hget
        split_ifs at hget with h0
        exact h0.2.2
    intro g hg hne w hw
    rw [List.mem_singleton.1 hg] at hne hw
    rw [System.waitsAt_grant hget, hempty hne] at hw
    cases hw

theorem step (h : Ordered n s) {a : Action ℕ} {o : Outcome ℕ} (hnum : a.numbered n)
    (hturn : s.uniqueInTurn a) (hs : s.Step a s' o) :
    Ordered (n + 1) s' ∧ FirstCome n o.grants s' := by
  have hnone : ∀ t : System ℕ, FirstCome n [] t := fun t => ⟨List.Pairwise.nil, by simp⟩
  cases hs with
  | @call _ acc i _ _ hw _ _ _ _ ha =>
    have hprep : Ordered n (s.prepare a) := by
      intro j
      rw [System.waitsAt_prepare]
      exact h j
    refine hprep.answer hnum ?_ ha
    rintro rfl
    simpa [System.uniqueInTurn, hw, System.waitsAt] using hturn
  | ignored _ => exact ⟨h.of_eq fun _ => rfl, hnone _⟩
  | @uniqueToShared p _ _ => exact ⟨h.of_eq (System.waitsAt_uniqueToShared p), hnone _⟩
  | @release p _ => exact ⟨h.of_eq (System.waitsAt_release p), hnone _⟩
  | exchange _ _ => exact ⟨h.of_eq fun _ => rfl, hnone _⟩
  | erase _ => exact h.erase _ _
  | @cache i rest _ _ =>
    refine ⟨h.of_eq (System.waitsAt_cache i rest), ?_⟩
    simp only [System.cache]
    split_ifs <;> exact hnone _

end Ordered

theorem Run.ordered {os : List (Outcome ℕ)} {s : System ℕ}
    (h : Run (fun os s a => a.numbered os.length ∧ s.uniqueInTurn a) os s) :
    Ordered os.length s := by
  induction h with
  | initial => exact fun i => ⟨List.Pairwise.nil, by simp [System.waitsAt]⟩
  | step _ hok hexec ih => exact (ih.step hok.1 hok.2 (System.exec_step hexec)).1

/-- **First come, first served.**  In a run in which nobody asks for a unique
    pointer while others wait and nobody uses the object, no step serves a request
    while an earlier one waits for the same object. -/
theorem System.waiters_first_come {os : List (Outcome ℕ)} {s s' : System ℕ} {a : Action ℕ}
    {o : Outcome ℕ}
    (h : Run (fun os s a => a.numbered os.length = true ∧ s.uniqueInTurn a = true) os s)
    (hnum : a.numbered os.length = true) (hturn : s.uniqueInTurn a = true)
    (hexec : s.exec a = some (s', o)) : FirstCome os.length o.grants s' :=
  (h.ordered.step hnum hturn (exec_step hexec)).2

/-- A shared and then a unique request wait for the object; the first is served. -/
theorem System.waiters_first_come_served :
    ∃ (os : List (Outcome ℕ)) (s s' : System ℕ) (o : Outcome ℕ),
      s.exec .erase = some (s', o) ∧ o.grants = [⟨0, .shared, some 1⟩] ∧
      s'.waitsAt 0 = [⟨.uniqueWait, 2⟩] ∧ FirstCome os.length o.grants s' := by
  obtain ⟨os, s, s', o, hrun, hok, hexec, hP⟩ := exists_run_exec (F := ℕ)
    (fun os s a => a.numbered os.length ∧ s.uniqueInTurn a)
    [.insertUnique, .requestShared 1 ⟨0, 0⟩, .requestUnique 2 ⟨0, 0⟩,
      .release ⟨⟨0, 0⟩, .unique⟩, .exchange] .erase
    (fun _ _ s' o => o.grants = [⟨0, .shared, some 1⟩] ∧ s'.waitsAt 0 = [⟨.uniqueWait, 2⟩])
    (by decide +kernel)
  obtain ⟨hgrants, hwaits⟩ := of_decide_eq_true hP
  exact ⟨os, s, s', o, hexec, hgrants, hwaits, waiters_first_come hrun hok.1 hok.2 hexec⟩

/-- The unique pointer is released while a shared request waits, and before the
    store is executed somebody else takes the unique pointer. -/
theorem System.unique_overtakes : ∃ (os : List (Outcome ℕ)) (s s' : System ℕ) (o : Outcome ℕ),
      Run (fun os _ a => a.numbered os.length = true) os s ∧
      s.exec (.unique ⟨0, 0⟩) = some (s', o) ∧ ¬ FirstCome os.length o.grants s' := by
  obtain ⟨os, s, s', o, hrun, -, hexec, hP⟩ := exists_run_exec (F := ℕ)
    (fun os _ a => a.numbered os.length)
    [.insertUnique, .requestShared 1 ⟨0, 0⟩, .release ⟨⟨0, 0⟩, .unique⟩] (.unique ⟨0, 0⟩)
    (fun os _ s' o => os.length = 3 ∧ o.grants = [⟨0, .unique, none⟩] ∧
      s'.waitsAt 0 = [⟨.sharedWait, 1⟩]) (by decide +kernel)
  obtain ⟨hlen, hgrants, hwaits⟩ := of_decide_eq_true hP
  refine ⟨os, s, s', o, hrun, hexec, fun h => ?_⟩
  have hlt := h.2 ⟨0, .unique, none⟩ (by simp [hgrants]) (by decide) ⟨.sharedWait, 1⟩
    (by simp [hwaits])
  simp [hlen] at hlt

/-! ## No waiter is left behind -/

/-- A waiter could be served beside the given pointers to its object. -/
def WaitKind.Grantable (ps : List Pointer) : WaitKind → Prop
  | .uniqueWait => ∀ p ∈ ps, p.lock = .alive
  | .sharedWait => ∀ p ∈ ps, p.lock ≠ .unique
  | .reinitWait => ps = []

theorem WaitKind.Grantable.of_cons {kind : WaitKind} {ps : List Pointer}
    (h : kind.Grantable (p :: ps)) : kind.Grantable ps := by
  cases kind with
  | uniqueWait => exact fun q hq => h q (mem_cons_of_mem p hq)
  | sharedWait => exact fun q hq => h q (mem_cons_of_mem p hq)
  | reinitWait => cases h

/-- The state of a stub with shared pointers and no unique one is the shared one. -/
def Stub.SharedState (rs : Stub F) (ps : List Pointer) : Prop :=
  (∀ p ∈ ps, p.lock ≠ .unique) → (∃ p ∈ ps, p.lock = .shared) → rs.state = .sharedLock

/-- The first waiter cannot be served beside the given pointers. -/
def Stub.Blocked (rs : Stub F) (ps : List Pointer) : Prop :=
  ∀ w ws, rs.waits = w :: ws → ¬ w.kind.Grantable ps

namespace Stub

variable {rs : Stub F} {ps : List Pointer}

theorem SharedState.perm {qs : List Pointer} (h : rs.SharedState ps) (hp : ps.Perm qs) :
    rs.SharedState qs := by
  rintro hu ⟨p, hq, hsh⟩
  exact h (fun q hq => hu q (hp.mem_iff.1 hq)) ⟨p, hp.mem_iff.2 hq, hsh⟩

theorem Blocked.perm {qs : List Pointer} (h : rs.Blocked ps) (hp : ps.Perm qs) : rs.Blocked qs := by
  intro w ws hw hg
  refine h w ws hw ?_
  cases hk : w.kind <;> rw [hk] at hg
  · exact fun p hq => hg p (hp.mem_iff.1 hq)
  · exact fun p hq => hg p (hp.mem_iff.1 hq)
  · exact perm_nil.1 (hg ▸ hp)

theorem Counts.usecnt_eq_zero (h : rs.Counts ps) : rs.usecnt = 0 ↔ ∀ p ∈ ps, p.lock = .alive := by
  rw [h.usecnt, countP_eq_zero]
  simp

theorem Counts.counts_eq_zero (h : rs.Counts ps) : rs.usecnt = 0 ∧ rs.alivecnt = 0 ↔ ps = [] := by
  constructor
  · rintro ⟨huse, halive⟩
    rw [h.alivecnt, countP_eq_zero] at halive
    have hall := h.usecnt_eq_zero.1 huse
    refine eq_nil_iff_forall_not_mem.2 fun p hp => halive p hp ?_
    simpa using hall p hp
  · rintro rfl
    exact ⟨h.usecnt, h.alivecnt⟩

variable {kind : WaitKind} {rs' : Stub F}

theorem Counts.not_grantable_of_deliver (h : rs.Counts ps) (hst : rs.SharedState ps)
    (hd : rs.deliver kind = none) : ¬ kind.Grantable ps := by
  intro hg
  cases kind with
  | uniqueWait => simp [Stub.deliver, h.usecnt_eq_zero.2 hg] at hd
  | reinitWait => simp [Stub.deliver, h.counts_eq_zero.2 hg] at hd
  | sharedWait =>
    simp only [Stub.deliver, ite_eq_right_iff, reduceCtorEq, imp_false, not_or] at hd
    -- somebody uses the object, and nobody uniquely
    obtain ⟨p, hp, hne⟩ : ∃ p ∈ ps, p.lock ≠ .alive := by
      by_contra hall
      push Not at hall
      exact hd.1 (h.usecnt_eq_zero.2 hall)
    have hsh : p.lock = .shared := by
      have hu := hg p hp
      cases hl : p.lock <;> simp_all
    exact hd.2 (hst hg ⟨p, hp, hsh⟩)

/-- What a `doTryGet…` refuses on an empty queue cannot be granted, provided a
    shared pointer is not asked for in another state. -/
theorem Counts.not_grantable_of_doTryGet (h : rs.Counts ps) (hw : rs.waits = [])
    (hready : kind = .sharedWait → (∀ p ∈ ps, p.lock ≠ .unique) → rs.state = .sharedLock)
    (hget : rs.doTryGet kind.access = none) : ¬ kind.Grantable ps := by
  intro hg
  cases kind with
  | uniqueWait =>
    simp [WaitKind.access, Stub.doTryGet, Stub.doTryGetUnique, h.usecnt_eq_zero.2 hg] at hget
  | reinitWait =>
    simp [WaitKind.access, Stub.doTryGet, Stub.doTryGetReinit, h.counts_eq_zero.2 hg, hw] at hget
  | sharedWait =>
    simp [WaitKind.access, Stub.doTryGet, Stub.doTryGetShared, hready rfl hg, hw] at hget

theorem SharedState.doTryGet (i : ℕ)
    (halive : acc = .alive → ∀ p ∈ ps, p.lock ≠ .shared)
    (hget : rs.doTryGet acc = some rs') : rs'.SharedState (⟨⟨i, rs'.uid⟩, acc.lock⟩ :: ps) := by
  intro hu hs
  cases acc with
  | unique => exact absurd rfl (hu _ mem_cons_self)
  | reinit => exact absurd rfl (hu _ mem_cons_self)
  | alive =>
    obtain ⟨p, hp, hsh⟩ := hs
    rcases mem_cons.1 hp with rfl | hp
    · cases hsh
    · exact absurd hsh (halive rfl p hp)
  | shared =>
    simp only [Stub.doTryGet, Stub.doTryGetShared] at hget
    split_ifs at hget with hst
    cases hget
    exact hst.1

theorem SharedState.deliver {st : StubState} (i : ℕ) (hd : rs.deliver kind = some st) :
    ({ rs with state := st, usecnt := rs.usecnt + 1 } : Stub F).SharedState
      (⟨⟨i, rs.uid⟩, kind.access.lock⟩ :: ps) := by
  intro hu _
  cases kind with
  | uniqueWait => exact absurd rfl (hu _ mem_cons_self)
  | reinitWait => exact absurd rfl (hu _ mem_cons_self)
  | sharedWait =>
    simp only [Stub.deliver] at hd
    split_ifs at hd
    cases hd
    rfl

theorem Counts.eraseLoop_blocked (h : rs.Counts ps) (hst : rs.SharedState ps) (i : ℕ)
    (ws : List (WaitStub F)) :
    (rs.eraseLoop ws).1.SharedState
        ((rs.eraseLoop ws).2.map (fun w => ⟨⟨i, rs.uid⟩, w.kind.access.lock⟩) ++ ps) ∧
      (rs.eraseLoop ws).1.Blocked
        ((rs.eraseLoop ws).2.map (fun w => ⟨⟨i, rs.uid⟩, w.kind.access.lock⟩) ++ ps) := by
  induction ws generalizing rs ps with
  | nil => exact ⟨hst, by simp [Blocked, Stub.eraseLoop]⟩
  | cons w ws ih =>
    simp only [Stub.eraseLoop]
    cases hd : rs.deliver w.kind with
    | none =>
      refine ⟨hst, fun v vs hv => ?_⟩
      cases hv
      exact h.not_grantable_of_deliver hst hd
    | some st =>
      obtain ⟨hst', hbl⟩ := ih (h.deliver i hd) (SharedState.deliver i hd)
      exact ⟨hst'.perm perm_middle, hbl.perm perm_middle⟩

theorem Blocked.cons (h : rs.Blocked ps) (hw : rs'.waits = rs.waits)
    (p : Pointer) : rs'.Blocked (p :: ps) := by
  intro w ws hws hg
  exact h w ws (hw ▸ hws) hg.of_cons

theorem Blocked.pushWait (h : rs.Blocked ps) (f : F)
    (hnew : rs.waits = [] → ¬ kind.Grantable ps) : (rs.doPushWait kind f).Blocked ps := by
  intro w ws hws
  cases hq : rs.waits with
  | nil =>
    simp only [doPushWait, hq, nil_append] at hws
    cases hws
    exact hnew hq
  | cons v vs =>
    simp only [doPushWait, hq, cons_append, List.cons.injEq] at hws
    exact hws.1 ▸ h v vs hq

/-- A unique pointer was the only use pointer, so no shared one stays after it. -/
theorem SharedState.release (h : rs.SharedState ps) (hc : rs.Counts ps)
    (hp : p ∈ ps) : (rs.doDecrementObjectUseCount p).SharedState (ps.erase p) := by
  have hstate : (rs.doDecrementObjectUseCount p).state = rs.state := by
    unfold doDecrementObjectUseCount
    split_ifs <;> rfl
  rintro hu ⟨q, hq, hsh⟩
  rw [hstate]
  have hqp : q ∈ ps := mem_of_mem_erase hq
  refine h (fun r hr hru => ?_) ⟨q, hqp, hsh⟩
  -- only the released pointer itself may have been unique
  have hrp : r = p := by
    by_contra hne
    exact hu r ((mem_erase_of_ne hne).2 hr) hru
  subst hrp
  have h1 := (hc.exclusive r hr hru).1
  have hpos : 0 < (ps.erase r).countP (·.lock ≠ .alive) :=
    countP_pos_iff.2 ⟨q, hq, by simp [hsh]⟩
  rw [countP_erase, if_pos ⟨hr, by simp [hru]⟩, ← hc.usecnt] at hpos
  omega

theorem doTryGet_uid (h : rs.doTryGet acc = some rs') :
    rs'.uid = rs.uid := by
  cases acc <;>
    simp only [doTryGet, doTryGetAlive, doTryGetUnique, doTryGetShared, doTryGetReinit] at h
  · cases h; rfl
  all_goals
    split_ifs at h
    cases h
    rfl

theorem doDecrementObjectUseCount_uid (rs : Stub F) (p : Pointer) :
    (rs.doDecrementObjectUseCount p).uid = rs.uid := by
  unfold doDecrementObjectUseCount
  split_ifs <;> rfl

end Stub

/-- A release or conversion of the present object at index `i` is still to be
    looked at by the store. -/
def Store.Notified (t : Store F) (i : ℕ) : Prop :=
  (⟨i, (t.stubvec i).uid⟩ : UniqueId) ∈ t.fillEraseVec ++ t.consEraseVec

/-- No waiter that could be served waits without a notification. -/
structure Awake (s : System F) : Prop where
  state : ∀ i, (s.store.stubvec i).SharedState (pointersAt s.live i)
  woken : ∀ i, s.store.Notified i ∨ (s.store.stubvec i).Blocked (pointersAt s.live i)

namespace Awake

variable {s : System F}

theorem initial : Awake ({} : System F) where
  state _ := by rintro - ⟨p, hp, -⟩; cases hp
  woken _ := .inr fun _ _ h => by cases h

variable {i : ℕ}

theorem update (h : Awake s) {t : Store F} {rs : Stub F} {live : List Pointer}
    (hstub : t.stubvec = update s.store.stubvec i rs)
    (hother : ∀ j, j ≠ i → pointersAt live j = pointersAt s.live j)
    (hmono : ∀ u : UniqueId, u.index ≠ i →
      u ∈ s.store.fillEraseVec ++ s.store.consEraseVec → u ∈ t.fillEraseVec ++ t.consEraseVec)
    (hst : rs.SharedState (pointersAt live i))
    (hw : ⟨i, rs.uid⟩ ∈ t.fillEraseVec ++ t.consEraseVec ∨ rs.Blocked (pointersAt live i)) :
    Awake ⟨t, live⟩ := by
  refine ⟨fun j => ?_, fun j => ?_⟩
  · show (t.stubvec j).SharedState (pointersAt live j)
    rw [hstub]
    rcases eq_or_ne j i with rfl | hj
    · rwa [update_self]
    · rw [update_of_ne hj, hother j hj]
      exact h.state j
  · show t.Notified j ∨ (t.stubvec j).Blocked (pointersAt live j)
    unfold Store.Notified
    rw [hstub]
    rcases eq_or_ne j i with rfl | hj
    · rwa [update_self]
    · rw [update_of_ne hj, hother j hj]
      exact (h.woken j).imp_left (hmono _ hj)

theorem prepare (h : Awake s) (a : Action F) : Awake (s.prepare a) := by
  unfold System.prepare System.allocate Store.doAllocateIndex
  split_ifs
  · cases s.store.cacheobjidxstk <;> exact ⟨h.state, h.woken⟩
  · exact h

theorem grant (h : Awake s) {rs : Stub F}
    (halive : acc = .alive → ∀ p ∈ pointersAt s.live i, p.lock ≠ .shared)
    (hget : (s.store.stubvec i).doTryGet acc = some rs) : Awake (s.grant acc i rs) := by
  have hself := pointersAt_cons_self s.live ⟨⟨i, rs.uid⟩, acc.lock⟩
  refine h.update rfl (fun j hj => pointersAt_cons_of_ne hj) (fun _ _ hu => hu) ?_ ?_
  · rw [hself]
    exact .doTryGet i halive hget
  · rw [hself, Stub.doTryGet_uid hget]
    exact (h.woken i).imp_right fun hb => hb.cons (Stub.doTryGet_waits hget) _

theorem pushWait (h : Awake s) {kind : WaitKind} {f : F}
    (hnew : s.waitsAt i = [] → ¬ kind.Grantable (pointersAt s.live i)) :
    Awake (s.pushWait kind f i) :=
  h.update rfl (fun _ _ => rfl) (fun _ _ hu => hu) (h.state i)
    ((h.woken i).imp_right fun hb => hb.pushWait f hnew)

theorem uniqueToShared (h : Awake s) (hl : Locked s) (hp : p ∈ s.live)
    (hu : p.lock = .unique) : Awake (s.uniqueToShared p) := by
  have hknows := hl.knows hp
  simp only [System.uniqueToShared, hknows, if_true, Stub.doSwitchUniqueToShared,
    hl.uniqueLock hp hu]
  have hself := pointersAt_cons_self (s.live.erase p) ⟨p.uid, .shared⟩
  refine h.update (i := p.uid.index) (by split_ifs <;> rfl) (fun j hj => ?_)
    (fun u _ hu => ?_) (fun _ _ => rfl) ?_
  · rw [pointersAt_cons_of_ne (p := ⟨p.uid, .shared⟩) hj, pointersAt_erase_of_ne hj]
  · split_ifs
    · simp only [Store.notifyObject, Store.setStub, List.mem_append] at hu ⊢
      exact hu.imp_left .inl
    · exact hu
  · split_ifs with hhead
    · left
      simp [Store.notifyObject, hknows.2]
    · refine .inr fun w ws hw hg => ?_
      have hmem : (⟨p.uid, .shared⟩ : Pointer) ∈
          pointersAt (⟨p.uid, .shared⟩ :: s.live.erase p) p.uid.index := by
        rw [hself]
        exact List.mem_cons_self
      cases hk : w.kind with
      | sharedWait => simp_all
      | uniqueWait =>
        rw [hk] at hg
        cases hg _ hmem
      | reinitWait =>
        rw [hk] at hg
        rw [hg] at hmem
        cases hmem

theorem release (h : Awake s) (hl : Locked s) (hp : p ∈ s.live) :
    Awake (s.release p) := by
  have hknows := hl.knows hp
  simp only [System.release, hknows.1, if_true]
  refine h.update (i := p.uid.index) rfl (fun j hj => pointersAt_erase_of_ne hj)
    (fun u _ hu => ?_) ?_ (.inl ?_)
  · simp only [Store.notifyObject, Store.setStub, List.mem_append] at hu ⊢
    exact hu.imp_left .inl
  · rw [pointersAt_erase]
    exact (h.state _).release (hl.counts _) (mem_pointersAt.2 ⟨hp, rfl⟩)
  · rw [Stub.doDecrementObjectUseCount_uid, hknows.2]
    simp [Store.notifyObject]

theorem exchange (h : Awake s) (hc : s.store.consEraseVec = []) :
    Awake { s with store := { s.store with
      consEraseVec := s.store.fillEraseVec, fillEraseVec := [] } } := by
  refine ⟨h.state, fun i => (h.woken i).imp_left fun hn => ?_⟩
  unfold Store.Notified at hn ⊢
  rw [hc, append_nil] at hn
  exact hn

variable {rest : List UniqueId}

theorem mem_of_ne {t : Store F} {u uid : UniqueId}
    (hc : t.consEraseVec = uid :: rest) (hne : u ≠ uid)
    (hu : u ∈ t.fillEraseVec ++ t.consEraseVec) : u ∈ t.fillEraseVec ++ rest := by
  rw [hc] at hu
  simp only [mem_append, mem_cons] at hu ⊢
  rcases hu with hu | hu | hu
  · exact .inl hu
  · exact absurd hu hne
  · exact .inr hu

theorem erase (h : Awake s) (hl : Locked s) {uid : UniqueId}
    (hc : s.store.consEraseVec = uid :: rest) : Awake (s.erase uid rest).1 := by
  simp only [System.erase]
  split_ifs with huid hclear
  · -- a stub that can be cleared has no waiters
    refine ⟨h.state, fun i => ?_⟩
    rcases eq_or_ne i uid.index with rfl | hi
    · right
      intro w ws hw
      simp only [Stub.canClear, Bool.and_eq_true, List.isEmpty_iff] at hclear
      rw [hclear.2] at hw
      cases hw
    · exact (h.woken i).imp_left fun hn =>
        mem_of_ne (t := s.store) hc (fun heq => hi (congrArg UniqueId.index heq)) hn
  · obtain ⟨hst, hbl⟩ := (hl.counts uid.index).eraseLoop_blocked (h.state uid.index) uid.index
      (s.store.stubvec uid.index).waits
    rw [← huid] at hst hbl
    have hself := Locked.pointersAt_granted uid (s.store.stubvec uid.index).doExecuteErase.2
      s.live uid.index
    rw [if_pos rfl] at hself
    refine h.update (i := uid.index) rfl (fun j hj => ?_)
      (fun u hu => mem_of_ne hc fun heq => hu (congrArg UniqueId.index heq)) ?_ (.inr ?_)
    · rw [Locked.pointersAt_granted, if_neg hj.symm, List.nil_append]
    · rw [hself]
      exact hst
    · rw [hself]
      exact hbl
  · refine ⟨h.state, fun i => (h.woken i).imp_left fun hn => mem_of_ne (t := s.store) hc ?_ hn⟩
    intro heq
    obtain rfl : i = uid.index := congrArg UniqueId.index heq
    exact huid (congrArg UniqueId.unique heq).symm

theorem cache (h : Awake s) (hl : Locked s) (i : ℕ) (rest : List ℕ) : Awake (s.cache i rest).1 := by
  simp only [System.cache]
  split_ifs with hclear
  · refine h.update (i := i) rfl (fun _ _ => rfl) (fun _ _ hu => hu) ?_ (.inr ?_)
    · rw [(hl.counts i).eq_nil hclear]
      rintro - ⟨p, hp, -⟩
      cases hp
    · intro w ws hw
      simp only [Stub.canClear, Bool.and_eq_true, List.isEmpty_iff] at hclear
      simp only [Stub.clear, hclear.2] at hw
      cases hw
  · exact ⟨h.state, h.woken⟩

end Awake

/-- A shared pointer is asked for, on an object that nobody uses uniquely and
    nobody waits for, only in the shared state, and an alive pointer only on an
    object without shared pointers. -/
def System.sharedReady (s : System F) (a : Action F) : Bool :=
  match a.wanted s with
  | some (.shared, i) => decide ((s.store.stubvec i).state = .sharedLock) ||
      !(s.waitsAt i).isEmpty || (pointersAt s.live i).any (·.lock = .unique)
  | some (.alive, i) => (pointersAt s.live i).all (·.lock ≠ .shared)
  | _ => true

namespace System

variable {s : System F} {a : Action F} {i : ℕ}

theorem sharedReady_shared (h : s.sharedReady a) (hw : a.wanted s = some (.shared, i))
    (hq : s.waitsAt i = []) (hu : ∀ p ∈ pointersAt s.live i, p.lock ≠ .unique) :
    (s.store.stubvec i).state = .sharedLock := by
  simp only [sharedReady, hw, hq, Bool.or_eq_true, decide_eq_true_eq, any_eq_true,
    isEmpty_nil, Bool.not_true, Bool.false_eq_true, or_false] at h
  rcases h with h | ⟨p, hp, hpu⟩
  · exact h
  · exact absurd hpu (hu p hp)

theorem sharedReady_alive (h : s.sharedReady a) (hw : a.wanted s = some (.alive, i)) :
    ∀ p ∈ pointersAt s.live i, p.lock ≠ .shared := by
  simpa [sharedReady, hw] using h

end System

namespace Awake

variable {s s' : System F}

theorem answer (h : Awake s) (hl : Locked s) {a : Action F} {i : ℕ}
    {gs : List (Grant F)}
    (halive : acc = .alive → ∀ p ∈ pointersAt s.live i, p.lock ≠ .shared)
    (hshared : acc = .shared → s.waitsAt i = [] →
      (∀ p ∈ pointersAt s.live i, p.lock ≠ .unique) → (s.store.stubvec i).state = .sharedLock)
    (ha : s.Answer a acc i s' gs) : Awake s' := by
  cases ha with
  | granted hget => exact h.grant halive hget
  | refused _ => exact h
  | @queued kind f hk _ hget =>
    subst hk
    refine h.pushWait fun hq => (hl.counts i).not_grantable_of_doTryGet hq ?_ hget
    rintro rfl
    exact hshared rfl hq
  | kept hk _ hget =>
    subst hk
    refine (h.grant halive hget).pushWait fun _ hg => ?_
    -- the pointer just made is there
    rw [System.grant, pointersAt_cons_self s.live ⟨⟨i, _⟩, _⟩] at hg
    cases hg

theorem step (h : Awake s) (hl : Locked s) {a : Action F} {o : Outcome F}
    (hready : s.sharedReady a) (hs : s.Step a s' o) : Awake s' := by
  cases hs with
  | @call _ acc i _ _ hw hi hn _ _ ha =>
    refine (h.prepare a).answer (hl.prepare a) ?_ ?_ ha
    · rintro rfl
      rw [System.prepare_live]
      exact System.sharedReady_alive hready hw
    · rintro rfl
      rw [System.prepare_live, System.prepare_stubvec, System.waitsAt_prepare]
      exact System.sharedReady_shared hready hw
  | ignored _ => exact h
  | uniqueToShared hp hu => exact h.uniqueToShared hl hp hu
  | release hp => exact h.release hl hp
  | exchange hc _ => exact h.exchange hc
  | erase hc => exact h.erase hl hc
  | @cache i rest _ _ => exact h.cache hl i rest

end Awake

theorem Run.awake {os : List (Outcome F)} {s : System F}
    (h : Run (fun _ s a => s.sharedReady a) os s) : Awake s := by
  induction h with
  | initial => exact .initial
  | step hrun hok hexec ih => exact ih.step hrun.locked hok (System.exec_step hexec)

/-- **Grantable requests are granted.**  In a run in which every step is
    `sharedReady`, a shared request on an object without unique pointer and
    without waiter yields a pointer at once, and a notification is queued for
    every object whose first waiter could be served. -/
theorem System.grantable_notified {os : List (Outcome F)} {s : System F}
    (h : Run (fun _ s a => s.sharedReady a = true) os s) :
    (∀ a i s' o, s.sharedReady a = true → s.exec a = some (s', o) →
      a.wanted s = some (.shared, i) → s.waitsAt i = [] →
      (∀ p ∈ pointersAt s.live i, p.lock ≠ .unique) → o.grants = [⟨i, .shared, none⟩]) ∧
    ∀ i w ws, s.waitsAt i = w :: ws → w.kind.Grantable (pointersAt s.live i) →
      s.store.Notified i := by
  refine ⟨?_, fun i w ws hw hg => (h.awake.woken i).resolve_right fun hb => hb w ws hw hg⟩
  intro a i s' o hready hexec hw hq hu
  have hstate := sharedReady_shared hready hw hq hu
  have hget : ((s.prepare a).store.stubvec i).doTryGet .shared ≠ none := by
    have hq' : (s.store.stubvec i).waits = [] := hq
    simp [Stub.doTryGet, Stub.doTryGetShared, hstate, hq']
  cases exec_step hexec with
  | call hw' _ _ _ _ ha =>
    rw [hw] at hw'
    cases hw'
    generalize o.grants = gs at ha
    cases ha with
    | granted _ => rfl
    | refused hn => exact absurd hn hget
    | queued _ _ hn => exact absurd hn hget
    | kept hk _ _ => cases hk
  | ignored hw' => rw [hw] at hw'; cases hw'
  | uniqueToShared _ _ | release _ | exchange _ _ | erase _ | cache _ _ => cases hw

/-- A converted pointer lets a shared request in at once; a released one leaves a
    notification for the request that waits. -/
theorem System.grantable_notified_after_release :
    (∃ s s' : System ℕ, ∃ o, s.exec (.shared ⟨0, 0⟩) = some (s', o) ∧
      s.live = [⟨⟨0, 0⟩, .shared⟩] ∧ o.grants = [⟨0, .shared, none⟩]) ∧
    ∃ s : System ℕ, s.waitsAt 0 = [⟨.sharedWait, 1⟩] ∧ s.store.Notified 0 := by
  constructor
  · obtain ⟨os, s, s', o, hrun, hok, hexec, hP⟩ := exists_run_exec (F := ℕ)
      (fun _ s a => s.sharedReady a)
      [.insertUnique, .uniqueToShared ⟨⟨0, 0⟩, .unique⟩] (.shared ⟨0, 0⟩)
      (fun _ s _ _ => Action.wanted s (.shared ⟨0, 0⟩ : Action ℕ) = some (.shared, 0) ∧
        s.waitsAt 0 = [] ∧ s.live = [⟨⟨0, 0⟩, .shared⟩]) (by decide +kernel)
    obtain ⟨hw, hwaits, hlive⟩ := of_decide_eq_true hP
    refine ⟨s, s', o, hexec, hlive, (grantable_notified hrun).1 _ 0 s' o hok hexec hw hwaits ?_⟩
    rw [hlive]
    decide
  · obtain ⟨⟨os, s⟩, hrun, hP⟩ := exists_run (F := ℕ) (fun _ s a => s.sharedReady a)
      [.insertUnique, .requestShared 1 ⟨0, 0⟩, .release ⟨⟨0, 0⟩, .unique⟩]
      (fun r => r.2.waitsAt 0 = [⟨.sharedWait, 1⟩] ∧ r.2.live = []) (by decide +kernel)
    obtain ⟨hwaits, hlive⟩ : s.waitsAt 0 = [⟨.sharedWait, 1⟩] ∧ s.live = [] :=
      of_decide_eq_true hP
    refine ⟨s, hwaits, (grantable_notified hrun).2 0 _ [] hwaits ?_⟩
    simp [WaitKind.Grantable, hlive, pointersAt]

/-- An object with an alive pointer only: the shared request is not served, and
    nothing will wake it. -/
theorem System.shared_left_waiting : ∃ (os : List (Outcome ℕ)) (s s' : System ℕ) (o : Outcome ℕ),
      Run (fun _ _ _ => True) os s ∧ s.exec (.requestShared 1 ⟨0, 0⟩) = some (s', o) ∧
      s.waitsAt 0 = [] ∧ (∀ p ∈ pointersAt s.live 0, p.lock ≠ .unique) ∧ o.grants = [] ∧
      s'.waitsAt 0 = [⟨.sharedWait, 1⟩] ∧ WaitKind.sharedWait.Grantable (pointersAt s'.live 0) ∧
      ¬ s'.store.Notified 0 := by
  obtain ⟨os, s, s', o, hrun, -, hexec, hP⟩ := exists_run_exec (F := ℕ) (fun _ _ _ => True)
    [.insertAlive] (.requestShared 1 ⟨0, 0⟩)
    (fun _ s s' o => (s.waitsAt 0 = [] ∧ s.live = [⟨⟨0, 0⟩, .alive⟩] ∧ o.grants = []) ∧
      s'.waitsAt 0 = [⟨.sharedWait, 1⟩] ∧ s'.live = [⟨⟨0, 0⟩, .alive⟩] ∧
      s'.store.fillEraseVec = [] ∧ s'.store.consEraseVec = []) (by decide +kernel)
  obtain ⟨⟨hq, hl, hgrants⟩, hwaits, hlive, hfill, hcons⟩ := of_decide_eq_true hP
  refine ⟨os, s, s', o, hrun, hexec, hq, ?_, hgrants, hwaits, ?_, ?_⟩
  · rw [hl]
    decide
  · rw [hlive]
    intro p hp
    rw [(mem_singleton.1 (mem_pointersAt.1 hp).1)]
    decide
  · simp [Store.Notified, hfill, hcons]

end Shared

end SolidFrame
