/-
  SolidFrame formalization — the indices of services (solid/frame/src/manager.cpp).

  The index of a service is the position of its stub, and the stub knows its service;
  so two services cannot hold one index.  A registration takes a new index, or the one on
  top of `svccache`, which stays there: the stub found there may belong to a service.
-/
import SolidFrame.Frame.Manager

namespace SolidFrame.Frame.Manager

open Function List Option

variable {S O R : Type} {m m' : Manager S O R}

/-! ## Invariant -/

/-- The table of services has a stub for each index, and services and stubs point to
    each other. -/
structure Services (m : Manager S O R) : Prop where
  len : m.crtsvcidx ≤ m.svcstore.cur.length
  table : ∀ i < m.crtsvcidx, m.svcPtr i = some i
  cached : ∀ i ∈ m.svccache, i < m.crtsvcidx
  back : ∀ (s : S) (i : ℕ), m.svcId s = some i → i < m.crtsvcidx ∧ (m.svcdq i).psvc = some s

/-- Nothing that concerns services differs, but for the objects that the stubs count. -/
structure SameServices (m m' : Manager S O R) : Prop where
  svcstore : m'.svcstore = m.svcstore
  crtsvcidx : m'.crtsvcidx = m.crtsvcidx
  svccache : m'.svccache = m.svccache
  svcId : m'.svcId = m.svcId
  psvc : ∀ p : ℕ, (m'.svcdq p).psvc = (m.svcdq p).psvc

variable {p x : ℕ} {out : Outcome O R} {s : S} {o : O} {scheduled : Bool}

namespace SameServices

theorem refl (m : Manager S O R) : SameServices m m := ⟨rfl, rfl, rfl, rfl, fun _ => rfl⟩

theorem trans {m1 m2 m3 : Manager S O R} (h : SameServices m1 m2) (h' : SameServices m2 m3) :
    SameServices m1 m3 :=
  ⟨h'.svcstore.trans h.svcstore, h'.crtsvcidx.trans h.crtsvcidx, h'.svccache.trans h.svccache,
    h'.svcId.trans h.svcId, fun p => (h'.psvc p).trans (h.psvc p)⟩

theorem svcPtr (h : SameServices m m') (i : ℕ) : m'.svcPtr i = m.svcPtr i := by
  rw [Manager.svcPtr, h.svcstore, Manager.svcPtr]

theorem of_stub {u : ServiceStub S} (hdq : m'.svcdq = update m.svcdq p u)
    (hu : u.psvc = (m.svcdq p).psvc) (hstore : m'.svcstore = m.svcstore)
    (hcrt : m'.crtsvcidx = m.crtsvcidx) (hcache : m'.svccache = m.svccache)
    (hid : m'.svcId = m.svcId) : SameServices m m' := by
  refine ⟨hstore, hcrt, hcache, hid, ?_⟩
  intro p'
  rw [hdq]
  rcases eq_or_ne p' p with rfl | hne
  · rw [update_self, hu]
  · rw [update_of_ne hne]

end SameServices

theorem Services.of_same (h : Services m) (hsame : SameServices m m') : Services m' := by
  refine ⟨?_, ?_, ?_, ?_⟩
  · rw [hsame.crtsvcidx, hsame.svcstore]
    exact h.len
  · intro i hi
    rw [hsame.svcPtr, h.table i (hsame.crtsvcidx ▸ hi)]
  · intro i hi
    rw [hsame.crtsvcidx]
    exact h.cached i (hsame.svccache ▸ hi)
  · intro s i hi
    rw [hsame.svcId] at hi
    rw [hsame.crtsvcidx, hsame.psvc]
    exact h.back s i hi

/-! ## Objects -/

theorem takeChunk_same (h : m.takeChunk = some (m', x)) :
    SameServices m m' ∧ m'.svcdq = m.svcdq := by
  unfold takeChunk at h
  split at h
  · cases h
    exact ⟨⟨rfl, rfl, rfl, rfl, fun _ => rfl⟩, rfl⟩
  · cases h
  · split_ifs at h
    cases h
    exact ⟨⟨rfl, rfl, rfl, rfl, fun _ => rfl⟩, rfl⟩

theorem openChunk_same (h : m.openChunk p = some (m', x)) : SameServices m m' := by
  unfold openChunk at h
  obtain ⟨⟨m1, chkidx⟩, htake, h⟩ := bind_eq_some_iff.1 h
  have hsame := (takeChunk_same htake).1
  dsimp only at h
  split_ifs at h
  · cases h
    exact hsame.trans (.of_stub rfl rfl rfl rfl rfl rfl)
  · obtain ⟨q, -, h⟩ := bind_eq_some_iff.1 h
    cases h
    exact hsame.trans (.of_stub rfl rfl rfl rfl rfl rfl)

theorem takeObjectIndex_same (h : m.takeObjectIndex p = some (m', x)) :
    SameServices m m' := by
  unfold takeObjectIndex at h
  split at h
  · cases h
    exact .of_stub rfl rfl rfl rfl rfl rfl
  · split at h
    · cases h
      exact .of_stub rfl rfl rfl rfl rfl rfl
    · exact openChunk_same h

theorem placeObject_same [DecidableEq O] {r : R}
    (h : m.placeObject p x s o r scheduled = some (m', out)) : SameServices m m' := by
  unfold placeObject at h
  obtain ⟨q, -, h⟩ := bind_eq_some_iff.1 h
  dsimp only at h
  split_ifs at h
  all_goals
    cases h
    exact .of_stub rfl rfl rfl rfl rfl rfl

theorem clearChunks_same {turns : ℕ} {chkidx : Option ℕ}
    (h : clearChunks turns m chkidx = some m') : SameServices m m' ∧ m'.svcdq = m.svcdq := by
  induction turns generalizing m chkidx with
  | zero =>
    cases chkidx with
    | none =>
      cases h
      exact ⟨.refl _, rfl⟩
    | some _ => cases h
  | succ turns ih =>
    cases chkidx with
    | none =>
      cases h
      exact ⟨.refl _, rfl⟩
    | some i =>
      simp only [clearChunks, bind, bind_eq_some_iff] at h
      obtain ⟨q, -, h⟩ := h
      obtain ⟨hsame, hdq⟩ := ih h
      exact ⟨⟨hsame.svcstore, hsame.crtsvcidx, hsame.svccache, hsame.svcId, hsame.psvc⟩, hdq⟩

theorem registerObject_same [DecidableEq S] [DecidableEq O] {r : R}
    (h : m.registerObject s o r scheduled = some (m', out)) : SameServices m m' := by
  unfold registerObject at h
  split_ifs at h
  split at h
  · cases h
    exact .refl _
  · obtain ⟨p, -, h⟩ := bind_eq_some_iff.1 h
    split_ifs at h
    · cases h
      exact .refl _
    · obtain ⟨⟨m1, x⟩, htake, h⟩ := bind_eq_some_iff.1 h
      exact (takeObjectIndex_same htake).trans (placeObject_same h)

theorem unregisterObject_same [DecidableEq O] (h : m.unregisterObject o = some (m', x)) :
    SameServices m m' := by
  unfold unregisterObject at h
  obtain ⟨x', -, h⟩ := bind_eq_some_iff.1 h
  obtain ⟨q, -, h⟩ := bind_eq_some_iff.1 h
  obtain ⟨i, -, h⟩ := bind_eq_some_iff.1 h
  obtain ⟨p, -, h⟩ := bind_eq_some_iff.1 h
  cases h
  exact .of_stub rfl rfl rfl rfl rfl rfl

theorem disableObjectVisits_same {b : Bool}
    (h : m.disableObjectVisits o = some (m', b)) : SameServices m m' := by
  unfold disableObjectVisits at h
  split at h
  · cases h
    exact .refl _
  · obtain ⟨q, -, h⟩ := bind_eq_some_iff.1 h
    cases h
    exact ⟨rfl, rfl, rfl, rfl, fun _ => rfl⟩

/-! ## Registering -/

/-- When a registration takes the index on top of the cache, its stub has no service. -/
def topUnused (m : Manager S O R) : Action S O R → Prop
  | .registerService s _ => m.svcId s = none →
      ∀ i ∈ m.svccache.head?, ∀ p ∈ m.svcPtr i, (m.svcdq p).psvc = none
  | _ => True

theorem getElem?_set_join {vec : List (Option ℕ)} {i : ℕ} (hlen : i < vec.length)
    (hvec : ∀ i' < i, vec[i']?.join = some i') :
    ∀ i' < i + 1, (vec.set i (some i))[i']?.join = some i' := by
  intro i' hi'
  rcases eq_or_ne i' i with rfl | hne
  · rw [getElem?_set_self hlen, join_some]
  · rw [getElem?_set_ne hne.symm]
    exact hvec i' (by omega)

theorem Services.push (h : Services m) (vec : List (Option ℕ)) (hlen : m.crtsvcidx < vec.length)
    (hvec : ∀ i < m.crtsvcidx, vec[i]?.join = some i) {store : Copies (Option ℕ)}
    (hstore : store.cur = vec.set m.crtsvcidx (some m.crtsvcidx)) :
    Services { m.setStub m.crtsvcidx .reset with
      crtsvcidx := m.crtsvcidx + 1
      svcstore := store } where
  len := by
    rw [hstore, length_set]
    exact hlen
  table := by
    intro i hi
    rw [svcPtr, hstore]
    exact getElem?_set_join hlen hvec i hi
  cached := fun i hi => Nat.lt_succ_of_lt (h.cached i hi)
  back := by
    intro s i hi
    obtain ⟨hlt, hpsvc⟩ := h.back s i hi
    refine ⟨Nat.lt_succ_of_lt hlt, ?_⟩
    rw [svcdq_setStub, update_of_ne (Nat.ne_of_lt hlt)]
    exact hpsvc

/-- The index taken for a service has a stub that no service has; nothing changes for the
    services. -/
theorem Services.takeServiceIndex (h : Services m) {i capacity : ℕ}
    (hfree : ∀ i ∈ m.svccache.head?, ∀ p ∈ m.svcPtr i, (m.svcdq p).psvc = none)
    (htake : m.takeServiceIndex capacity = some (m', i)) :
    Services m' ∧ i < m'.crtsvcidx ∧ m'.svcId = m.svcId ∧ (∀ s : S, m.svcId s ≠ some i) ∧
      (∀ i' < m.crtsvcidx, m'.svcdq i' = m.svcdq i') := by
  have hnew : ∀ s : S, m.svcId s ≠ some m.crtsvcidx := fun s hs =>
    Nat.lt_irrefl _ (h.back s _ hs).1
  have hdq : ∀ i' < m.crtsvcidx, (m.setStub m.crtsvcidx .reset).svcdq i' = m.svcdq i' := by
    intro i' hi'
    rw [svcdq_setStub, update_of_ne (Nat.ne_of_lt hi')]
  unfold Manager.takeServiceIndex at htake
  split at htake
  next i rest hcache =>
    cases htake
    have hlt := h.cached i (by rw [hcache]; exact mem_cons_self)
    have hnone := hfree i (by rw [hcache]; rfl) i (h.table i hlt)
    refine ⟨h, hlt, rfl, ?_, fun _ _ => rfl⟩
    intro s hs
    rw [(h.back s i hs).2] at hnone
    cases hnone
  next hcache =>
    dsimp only at htake
    split_ifs at htake with hroom
    · cases htake
      exact ⟨h.push _ hroom h.table rfl, Nat.lt_succ_self _, rfl, hnew, hdq⟩
    · cases htake
      have hlen := h.len
      refine ⟨h.push (m.svcstore.cur ++ [none] ++ _) ?_ ?_ rfl, Nat.lt_succ_self _, rfl, hnew, hdq⟩
      · simp only [length_append, length_singleton]
        omega
      · intro i hi
        rw [append_assoc, getElem?_append_left (by omega)]
        exact h.table i hi

theorem Services.registerService [DecidableEq S] (h : Services m) {capacity : ℕ} {b : Bool}
    (hfree : m.svcId s = none → ∀ i ∈ m.svccache.head?, ∀ p ∈ m.svcPtr i, (m.svcdq p).psvc = none)
    (hreg : m.registerService s capacity = some (m', b)) :
    Services m' ∧ ∀ s' : S, s' ≠ s → ∀ i : ℕ, m.svcId s' = some i →
      m'.svcId s' = some i ∧ m'.svcdq i = m.svcdq i := by
  unfold Manager.registerService at hreg
  split_ifs at hreg with hsome hrun
  · cases hreg
    exact ⟨h, fun s' _ i hi => ⟨hi, rfl⟩⟩
  · cases hreg
    exact ⟨h, fun s' _ i hi => ⟨hi, rfl⟩⟩
  obtain ⟨⟨m1, i⟩, htake, hreg⟩ := bind_eq_some_iff.1 hreg
  obtain ⟨p, hp, hreg⟩ := bind_eq_some_iff.1 hreg
  cases hreg
  obtain ⟨h1, hlt, hid, hunused, hdq⟩ :=
    h.takeServiceIndex (hfree (by simpa using hsome)) htake
  dsimp only at hp ⊢
  obtain rfl : i = p := by
    rw [h1.table i hlt] at hp
    exact Option.some.inj hp
  -- the stub of a service that was registered before is another one
  have hother : ∀ s' : S, s' ≠ s → ∀ i' : ℕ, m1.svcId s' = some i' →
      update m1.svcId s (some i) s' = some i' ∧
        update m1.svcdq i (.resetTo s) i' = m1.svcdq i' := by
    intro s' hne i' hi'
    rw [update_of_ne hne, update_of_ne]
    · exact ⟨hi', rfl⟩
    · rintro rfl
      exact hunused s' (hid ▸ hi')
  refine ⟨⟨h1.len, h1.table, h1.cached, ?_⟩, ?_⟩
  · rintro s' i' (hi' : update m1.svcId s (some i) s' = some i')
    rcases eq_or_ne s' s with rfl | hne
    · rw [update_self] at hi'
      cases hi'
      exact ⟨hlt, by rw [svcdq_setStub, update_self]; rfl⟩
    · rw [update_of_ne hne] at hi'
      obtain ⟨hlt', hpsvc⟩ := h1.back s' i' hi'
      refine ⟨hlt', ?_⟩
      rw [svcdq_setStub, (hother s' hne i' hi').2]
      exact hpsvc
  · intro s' hne i' hi'
    obtain ⟨hid', hdq'⟩ := hother s' hne i' (hid ▸ hi')
    exact ⟨hid', hdq'.trans (hdq i' (h.back s' i' hi').1)⟩

/-! ## Unregistering -/

theorem Services.unregisterService [DecidableEq S] (h : Services m)
    (hunreg : m.unregisterService s = some m') : Services m' := by
  unfold Manager.unregisterService at hunreg
  split at hunreg
  · cases hunreg
    exact h
  next i hi =>
  obtain ⟨hlt, hpsvc⟩ := h.back s i hi
  obtain ⟨p, hp, hunreg⟩ := bind_eq_some_iff.1 hunreg
  obtain rfl : i = p := by
    rw [h.table i hlt] at hp
    exact Option.some.inj hp
  rw [if_neg (not_not.2 hpsvc)] at hunreg
  unfold doUnregisterService at hunreg
  obtain ⟨s1, hs1, hunreg⟩ := bind_eq_some_iff.1 hunreg
  obtain rfl : s = s1 := by
    rw [hpsvc] at hs1
    exact Option.some.inj hs1
  obtain ⟨i1, hi1, hunreg⟩ := bind_eq_some_iff.1 hunreg
  obtain rfl : i = i1 := by
    rw [hi] at hi1
    exact Option.some.inj hi1
  obtain ⟨m1, hclear, hunreg⟩ := bind_eq_some_iff.1 hunreg
  cases hunreg
  obtain ⟨hsame, -⟩ := clearChunks_same hclear
  have h1 := h.of_same hsame
  refine ⟨h1.len, h1.table, ?_, ?_⟩
  · rintro i' (_ | ⟨_, hi'⟩)
    · exact hsame.crtsvcidx ▸ hlt
    · exact h1.cached i' (hsame.svccache ▸ hi')
  · rintro s' i' (hi' : update m.svcId s none s' = some i')
    have hne : s' ≠ s := by
      rintro rfl
      rw [update_self] at hi'
      cases hi'
    rw [update_of_ne hne, ← hsame.svcId] at hi'
    obtain ⟨hlt', hpsvc'⟩ := h1.back s' i' hi'
    refine ⟨hlt', ?_⟩
    rw [svcdq_setStub, update_of_ne]
    · exact hpsvc'
    · rintro rfl
      rw [hsame.psvc, hpsvc] at hpsvc'
      exact hne (Option.some.inj hpsvc').symm

/-! ## Runs -/

theorem Services.new (objchkcnt : ℕ) : Services (.new objchkcnt : Manager S O R) where
  len := Nat.le_refl _
  table := fun i hi => absurd hi (Nat.not_lt_zero i)
  cached := fun i hi => absurd hi not_mem_nil
  back := fun s i hi => by cases hi

section Run
variable [DecidableEq S] [DecidableEq O]

theorem Services.exec (h : Services m) {a : Action S O R}
    (hok : m.topUnused a) (hexec : m.exec a = some (m', out)) : Services m' := by
  cases a with
  | registerService s capacity =>
    obtain ⟨⟨m1, b⟩, hreg, heq⟩ := map_eq_some_iff.1 hexec
    cases heq
    exact (h.registerService hok hreg).1
  | unregisterService s =>
    obtain ⟨m1, hunreg, heq⟩ := map_eq_some_iff.1 hexec
    cases heq
    exact h.unregisterService hunreg
  | registerObject s o r scheduled => exact h.of_same (registerObject_same hexec)
  | disableObjectVisits o =>
    obtain ⟨⟨m1, b⟩, hdis, heq⟩ := map_eq_some_iff.1 hexec
    cases heq
    exact h.of_same (disableObjectVisits_same hdis)
  | unregisterObject o =>
    obtain ⟨⟨m1, x⟩, hunreg, heq⟩ := map_eq_some_iff.1 hexec
    cases heq
    exact h.of_same (unregisterObject_same hunreg)
  | notify uid =>
    obtain ⟨os, -, heq⟩ := map_eq_some_iff.1 hexec
    cases heq
    exact h
  | notifyAll s =>
    obtain ⟨os, -, heq⟩ := map_eq_some_iff.1 hexec
    cases heq
    exact h

theorem Services.of_run {objchkcnt : ℕ} {tr : List (Action S O R × Outcome O R)}
    (h : Run objchkcnt topUnused tr m) : Services m := by
  induction h with
  | start => exact .new objchkcnt
  | step _ a hok hexec ih => exact ih.exec hok hexec

/-- **Registered services have distinct indices.**  In every run of calls in which a
    registration finds no service in the stub on top of the cache, two services have
    different indices, the stub of a service points back to it, and a registration changes
    no stub of another service. -/
theorem service_indices {objchkcnt : ℕ} {tr : List (Action S O R × Outcome O R)}
    (h : Run objchkcnt topUnused tr m) :
    (∀ (s s' : S) (i : ℕ), m.svcId s = some i → m.svcId s' = some i → s = s') ∧
      (∀ (s : S) (i : ℕ), m.svcId s = some i →
        ∃ p : ℕ, m.svcPtr i = some p ∧ (m.svcdq p).psvc = some s) ∧
      ∀ (s : S) (capacity : ℕ) (b : Bool) (m' : Manager S O R),
        m.topUnused (.registerService s capacity) →
        m.registerService s capacity = some (m', b) →
        ∀ s' : S, s' ≠ s → ∀ i p : ℕ, m.svcId s' = some i → m.svcPtr i = some p →
          m'.svcId s' = some i ∧ m'.svcPtr i = some p ∧ m'.svcdq p = m.svcdq p := by
  have hinv := Services.of_run h
  refine ⟨?_, ?_, ?_⟩
  · intro s s' i hs hs'
    have hback := (hinv.back s i hs).2
    rw [(hinv.back s' i hs').2] at hback
    exact (Option.some.inj hback).symm
  · intro s i hs
    obtain ⟨hlt, hpsvc⟩ := hinv.back s i hs
    exact ⟨i, hinv.table i hlt, hpsvc⟩
  · intro s capacity b m' hok hreg s' hne i p hs' hp
    obtain ⟨hinv', hkeep⟩ := hinv.registerService hok hreg
    obtain ⟨hid, hdq⟩ := hkeep s' hne i hs'
    obtain rfl : i = p := by
      rw [hinv.table i (hinv.back s' i hs').1] at hp
      exact Option.some.inj hp
    exact ⟨hid, hinv'.table i (hinv'.back s' i hid).1, hdq⟩

end Run

/-- Two services are registered, and a third takes the index of the first after it left. -/
theorem service_indices_reused :
    ∃ (tr : List (Action ℕ Unit Unit × Outcome Unit Unit)) (m : Manager ℕ Unit Unit),
      Run 1 topUnused tr m ∧ m.svcId 1 = some 1 ∧ m.svcId 2 = some 0 ∧
        (∀ s s' i : ℕ, m.svcId s = some i → m.svcId s' = some i → s = s') := by
  have hstart : Run 1 topUnused [] (.new 1 : Manager ℕ Unit Unit) := .start
  have hfirst := hstart.step (.registerService 0 2) (fun _ i hi => by cases hi) rfl
  have hsecond := hfirst.step (.registerService 1 2) (fun _ i hi => by cases hi) rfl
  have hleave := hsecond.step (.unregisterService 0) trivial rfl
  have hrun := hleave.step (.registerService 2 2)
    (fun _ i hi p hp => by cases hi; cases hp; rfl) rfl
  exact ⟨_, _, hrun, rfl, rfl, (service_indices hrun).1⟩

/-- The index of a service that left is given to the next two. -/
theorem index_taken_twice :
    ∃ (tr : List (Action ℕ Unit Unit × Outcome Unit Unit)) (m : Manager ℕ Unit Unit),
      Run 1 (fun _ _ => True) tr m ∧ m.svcId 1 = some 0 ∧ m.svcId 2 = some 0 ∧
        m.svcPtr 0 = some 0 ∧ (m.svcdq 0).psvc = some 2 := by
  have hstart : Run 1 (fun _ _ => True) [] (.new 1 : Manager ℕ Unit Unit) := .start
  have hfirst := hstart.step (.registerService 0 1) trivial rfl
  have hleave := hfirst.step (.unregisterService 0) trivial rfl
  have hsecond := hleave.step (.registerService 1 1) trivial rfl
  have hrun := hsecond.step (.registerService 2 1) trivial rfl
  exact ⟨_, _, hrun, rfl, rfl, rfl, rfl⟩

end SolidFrame.Frame.Manager
