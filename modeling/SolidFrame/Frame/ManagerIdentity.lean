/-
  SolidFrame formalization — the identity of objects (solid/frame/src/manager.cpp).

  The abstract machine is a registry: which objects are live, for which service, and with
  which reactor as long as visits are enabled.  It is read off the calls of a run
  (`Registry.ofCalls`).
-/
import Mathlib.Data.List.Range
import SolidFrame.Frame.ManagerObjects

namespace SolidFrame.Frame

open List Option

/-! ## The registry -/

/-- A live object: its service, and its reactor while visits are enabled. -/
abbrev Registry (S O R : Type) := O → Option (S × Option R)

namespace Registry
variable {S O R : Type} [DecidableEq O]

def step (e : Action S O R × Outcome O R) (reg : Registry S O R) : Registry S O R :=
  match e with
  | (.registerObject s o r _, .id _) => Function.update reg o (some (s, some r))
  | (.unregisterObject o, _) => Function.update reg o none
  | (.disableObjectVisits o, _) => Function.update reg o ((reg o).map fun l => (l.1, none))
  | _ => reg

def ofCalls (tr : List (Action S O R × Outcome O R)) : Registry S O R :=
  tr.foldr step fun _ => none

end Registry

def releases {S O R : Type} (x : ℕ) (tr : List (Action S O R × Outcome O R)) : ℕ :=
  tr.countP fun e => match e.2 with
    | .released y => y == x
    | _ => false

section releases
variable {S O R : Type} {x : ℕ} {a : Action S O R} {tr : List (Action S O R × Outcome O R)}

theorem releases_cons_released : releases x ((a, .released x) :: tr) = releases x tr + 1 := by
  simp [releases]

theorem releases_cons_of_ne {out : Outcome O R} (h : out ≠ .released x) :
    releases x ((a, out) :: tr) = releases x tr := by
  unfold releases
  rw [countP_cons_of_neg]
  cases out with
  | released y =>
    have hne : y ≠ x := fun heq => h (heq ▸ rfl)
    simpa using hne
  | _ => simp

end releases

namespace Manager

def keepsServices {S O R : Type} (_ : Manager S O R) : Action S O R → Prop
  | .unregisterService _ => False
  | _ => True

variable {S O R : Type} {m m' : Manager S O R}

/-! ## Runs -/

variable {after before tr : List (Action S O R × Outcome O R)} {uid : UniqueId} {i objchkcnt : ℕ}
  {r : R} {s : S} {e : Option (S × Option R)}

theorem Objects.new (hpos : 0 < objchkcnt) :
    Objects (.new objchkcnt : Manager S O R) where
  services := .new objchkcnt
  tables := ⟨hpos, rfl, ⟨0, Nat.le_refl 0, rfl⟩, (Nat.zero_mul _).symm, rfl, rfl⟩
  links := ⟨fun q hq => absurd hq (Nat.not_lt_zero q), fun i hi => absurd hi (Nat.not_lt_zero i),
    fun i hi => absurd hi (Nat.not_lt_zero i)⟩
  slots := ⟨fun x hx => absurd hx (Nat.not_lt_zero x), fun o x ho => (by cases ho),
    fun x hx => absurd hx (Nat.not_lt_zero x), fun q hq => absurd hq (Nat.not_lt_zero q),
    fun i hi => absurd hi (Nat.not_lt_zero i), fun i hi => absurd hi (Nat.not_lt_zero i),
    fun i hi => absurd hi (Nat.not_lt_zero i)⟩

section Exec
variable [DecidableEq S] [DecidableEq O]

theorem Objects.exec (h : Objects m) {a : Action S O R} {out : Outcome O R}
    (hok : m.keepsServices a) (hexec : m.exec a = some (m', out)) :
    Objects m' ∧ Extends m m' ∧ Change m m' a out := by
  cases a with
  | registerService s capacity =>
    obtain ⟨⟨m1, b⟩, hreg, heq⟩ := map_eq_some_iff.1 hexec
    cases heq
    obtain ⟨hobj, hext, hsame⟩ := h.registerService hreg
    exact ⟨hobj, hext, .service hsame⟩
  | unregisterService s => exact hok.elim
  | registerObject s o r scheduled => exact h.registerObject hexec
  | disableObjectVisits o =>
    obtain ⟨⟨m1, b⟩, hdis, heq⟩ := map_eq_some_iff.1 hexec
    cases heq
    exact h.disableObjectVisits hdis
  | unregisterObject o =>
    obtain ⟨⟨m1, x⟩, hunreg, heq⟩ := map_eq_some_iff.1 hexec
    cases heq
    exact h.unregisterObject hunreg
  | notify uid =>
    obtain ⟨os, -, heq⟩ := map_eq_some_iff.1 hexec
    cases heq
    exact ⟨h, .refl _, .notify ⟨rfl, fun _ _ => rfl⟩⟩
  | notifyAll s =>
    obtain ⟨os, -, heq⟩ := map_eq_some_iff.1 hexec
    cases heq
    exact ⟨h, .refl _, .notifyAll ⟨rfl, fun _ _ => rfl⟩⟩

theorem Objects.of_run (hpos : 0 < objchkcnt)
    (h : Run objchkcnt keepsServices tr m) :
    Objects m := by
  induction h with
  | start => exact .new hpos
  | step _ a hok hexec ih => exact (ih.exec hok hexec).1

end Exec

theorem Slots.index_inj (h : Slots m) {o o' : O} {x : ℕ} (ho : m.objId o = some x)
    (ho' : m.objId o' = some x) : o = o' := by
  have hobj := (h.index o x ho).2
  rw [(h.index o' x ho').2] at hobj
  exact (Option.some.inj hobj).symm

/-! ## Live objects -/

/-- What the manager knows of an object. -/
def Holds (m : Manager S O R) (o : O) : Option (S × Option R) → Prop
  | none => m.objId o = none
  | some (s, v) => ∃ x i : ℕ, m.objId o = some x ∧ m.svcId s = some i ∧ m.owner x = some i ∧
      (m.slot x).preactor = v

theorem Holds.keep (h : Objects m) (hext : Extends m m') {o : O}
    (hholds : m.Holds o e) (hid : m'.objId o = m.objId o)
    (hslot : ∀ x : ℕ, m.objId o = some x → m'.slot x = m.slot x) : m'.Holds o e := by
  rcases e with _ | ⟨s, v⟩
  · exact hid.trans hholds
  · obtain ⟨x, i, ho, hs, hown, hv⟩ := hholds
    have hlt := (h.slots.index o x ho).1
    refine ⟨x, i, hid.trans ho, hext.svcId s i hs, (hext.owner x hlt).trans hown, ?_⟩
    rw [hslot x ho]
    exact hv

theorem Holds.same (h : Objects m) (hext : Extends m m') (hsame : SameSlots m m') {o : O}
    (hholds : m.Holds o e) : m'.Holds o e :=
  hholds.keep h hext (congrFun hsame.objId o) fun x ho => hsame.slot x (h.slots.index o x ho).1

theorem Holds.step [DecidableEq O] (h : Objects m) (hext : Extends m m') {a : Action S O R}
    {out : Outcome O R} (hchange : Change m m' a out) {reg : Registry S O R}
    (hreg : ∀ o : O, m.Holds o (reg o)) (o : O) : m'.Holds o (Registry.step (a, out) reg o) := by
  cases hchange with
  | service hsame => exact (hreg o).same h hext hsame
  | failed hsame => exact (hreg o).same h hext hsame
  | notify hsame => exact (hreg o).same h hext hsame
  | notifyAll hsame => exact (hreg o).same h hext hsame
  | @absent o1 b ho1 hsame =>
    have hnone : reg o1 = none := by
      cases hr : reg o1 with
      | none => rfl
      | some l =>
        have hlive := hreg o1
        rw [hr] at hlive
        obtain ⟨x, i, hx, -⟩ := hlive
        rw [ho1] at hx
        cases hx
    have hstep : Registry.step (.disableObjectVisits o1, .disabled b) reg = reg := by
      simp only [Registry.step, hnone, map_none]
      rw [← hnone, Function.update_eq_self]
    rw [hstep]
    exact (hreg o).same h hext hsame
  | @placed s o1 r uid i hfree hsvc hid hlt hown hold hnew hslot =>
    simp only [Registry.step]
    rcases eq_or_ne o o1 with rfl | hne
    · rw [Function.update_self]
      exact ⟨uid.index, i, by rw [hid, Function.update_self], hext.svcId s i hsvc, hown,
        by rw [hnew]⟩
    · rw [Function.update_of_ne hne]
      refine (hreg o).keep h hext (by rw [hid, Function.update_of_ne hne]) fun x ho => ?_
      obtain ⟨hx, hobj⟩ := h.slots.index o x ho
      refine hslot x hx ?_
      rintro rfl
      rw [(hold hx).1] at hobj
      cases hobj
  | @released o1 x hx hid hnew hslot =>
    simp only [Registry.step]
    rcases eq_or_ne o o1 with rfl | hne
    · rw [Function.update_self]
      show m'.objId o = none
      rw [hid, Function.update_self]
    · rw [Function.update_of_ne hne]
      refine (hreg o).keep h hext (by rw [hid, Function.update_of_ne hne]) fun x' ho => ?_
      refine hslot x' ?_
      rintro rfl
      exact hne (h.slots.index_inj ho hx)
  | @disabled o1 x b hx hid hnew hslot =>
    simp only [Registry.step]
    rcases eq_or_ne o o1 with rfl | hne
    · rw [Function.update_self]
      have hlive := hreg o
      rcases hr : reg o with _ | ⟨s, v⟩
      · rw [hr] at hlive
        exact (congrFun hid o).trans hlive
      · rw [hr] at hlive
        obtain ⟨x', i, ho, hs, hown, -⟩ := hlive
        obtain rfl : x' = x := by
          rw [hx] at ho
          exact (Option.some.inj ho).symm
        exact ⟨x', i, (congrFun hid o).trans hx, hext.svcId s i hs,
          (hext.owner x' (h.slots.index o x' hx).1).trans hown, by rw [hnew]⟩
    · rw [Function.update_of_ne hne]
      refine (hreg o).keep h hext (congrFun hid o) fun x' ho => ?_
      refine hslot x' ?_
      rintro rfl
      exact hne (h.slots.index_inj ho hx)

theorem Holds.of_run [DecidableEq S] [DecidableEq O] (hpos : 0 < objchkcnt)
    (h : Run objchkcnt keepsServices tr m) (o : O) :
    m.Holds o (Registry.ofCalls tr o) := by
  induction h generalizing o with
  | start => rfl
  | step hrun a hok hexec ih =>
    have hobj := Objects.of_run hpos hrun
    obtain ⟨-, hext, hchange⟩ := hobj.exec hok hexec
    exact Holds.step hobj hext hchange ih o

/-! ## Visits of one object -/

section Since
variable {uid : UniqueId} {o : O} {r : R} {after : List (Action S O R × Outcome O R)}
  {a : Action S O R} {out : Outcome O R}

/-- The object is live since its id was issued. -/
structure StillLive (m : Manager S O R) (uid : UniqueId) (o : O) (r : R)
    (after : List (Action S O R × Outcome O R)) : Prop where
  kept : ∀ e ∈ after, e.1 ≠ .unregisterObject o
  zero : releases uid.index after = 0
  objId : m.objId o = some uid.index
  pobject : (m.slot uid.index).pobject = some o
  unique : (m.slot uid.index).unique = uid.unique
  on : (∀ e ∈ after, e.1 ≠ .disableObjectVisits o) → (m.slot uid.index).preactor = some r
  off : (∃ e ∈ after, e.1 = .disableObjectVisits o) → (m.slot uid.index).preactor = none

/-- The object was unregistered since its id was issued, and the counter of the slot has
    moved on. -/
structure Gone (m : Manager S O R) (uid : UniqueId) (o : O)
    (after : List (Action S O R × Outcome O R)) : Prop where
  left : ∃ e ∈ after, e.1 = .unregisterObject o
  pos : 0 < releases uid.index after
  lt : uid.index < m.maxobjcnt
  bound : uid.unique < uniqueLimit
  count : (m.slot uid.index).unique = (uid.unique + releases uid.index after) % uniqueLimit

theorem StillLive.keep (h : StillLive m uid o r after) (ha : a ≠ .unregisterObject o)
    (ha' : a ≠ .disableObjectVisits o) (hout : out ≠ .released uid.index)
    (hid : m'.objId o = m.objId o) (hslot : m'.slot uid.index = m.slot uid.index) :
    StillLive m' uid o r ((a, out) :: after) where
  kept := by
    rintro e (_ | ⟨_, he⟩)
    · exact ha
    · exact h.kept e he
  zero := (releases_cons_of_ne hout).trans h.zero
  objId := hid.trans h.objId
  pobject := by rw [hslot, h.pobject]
  unique := by rw [hslot, h.unique]
  on := by
    intro hall
    rw [hslot]
    exact h.on fun e he => hall e (mem_cons_of_mem _ he)
  off := by
    rintro ⟨e, _ | ⟨_, he⟩, heq⟩
    · exact absurd heq ha'
    · rw [hslot]
      exact h.off ⟨e, he, heq⟩

theorem Gone.keep (h : Gone m uid o after) (hext : Extends m m') (hout : out ≠ .released uid.index)
    (hslot : (m'.slot uid.index).unique = (m.slot uid.index).unique) :
    Gone m' uid o ((a, out) :: after) := by
  obtain ⟨e, he, heq⟩ := h.left
  have hrel : releases uid.index ((a, out) :: after) = releases uid.index after :=
    releases_cons_of_ne hout
  refine ⟨⟨e, mem_cons_of_mem _ he, heq⟩, hrel ▸ h.pos, Nat.lt_of_lt_of_le h.lt hext.max,
    h.bound, ?_⟩
  rw [hslot, hrel]
  exact h.count

theorem StillLive.step [DecidableEq O] (h : StillLive m uid o r after) (hobj : Objects m)
    (hext : Extends m m') (hchange : Change m m' a out) :
    StillLive m' uid o r ((a, out) :: after) ∨ Gone m' uid o ((a, out) :: after) := by
  have hlt := (hobj.slots.index o uid.index h.objId).1
  cases hchange with
  | service hsame =>
    exact .inl (h.keep nofun nofun nofun (congrFun hsame.objId o) (hsame.slot _ hlt))
  | failed hsame =>
    exact .inl (h.keep nofun nofun nofun (congrFun hsame.objId o) (hsame.slot _ hlt))
  | notify hsame =>
    exact .inl (h.keep nofun nofun nofun (congrFun hsame.objId o) (hsame.slot _ hlt))
  | notifyAll hsame =>
    exact .inl (h.keep nofun nofun nofun (congrFun hsame.objId o) (hsame.slot _ hlt))
  | absent hnone hsame =>
    refine .inl (h.keep nofun ?_ nofun (congrFun hsame.objId o) (hsame.slot _ hlt))
    rintro ⟨⟩
    have ho := h.objId
    rw [hnone] at ho
    cases ho
  | @placed s o1 r1 uid1 i hfree hsvc hid hlt1 hown hold hnew hother =>
    have hne : o ≠ o1 := by
      rintro rfl
      have ho := h.objId
      rw [hfree] at ho
      cases ho
    refine .inl (h.keep nofun nofun nofun (by rw [hid, Function.update_of_ne hne])
      (hother _ hlt ?_))
    intro heq
    have hempty := (hold (heq ▸ hlt)).1
    rw [← heq, h.pobject] at hempty
    cases hempty
  | @released o1 x hx hid hnew hother =>
    rcases eq_or_ne o o1 with rfl | hne
    · obtain rfl : uid.index = x := by
        rw [h.objId] at hx
        exact Option.some.inj hx
      refine .inr ⟨⟨_, mem_cons_self, rfl⟩, ?_, Nat.lt_of_lt_of_le hlt hext.max,
        h.unique ▸ hobj.slots.unique _ hlt, ?_⟩
      · rw [releases_cons_released]
        exact Nat.succ_pos _
      · rw [hnew, releases_cons_released, h.zero, h.unique]
    · have hxne : uid.index ≠ x := by
        rintro rfl
        exact hne (hobj.slots.index_inj h.objId hx)
      refine .inl (h.keep ?_ nofun ?_ (by rw [hid, Function.update_of_ne hne]) (hother _ hxne))
      · rintro ⟨⟩
        exact hne rfl
      · rintro ⟨⟩
        exact hxne rfl
  | @disabled o1 x b hx hid hnew hother =>
    rcases eq_or_ne o o1 with rfl | hne
    · obtain rfl : uid.index = x := by
        rw [h.objId] at hx
        exact Option.some.inj hx
      have hrel : releases uid.index ((.disableObjectVisits o, .disabled b) :: after) =
          releases uid.index after := releases_cons_of_ne nofun
      refine .inl ⟨?_, hrel.trans h.zero, (congrFun hid o).trans h.objId,
        by rw [hnew, h.pobject], by rw [hnew, h.unique], ?_, fun _ => by rw [hnew]⟩
      · rintro e (_ | ⟨_, he⟩)
        · exact nofun
        · exact h.kept e he
      · intro hall
        exact absurd rfl (hall _ mem_cons_self)
    · have hxne : uid.index ≠ x := by
        rintro rfl
        exact hne (hobj.slots.index_inj h.objId hx)
      refine .inl (h.keep nofun ?_ nofun (congrFun hid o) (hother _ hxne))
      rintro ⟨⟩
      exact hne rfl

theorem Gone.step [DecidableEq O] (h : Gone m uid o after) (hext : Extends m m')
    (hchange : Change m m' a out) : Gone m' uid o ((a, out) :: after) := by
  cases hchange with
  | service hsame => exact h.keep hext nofun (by rw [hsame.slot _ h.lt])
  | failed hsame => exact h.keep hext nofun (by rw [hsame.slot _ h.lt])
  | notify hsame => exact h.keep hext nofun (by rw [hsame.slot _ h.lt])
  | notifyAll hsame => exact h.keep hext nofun (by rw [hsame.slot _ h.lt])
  | absent hnone hsame => exact h.keep hext nofun (by rw [hsame.slot _ h.lt])
  | @placed s o1 r1 uid1 i hfree hsvc hid hlt1 hown hold hnew hother =>
    refine h.keep hext nofun ?_
    rcases eq_or_ne uid.index uid1.index with heq | hne
    · rw [heq, hnew, (hold (heq ▸ h.lt)).2]
    · rw [hother _ h.lt hne]
  | @released o1 x hx hid hnew hother =>
    rcases eq_or_ne uid.index x with rfl | hne
    · obtain ⟨e, he, heq⟩ := h.left
      refine ⟨⟨e, mem_cons_of_mem _ he, heq⟩, ?_, Nat.lt_of_lt_of_le h.lt hext.max, h.bound, ?_⟩
      · rw [releases_cons_released]
        exact Nat.succ_pos _
      · rw [hnew, releases_cons_released, h.count, Nat.mod_add_mod, Nat.add_assoc]
    · refine h.keep hext ?_ (by rw [hother _ hne])
      rintro ⟨⟩
      exact hne rfl
  | @disabled o1 x b hx hid hnew hother =>
    refine h.keep hext nofun ?_
    rcases eq_or_ne uid.index x with rfl | hne
    · rw [hnew]
    · rw [hother _ hne]

end Since

theorem since_of_run [DecidableEq S] [DecidableEq O] (hpos : 0 < objchkcnt)
    {o : O} {b : Bool}
    (h : Run objchkcnt keepsServices (after ++ (.registerObject s o r b, .id uid) :: before) m) :
    StillLive m uid o r after ∨ Gone m uid o after := by
  induction after generalizing m with
  | nil =>
    obtain _ | ⟨hrun, -, hok, hexec⟩ := h
    obtain ⟨-, -, hchange⟩ := (Objects.of_run hpos hrun).exec hok hexec
    cases hchange with
    | placed hfree hsvc hid hlt hown hold hnew hslot =>
      refine .inl ⟨by simp, rfl, by rw [hid, Function.update_self], by rw [hnew], by rw [hnew],
        fun _ => by rw [hnew], by simp⟩
  | cons e after ih =>
    obtain _ | ⟨hrun, a, hok, hexec⟩ := h
    have hobj := Objects.of_run hpos hrun
    obtain ⟨-, hext, hchange⟩ := hobj.exec hok hexec
    rcases ih hrun with hlive | hgone
    · exact hlive.step hobj hext hchange
    · exact .inr (hgone.step hext hchange)

theorem add_mod_ne {u k n : ℕ} (hu : u < n) (hk : 0 < k) (hkn : k < n) : (u + k) % n ≠ u := by
  rcases Nat.lt_or_ge (u + k) n with hlt | hge
  · rw [Nat.mod_eq_of_lt hlt]
    omega
  · rw [Nat.mod_eq_sub_mod hge, Nat.mod_eq_of_lt (by omega)]
    omega

theorem Objects.doVisit (h : Objects m) (hlt : uid.index < m.maxobjcnt) :
    m.doVisit uid = some (if (m.slot uid.index).unique = uid.unique then
      (m.slot uid.index).target.toList else []) := by
  unfold Manager.doVisit
  rw [if_pos hlt, h.tables.chkPtr hlt]
  rfl

theorem StillLive.doVisit {o : O}
    (h : StillLive m uid o r after) (hobj : Objects m) :
    m.doVisit uid = some (match (m.slot uid.index).preactor with
      | some r => [(o, r)]
      | none => []) := by
  rw [hobj.doVisit (hobj.slots.index o _ h.objId).1, if_pos h.unique, ObjectStub.target, h.pobject]
  cases (m.slot uid.index).preactor with
  | none => rfl
  | some r' => rfl

theorem Gone.doVisit {o : O}
    (h : Gone m uid o after) (hobj : Objects m)
    (hwrap : releases uid.index after < uniqueLimit) : m.doVisit uid = some [] := by
  rw [hobj.doVisit h.lt, if_neg]
  rw [h.count]
  exact add_mod_ne h.bound h.pos hwrap

/-! ## Visits of a service -/

/-- The scan of a chunk stops only behind the last object that can be visited. -/
theorem visitFrom_eq (k : ObjectChunk O R) (n i cnt : ℕ)
    (h : ((List.range' i n).filterMap fun j => (k.object j).target).length + cnt ≤ k.objcnt) :
    k.visitFrom n i cnt = (List.range' i n).filterMap fun j => (k.object j).target := by
  induction n generalizing i cnt with
  | zero => rfl
  | succ n ih =>
    rw [range'_succ] at h ⊢
    unfold ObjectChunk.visitFrom
    by_cases hcnt : cnt < k.objcnt
    · rw [if_pos hcnt]
      cases ht : (k.object i).target with
      | none =>
        simp only [filterMap_cons, ht] at h ⊢
        exact ih (i + 1) cnt h
      | some v =>
        simp only [filterMap_cons, ht, length_cons] at h ⊢
        rw [ih (i + 1) (cnt + 1) (by omega)]
    · rw [if_neg hcnt]
      exact (eq_nil_of_length_eq_zero (by omega)).symm

def targets (m : Manager S O R) (q : ℕ) : List (O × R) :=
  (List.range m.objchkcnt).filterMap fun j => ((m.chunk q).object j).target

theorem Objects.visitFrom (h : Objects m) {q : ℕ} (hq : q < m.allocated) :
    (m.chunk q).visitFrom m.objchkcnt 0 0 = m.targets q := by
  rw [targets, range_eq_range']
  refine visitFrom_eq _ _ _ _ ?_
  rw [← range_eq_range', h.slots.count q hq, Nat.add_zero, length_filterMap_eq_countP]
  refine countP_mono_left fun j _ hj => ?_
  unfold ObjectStub.target at hj
  split at hj
  next o r ho hr => rw [ho]; rfl
  next => cases hj

theorem Objects.visitChunks (h : Objects m) {l : List ℕ} {chkidx : Option ℕ} {turns : ℕ}
    (hl : m.Linked chkidx l) (hlt : ∀ q ∈ l, q < m.allocated) (hturns : l.length ≤ turns) :
    m.visitChunks turns chkidx = some (l.flatMap m.targets) := by
  induction l generalizing chkidx turns with
  | nil =>
    obtain rfl : chkidx = none := hl
    cases turns <;> rfl
  | cons q l ih =>
    obtain ⟨rfl, hl⟩ := hl
    have hq := hlt q mem_cons_self
    obtain ⟨turns, rfl⟩ : ∃ k, turns = k + 1 :=
      Nat.exists_eq_succ_of_ne_zero (by rintro rfl; simp at hturns)
    have hrest := ih hl (fun q' hq' => hlt q' (mem_cons_of_mem q hq'))
      (Nat.le_of_succ_le_succ hturns)
    have hptr : m.objstore.cur[q]? = some q := by
      rw [h.tables.cur, getElem?_range hq]
    rw [Manager.visitChunks, hptr]
    simp [bind, hrest, h.visitFrom hq]

theorem Objects.doForEachServiceObject (h : Objects m) (hs : m.svcId s = some i) :
    m.doForEachServiceObject s = some ((m.chunksOf i).flatMap m.targets) := by
  obtain ⟨hi, -⟩ := h.services.back s i hs
  unfold Manager.doForEachServiceObject
  rw [hs]
  dsimp only
  rw [h.services.table i hi]
  refine h.visitChunks (h.links.linked i hi) (fun q hq => mem_chunksOf_lt hq) ?_
  exact Nat.le_trans (length_filter_le _ _) (by rw [length_range])

theorem target_eq_some {u : ObjectStub O R} {o : O} :
    u.target = some (o, r) ↔ u.pobject = some o ∧ u.preactor = some r := by
  unfold ObjectStub.target
  constructor
  · intro h
    split at h
    next o' r' ho hr =>
      cases h
      exact ⟨ho, hr⟩
    next => cases h
  · rintro ⟨ho, hr⟩
    rw [ho, hr]

theorem Tables.slot_eq (h : Tables m) {q j : ℕ} (hq : q < m.allocated) (hj : j < m.objchkcnt) :
    q * m.objchkcnt + j < m.maxobjcnt ∧ m.slot (q * m.objchkcnt + j) = (m.chunk q).object j ∧
      m.owner (q * m.objchkcnt + j) = (m.chunk q).svcidx := by
  have hdiv : (q * m.objchkcnt + j) / m.objchkcnt = q := by
    rw [Nat.add_comm, Nat.add_mul_div_right _ _ h.pos, Nat.div_eq_of_lt hj, Nat.zero_add]
  have hmod : (q * m.objchkcnt + j) % m.objchkcnt = j := by
    rw [Nat.mul_comm, Nat.mul_add_mod, Nat.mod_eq_of_lt hj]
  refine ⟨?_, by rw [slot, hdiv, hmod], by rw [owner, hdiv]⟩
  rw [h.max]
  calc q * m.objchkcnt + j < q * m.objchkcnt + m.objchkcnt := Nat.add_lt_add_left hj _
    _ = (q + 1) * m.objchkcnt := (Nat.succ_mul _ _).symm
    _ ≤ m.allocated * m.objchkcnt := Nat.mul_le_mul_right _ hq

theorem Objects.mem_visits (h : Objects m) {v : O × R} :
    v ∈ (m.chunksOf i).flatMap m.targets ↔
      ∃ x < m.maxobjcnt, m.owner x = some i ∧ (m.slot x).target = some v := by
  simp only [mem_flatMap, targets, mem_filterMap, mem_range]
  constructor
  · rintro ⟨q, hq, j, hj, ht⟩
    obtain ⟨hlt, hslot, hown⟩ := h.tables.slot_eq (mem_chunksOf_lt hq) hj
    refine ⟨_, hlt, ?_, by rw [hslot]; exact ht⟩
    rw [hown]
    simpa using (mem_filter.1 hq).2
  · rintro ⟨x, hx, hown, ht⟩
    refine ⟨x / m.objchkcnt, ?_, x % m.objchkcnt, Nat.mod_lt x h.tables.pos, ht⟩
    exact mem_filter.2 ⟨mem_range.2 (h.tables.div_lt hx), decide_eq_true hown⟩

theorem Objects.nodup_visits (h : Objects m) (i : ℕ) :
    (((m.chunksOf i).flatMap m.targets).map Prod.fst).Nodup := by
  let f : ℕ → Option O := fun x =>
    if x < m.maxobjcnt then (m.slot x).target.map Prod.fst else none
  have hobjects : ((m.chunksOf i).flatMap m.targets).map Prod.fst =
      ((m.chunksOf i).flatMap fun q => (List.range m.objchkcnt).map (q * m.objchkcnt + ·)).filterMap
        f := by
    rw [map_flatMap, filterMap_flatMap]
    refine flatMap_congr fun q hq => ?_
    rw [targets, map_filterMap, filterMap_map]
    refine filterMap_congr fun j hj => ?_
    obtain ⟨hlt, hslot, -⟩ := h.tables.slot_eq (mem_chunksOf_lt hq) (mem_range.1 hj)
    simp only [Function.comp_apply, f, if_pos hlt, hslot]
  rw [hobjects]
  refine List.Nodup.filterMap ?_ (nodup_flatMap.2 ⟨?_, ?_⟩)
  · -- an object is in one slot only
    have hindex : ∀ (x : ℕ) (o : O), o ∈ f x → m.objId o = some x := by
      intro x o ho
      simp only [f, mem_def] at ho
      split_ifs at ho with hx
      obtain ⟨⟨o', r⟩, ht, rfl⟩ := map_eq_some_iff.1 ho
      exact h.slots.object x hx o' (target_eq_some.1 ht).1
    intro x x' o hx hx'
    have hid := hindex x o hx
    rw [hindex x' o hx'] at hid
    exact (Option.some.inj hid).symm
  · intro q _
    exact nodup_range.map fun j j' hj => Nat.add_left_cancel hj
  · refine (nodup_range.filter _).imp_of_mem ?_
    intro q q' hq hq' hne x hx hx'
    obtain ⟨j, hj, rfl⟩ := mem_map.1 hx
    obtain ⟨j', hj', heq⟩ := mem_map.1 hx'
    have hdiv := congrArg (· / m.objchkcnt) heq
    simp only [Nat.mul_comm _ m.objchkcnt, Nat.mul_add_div h.tables.pos,
      Nat.div_eq_of_lt (mem_range.1 hj), Nat.div_eq_of_lt (mem_range.1 hj'),
      Nat.add_zero] at hdiv
    exact hne hdiv.symm

/-! ## Identity -/

section Identity
variable [DecidableEq S] [DecidableEq O] {objchkcnt : ℕ} {tr : List (Action S O R × Outcome O R)}

theorem isSome_registry (hpos : 0 < objchkcnt) (h : Run objchkcnt keepsServices tr m) (o : O) :
    (Registry.ofCalls tr o).isSome = (m.objId o).isSome := by
  have hlive := Holds.of_run hpos h o
  rcases hr : Registry.ofCalls tr o with _ | ⟨s, v⟩
  · rw [hr] at hlive
    rw [show m.objId o = none from hlive]
    rfl
  · rw [hr] at hlive
    obtain ⟨x, i, hx, -⟩ := hlive
    rw [hx]
    rfl

theorem notify_of_run (hpos : 0 < objchkcnt)
    {o : O} {b : Bool}
    (h : Run objchkcnt keepsServices (after ++ (.registerObject s o r b, .id uid) :: before) m)
    (hwrap : releases uid.index after < uniqueLimit) :
    ((∀ e ∈ after, e.1 ≠ .unregisterObject o ∧ e.1 ≠ .disableObjectVisits o) →
      m.exec (.notify uid) = some (m, .visited [(o, r)])) ∧
    ((∃ e ∈ after, e.1 = .unregisterObject o ∨ e.1 = .disableObjectVisits o) →
      m.exec (.notify uid) = some (m, .visited [])) := by
  have hobj := Objects.of_run hpos h
  rcases since_of_run hpos h with hlive | hgone
  · constructor
    · intro hall
      simp [Manager.exec, hlive.doVisit hobj, hlive.on fun e he => (hall e he).2]
    · rintro ⟨e, he, heq | heq⟩
      · exact absurd heq (hlive.kept e he)
      · simp [Manager.exec, hlive.doVisit hobj, hlive.off ⟨e, he, heq⟩]
  · constructor
    · intro hall
      obtain ⟨e, he, heq⟩ := hgone.left
      exact absurd heq (hall e he).1
    · rintro -
      simp [Manager.exec, hgone.doVisit hobj hwrap]

omit [DecidableEq S] [DecidableEq O] in
theorem Objects.registry_iff (hobj : Objects m) {reg : Registry S O R}
    (hholds : ∀ o : O, m.Holds o (reg o)) (hs : m.svcId s = some i) {o : O} :
    (∃ x < m.maxobjcnt, m.owner x = some i ∧ (m.slot x).target = some (o, r)) ↔
      reg o = some (s, some r) := by
  have hlive := hholds o
  constructor
  · rintro ⟨x, hx, hown, ht⟩
    obtain ⟨hpo, hpr⟩ := target_eq_some.1 ht
    have hid := hobj.slots.object x hx o hpo
    rcases hr : reg o with _ | ⟨s', v⟩
    · rw [hr] at hlive
      rw [show m.objId o = none from hlive] at hid
      cases hid
    · rw [hr] at hlive
      obtain ⟨x', i', hx', hs', hown', hv⟩ := hlive
      rw [hid] at hx'
      cases hx'
      rw [hown] at hown'
      cases hown'
      have hback := (hobj.services.back s' i hs').2
      rw [(hobj.services.back s i hs).2] at hback
      cases hback
      rw [← hv, hpr]
  · intro hr
    rw [hr] at hlive
    obtain ⟨x, i', hx, hs', hown, hv⟩ := hlive
    rw [hs] at hs'
    cases hs'
    obtain ⟨hlt, hpo⟩ := hobj.slots.index o x hx
    exact ⟨x, hlt, hown, target_eq_some.2 ⟨hpo, hv⟩⟩

theorem notifyAll_of_run (hpos : 0 < objchkcnt) (h : Run objchkcnt keepsServices tr m) (s : S) :
    ∃ os : List (O × R), m.exec (.notifyAll s) = some (m, .visited os) ∧ (os.map Prod.fst).Nodup ∧
      ∀ (o : O) (r : R), (o, r) ∈ os ↔ Registry.ofCalls tr o = some (s, some r) := by
  have hobj := Objects.of_run hpos h
  have hholds := Holds.of_run hpos h
  cases hs : m.svcId s with
  | none =>
    refine ⟨[], by simp [Manager.exec, doForEachServiceObject, hs], nodup_nil, ?_⟩
    intro o r
    constructor
    · intro hmem
      exact absurd hmem not_mem_nil
    · intro hr
      have hlive := hholds o
      rw [hr] at hlive
      obtain ⟨x, i, -, hs', -⟩ := hlive
      rw [hs] at hs'
      cases hs'
  | some i =>
    refine ⟨_, by rw [Manager.exec, hobj.doForEachServiceObject hs, map_some],
      hobj.nodup_visits i, ?_⟩
    intro o r
    rw [hobj.mem_visits, hobj.registry_iff hholds hs]

/-- **Object identity.**  In every run without unregistered services: live objects have
    different indices; a `notify` with an id visits the object it was issued for if since
    then it was neither unregistered nor its visits disabled, else nothing, until the counter
    of the slot wraps; a `notifyAll` visits each live object of the service with visits
    enabled once, and no other. -/
theorem object_identity (hpos : 0 < objchkcnt) (h : Run objchkcnt keepsServices tr m) :
    (∀ o : O, (Registry.ofCalls tr o).isSome = (m.objId o).isSome) ∧
      (∀ (o o' : O) (x : ℕ), m.objId o = some x → m.objId o' = some x → o = o') ∧
      (∀ (after before : List (Action S O R × Outcome O R)) (s : S) (o : O) (r : R) (b : Bool)
        (uid : UniqueId), tr = after ++ (.registerObject s o r b, .id uid) :: before →
        releases uid.index after < uniqueLimit →
        ((∀ e ∈ after, e.1 ≠ .unregisterObject o ∧ e.1 ≠ .disableObjectVisits o) →
          m.exec (.notify uid) = some (m, .visited [(o, r)])) ∧
        ((∃ e ∈ after, e.1 = .unregisterObject o ∨ e.1 = .disableObjectVisits o) →
          m.exec (.notify uid) = some (m, .visited []))) ∧
      ∀ s : S, ∃ os : List (O × R), m.exec (.notifyAll s) = some (m, .visited os) ∧
        (os.map Prod.fst).Nodup ∧
        ∀ (o : O) (r : R), (o, r) ∈ os ↔ Registry.ofCalls tr o = some (s, some r) := by
  refine ⟨isSome_registry hpos h, fun o o' x => (Objects.of_run hpos h).slots.index_inj, ?_,
    notifyAll_of_run hpos h⟩
  rintro after before s o r b uid rfl hwrap
  exact notify_of_run hpos h hwrap

end Identity

/-- Two services with three objects: an object leaves and another one takes its slot, and the
    visits of a third one are disabled.  The last call is the first of the list. -/
def reusedCalls : List (Action ℕ ℕ ℕ × Outcome ℕ ℕ) :=
  [(.disableObjectVisits 6, .disabled true), (.registerObject 0 8 7 true, .id ⟨0, 1⟩),
    (.unregisterObject 5, .released 0), (.registerObject 1 6 9 true, .id ⟨2, 0⟩),
    (.registerObject 0 4 7 true, .id ⟨1, 0⟩), (.registerObject 0 5 7 true, .id ⟨0, 0⟩),
    (.registerObject 0 5 7 false, .failed .objectSchedule),
    (.registerService 1 1, .registered true), (.registerService 0 1, .registered true)]

theorem exists_reusedRun : ∃ m : Manager ℕ ℕ ℕ, Run 2 keepsServices reusedCalls m := by
  have hstart : Run 2 keepsServices [] (.new 2 : Manager ℕ ℕ ℕ) := .start
  have hservices := (hstart.step (.registerService 0 1) trivial rfl).step (.registerService 1 1)
    trivial rfl
  have hfirst := (hservices.step (.registerObject 0 5 7 false) trivial rfl).step
    (.registerObject 0 5 7 true) trivial rfl
  have hothers := (hfirst.step (.registerObject 0 4 7 true) trivial rfl).step
    (.registerObject 1 6 9 true) trivial rfl
  have hreused := (hothers.step (.unregisterObject 5) trivial rfl).step
    (.registerObject 0 8 7 true) trivial rfl
  exact ⟨_, hreused.step (.disableObjectVisits 6) trivial rfl⟩

theorem object_identity_reused : ∃ m : Manager ℕ ℕ ℕ, Run 2 keepsServices reusedCalls m ∧
      m.exec (.notify ⟨0, 0⟩) = some (m, .visited []) ∧
      m.exec (.notify ⟨0, 1⟩) = some (m, .visited [(8, 7)]) ∧
      m.exec (.notify ⟨2, 0⟩) = some (m, .visited []) ∧
      ∃ os, m.exec (.notifyAll 0) = some (m, .visited os) ∧ (os.map Prod.fst).Nodup ∧
        (4, 7) ∈ os ∧ (8, 7) ∈ os ∧ ∀ r, (5, r) ∉ os := by
  obtain ⟨m, hrun⟩ := exists_reusedRun
  obtain ⟨-, -, hnotify, hall⟩ := object_identity Nat.two_pos hrun
  refine ⟨m, hrun, ?_, ?_, ?_, ?_⟩
  · refine (hnotify (reusedCalls.take 5) _ 0 5 7 true ⟨0, 0⟩ rfl ?_).2
      ⟨(.unregisterObject 5, .released 0), by simp [reusedCalls], .inl rfl⟩
    simp [reusedCalls, releases, uniqueLimit]
  · refine (hnotify (reusedCalls.take 1) _ 0 8 7 true ⟨0, 1⟩ rfl ?_).1 (by simp [reusedCalls])
    simp [reusedCalls, releases, uniqueLimit]
  · refine (hnotify (reusedCalls.take 3) _ 1 6 9 true ⟨2, 0⟩ rfl ?_).2
      ⟨(.disableObjectVisits 6, .disabled true), by simp [reusedCalls], .inr rfl⟩
    simp [reusedCalls, releases, uniqueLimit]
  · obtain ⟨os, hos, hnodup, hmem⟩ := hall 0
    exact ⟨os, hos, hnodup, (hmem 4 7).2 rfl, (hmem 8 7).2 rfl,
      fun r hr => by cases (hmem 5 r).1 hr⟩

end Manager

end SolidFrame.Frame
