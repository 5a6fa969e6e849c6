/-
  SolidFrame formalization — the memory a deserializer loads into.

  The functions of a deserializer hold addresses: of an object the user pushed,
  of the element that a container is loading, or of a part of one of these.  A
  `Loc` is such an address, a `Mem` the objects it can lead to.
-/
import SolidFrame.Serialization.Item

namespace SolidFrame

open List Option

open Obj

/-- Where an address starts: an object of the user, or the element of the
    container that is the `i`-th on the stack from below. -/
inductive Root where
  | user (i : ℕ)
  | temp (i : ℕ)
  deriving DecidableEq

structure Loc where
  root : Root
  path : List ℕ
  deriving DecidableEq

def Loc.sub (l : Loc) (i : ℕ) : Loc := { l with path := l.path ++ [i] }

/-- The part of an object at a path. -/
def Obj.get : List ℕ → Obj → Option Obj
  | [], o => some o
  | i :: p, .pair a b => get p (if i = 0 then a else b)
  | i :: p, .arr os _ => os[i]?.bind (get p)
  | _ :: p, .ptr (some (_, _, o)) => get p o
  | _ :: _, _ => none

/-- Change the part of an object at a path. -/
def Obj.upd : List ℕ → (Obj → Obj) → Obj → Obj
  | [], f, o => f o
  | i :: p, f, .pair a b => if i = 0 then .pair (upd p f a) b else .pair a (upd p f b)
  | i :: p, f, .arr os n => .arr (os.modify i (upd p f)) n
  | _ :: p, f, .ptr (some (id, t, o)) => .ptr (some (id, t, upd p f o))
  | _ :: _, _, o => o

/-- The objects of the user, and the elements that containers are loading. -/
structure Mem where
  user : List Obj
  temps : List Obj

namespace Mem

def get (m : Mem) (l : Loc) : Option Obj :=
  match l.root with
  | .user i => m.user[i]?.bind (Obj.get l.path)
  | .temp i => m.temps[i]?.bind (Obj.get l.path)

def upd (m : Mem) (l : Loc) (f : Obj → Obj) : Mem :=
  match l.root with
  | .user i => { m with user := m.user.modify i (Obj.upd l.path f) }
  | .temp i => { m with temps := m.temps.modify i (Obj.upd l.path f) }

def set (m : Mem) (l : Loc) (v : Obj) : Mem := m.upd l fun _ => v

/-- A new element for a container to load. -/
def pushTemp (m : Mem) (o : Obj) : Mem := { m with temps := m.temps ++ [o] }

def popTemp (m : Mem) : Mem := { m with temps := m.temps.dropLast }

def topTemp (m : Mem) : Loc := ⟨.temp (m.temps.length - 1), []⟩

end Mem

/-! ## Parts of objects -/

theorem Obj.get_append (p q : List ℕ) (o : Obj) : get (p ++ q) o = (get p o).bind (get q) := by
  induction p generalizing o with
  | nil => rfl
  | cons i p ih =>
    cases o with
    | pair a b => exact ih _
    | arr os n =>
      simp only [cons_append, get]
      cases os[i]? with
      | none => rfl
      | some o => exact ih o
    | ptr o =>
      cases o with
      | none => rfl
      | some o => exact ih o.2.2
    | _ => rfl

theorem Obj.upd_append (p q : List ℕ) (f : Obj → Obj) (o : Obj) :
    upd (p ++ q) f o = upd p (upd q f) o := by
  induction p generalizing o with
  | nil => rfl
  | cons i p ih =>
    have hfun : upd (p ++ q) f = upd p (upd q f) := funext ih
    cases o with
    | pair a b => simp only [cons_append, upd, hfun]
    | arr os n => simp only [cons_append, upd, hfun]
    | ptr o =>
      cases o with
      | none => rfl
      | some o => simp only [cons_append, upd, hfun]
    | _ => rfl

theorem Obj.upd_upd (p : List ℕ) (f g : Obj → Obj) (o : Obj) :
    upd p g (upd p f o) = upd p (g ∘ f) o := by
  induction p generalizing o with
  | nil => rfl
  | cons i p ih =>
    have hfun : upd p g ∘ upd p f = upd p (g ∘ f) := funext ih
    cases o with
    | pair a b =>
      by_cases hi : i = 0
      · simp [upd, hi, ih]
      · simp [upd, hi, ih]
    | arr os n => simp only [upd, modify_modify_eq, hfun]
    | ptr o =>
      cases o with
      | none => rfl
      | some o => simp only [upd, ih]
    | _ => rfl

theorem Obj.get_upd (p : List ℕ) (f : Obj → Obj) (o : Obj) :
    get p (upd p f o) = (get p o).map f := by
  induction p generalizing o with
  | nil => rfl
  | cons i p ih =>
    cases o with
    | pair a b =>
      by_cases hi : i = 0
      · simp [upd, get, hi, ih]
      · simp [upd, get, hi, ih]
    | arr os n =>
      simp only [upd, get, getElem?_modify_eq]
      cases os[i]? with
      | none => rfl
      | some o => exact ih o
    | ptr o =>
      cases o with
      | none => rfl
      | some o => simp only [upd, get, ih]
    | _ => rfl

theorem Obj.upd_id (p : List ℕ) (o : Obj) : upd p id o = o := by
  induction p generalizing o with
  | nil => rfl
  | cons i p ih =>
    have hfun : upd p id = id := funext ih
    cases o with
    | pair a b => by_cases hi : i = 0 <;> simp only [upd, hi, if_true, if_false, ih]
    | arr os n => simp only [upd, hfun, modify_id]
    | ptr o =>
      cases o with
      | none => rfl
      | some o => simp only [upd, ih]
    | _ => rfl

theorem Obj.upd_congr {p : List ℕ} {f g : Obj → Obj} {o v : Obj} (h : get p o = some v)
    (hfg : f v = g v) : upd p f o = upd p g o := by
  induction p generalizing o with
  | nil =>
    obtain rfl : o = v := Option.some.inj h
    exact hfg
  | cons i p ih =>
    cases o with
    | pair a b =>
      by_cases hi : i = 0
      · simp only [get, hi, if_true] at h
        simp [upd, hi, ih h]
      · simp only [get, hi, if_false] at h
        simp [upd, hi, ih h]
    | arr os n =>
      simp only [get, Option.bind_eq_some_iff] at h
      obtain ⟨o, ho, hv⟩ := h
      simp only [upd]
      congr 1
      apply List.ext_getElem?
      intro j
      by_cases hj : i = j
      · subst hj
        simp [List.getElem?_modify_eq, ho, Option.map_eq_map, ih hv]
      · simp only [List.getElem?_modify, if_neg hj]
    | ptr o =>
      cases o with
      | none => cases h
      | some o => simp only [upd, ih h]
    | _ => cases h

/-! ## Memory -/

namespace Mem
variable {m : Mem} {l : Loc} {o v w : Obj} {f g : Obj → Obj}

theorem get_sub (m : Mem) (l : Loc) (i : ℕ) : m.get (l.sub i) = (m.get l).bind (Obj.get [i]) := by
  cases hr : l.root <;>
    simp only [get, Loc.sub, hr, bind_assoc, ← Obj.get_append]

theorem upd_sub (m : Mem) (l : Loc) (i : ℕ) (f : Obj → Obj) :
    m.upd (l.sub i) f = m.upd l (Obj.upd [i] f) := by
  have hfun : Obj.upd (l.path ++ [i]) f = Obj.upd l.path (Obj.upd [i] f) :=
    funext (Obj.upd_append _ _ _)
  cases hr : l.root <;> simp only [upd, Loc.sub, hr, hfun]

theorem upd_upd (m : Mem) (l : Loc) (f g : Obj → Obj) : (m.upd l f).upd l g = m.upd l (g ∘ f) := by
  have hfun : Obj.upd l.path g ∘ Obj.upd l.path f = Obj.upd l.path (g ∘ f) :=
    funext (Obj.upd_upd _ _ _)
  cases hr : l.root <;> simp only [upd, hr, modify_modify_eq, hfun]

theorem get_upd (m : Mem) (l : Loc) (f : Obj → Obj) : (m.upd l f).get l = (m.get l).map f := by
  cases hr : l.root with
  | user i =>
    simp only [get, upd, hr, List.getElem?_modify_eq, Option.map_eq_map]
    cases m.user[i]? with
    | none => rfl
    | some o => exact Obj.get_upd _ _ _
  | temp i =>
    simp only [get, upd, hr, List.getElem?_modify_eq, Option.map_eq_map]
    cases m.temps[i]? with
    | none => rfl
    | some o => exact Obj.get_upd _ _ _

@[simp] theorem upd_id (m : Mem) (l : Loc) : m.upd l id = m := by
  have hfun : Obj.upd l.path id = id := funext (Obj.upd_id _)
  cases hr : l.root <;> simp only [upd, hr, hfun, modify_id]

theorem upd_eq_set (h : m.get l = some v) : m.upd l f = m.set l (f v) := by
  have hmod : ∀ (os : List Obj) (i : ℕ), os[i]?.bind (Obj.get l.path) = some v →
      os.modify i (Obj.upd l.path f) = os.modify i (Obj.upd l.path fun _ => f v) := by
    intro os i hos
    obtain ⟨o, ho, hv⟩ := Option.bind_eq_some_iff.1 hos
    apply List.ext_getElem?
    intro j
    by_cases hj : i = j
    · subst hj
      simp only [List.getElem?_modify_eq, ho, Option.map_eq_map, Option.map_some]
      exact congrArg some (Obj.upd_congr hv rfl)
    · simp only [List.getElem?_modify, if_neg hj]
  cases hr : l.root with
  | user i =>
    simp only [get, hr] at h
    simp only [set, upd, hr, hmod _ _ h]
  | temp i =>
    simp only [get, hr] at h
    simp only [set, upd, hr, hmod _ _ h]

theorem get_set (h : m.get l = some o) : (m.set l v).get l = some v := by
  rw [set, get_upd, h]; rfl

@[simp] theorem set_set (m : Mem) (l : Loc) (v w : Obj) : (m.set l v).set l w = m.set l w :=
  upd_upd m l _ _

theorem upd_set (m : Mem) (l : Loc) (v : Obj) (f : Obj → Obj) :
    (m.set l v).upd l f = m.set l (f v) :=
  upd_upd m l _ _

/-! ## The element of a container -/

@[simp] theorem popTemp_pushTemp (m : Mem) (v : Obj) : (m.pushTemp v).popTemp = m := by
  simp [popTemp, pushTemp]

theorem topTemp_pushTemp (m : Mem) (v : Obj) :
    (m.pushTemp v).topTemp = ⟨.temp m.temps.length, []⟩ := by
  simp [topTemp, pushTemp]

theorem get_topTemp (m : Mem) (v : Obj) :
    (m.pushTemp v).get ⟨.temp m.temps.length, []⟩ = some v := by
  simp [get, pushTemp, Obj.get]

theorem upd_topTemp (m : Mem) (v : Obj) (f : Obj → Obj) :
    (m.pushTemp v).upd ⟨.temp m.temps.length, []⟩ f = m.pushTemp (f v) := by
  have hmod : (m.temps ++ [v]).modify m.temps.length (Obj.upd [] f) = m.temps ++ [f v] := by
    rw [modify_eq_set_getElem?]
    simp [Obj.upd]
  simp only [upd, pushTemp, hmod]

theorem lt_of_get_temp {i : ℕ} {p : List ℕ} (h : m.get ⟨.temp i, p⟩ = some o) :
    i < m.temps.length := by
  by_contra hi
  simp [get, List.getElem?_eq_none (Nat.le_of_not_lt hi)] at h

theorem upd_pushTemp (h : m.get l = some o) (v : Obj) (f : Obj → Obj) :
    (m.pushTemp v).upd l f = (m.upd l f).pushTemp v := by
  obtain ⟨root, path⟩ := l
  cases root with
  | user i => rfl
  | temp i =>
    have hi := lt_of_get_temp h
    have hmod : (m.temps ++ [v]).modify i (Obj.upd path f) =
        m.temps.modify i (Obj.upd path f) ++ [v] := by
      apply ext_getElem?
      intro j
      rw [getElem?_modify, getElem?_append, getElem?_append, length_modify]
      by_cases hj : j < m.temps.length
      · simp only [if_pos hj, getElem?_modify]
      · simp only [if_neg hj, if_neg (show i ≠ j by omega), id_map']
    simp only [upd, pushTemp, hmod]

theorem temps_length_upd (m : Mem) (l : Loc) (f : Obj → Obj) :
    (m.upd l f).temps.length = m.temps.length := by
  cases hr : l.root <;> simp [upd, hr]

end Mem

end SolidFrame
