/-
  Vectors without order — removal by moving the last element, and the table of positions.

  A vector without order drops the element at a position by putting the last
  element there and forgetting the last position.  `swapRemove` is this on lists;
  `getElem?_swapRemove` says where every element is afterwards.
-/
import Mathlib.Data.List.Basic
import Mathlib.Logic.Function.Basic

namespace SolidFrame

open Function List Option

variable {α : Type*}

/-- `v[i] = v.back(); v.pop_back();` -/
def swapRemove (l : List α) (i : ℕ) : List α :=
  match l.getLast? with
  | some b => (l.set i b).dropLast
  | none => []

theorem length_swapRemove (l : List α) (i : ℕ) : (swapRemove l i).length = l.length - 1 := by
  unfold swapRemove
  cases h : l.getLast? with
  | none => simp [getLast?_eq_none_iff.1 h]
  | some b => simp

theorem getElem?_swapRemove (l : List α) (i j : ℕ) : (swapRemove l i)[j]? =
      if j + 1 < l.length then (if j = i then l.getLast? else l[j]?) else none := by
  unfold swapRemove
  cases h : l.getLast? with
  | none => simp [getLast?_eq_none_iff.1 h]
  | some b =>
    simp only [getElem?_dropLast, length_set, getElem?_set]
    split_ifs with h1 h2 h3 h4 <;> first | rfl | omega

variable {i : ℕ} {l : List α}

theorem getElem?_swapRemove_of_lt {j : ℕ} (hj : j < i) (hi : i < l.length) :
    (swapRemove l i)[j]? = l[j]? := by
  rw [getElem?_swapRemove, if_pos (by omega), if_neg (by omega)]

theorem map_swapRemove {β : Type*} (f : α → β) (l : List α) (i : ℕ) :
    (swapRemove l i).map f = swapRemove (l.map f) i := by
  unfold swapRemove
  rw [getLast?_map]
  cases h : l.getLast? with
  | none => rfl
  | some b => simp [map_dropLast, map_set]

theorem cons_swapRemove_perm {a : α} (ha : l[i]? = some a) :
    (a :: swapRemove l i).Perm l := by
  rcases List.eq_nil_or_concat l with rfl | ⟨l, b, rfl⟩
  · simp at ha
  · rw [List.concat_eq_append] at ha ⊢
    obtain ⟨hi, rfl⟩ := List.getElem?_eq_some_iff.1 ha
    rw [List.length_append, List.length_singleton] at hi
    simp only [swapRemove, List.getLast?_concat]
    rcases Nat.lt_succ_iff_lt_or_eq.1 hi with hlt | rfl
    · rw [List.set_append_left _ _ hlt, List.dropLast_concat, List.getElem_append_left hlt,
        List.set_eq_take_cons_drop _ hlt]
      calc (l[i] :: (l.take i ++ b :: l.drop (i + 1))).Perm
              (b :: (l.take i ++ l[i] :: l.drop (i + 1))) := by
            refine (List.perm_middle.cons _).trans ((List.Perm.swap _ _ _).trans ?_)
            exact (List.perm_middle.symm).cons _
        _ = b :: l := by rw [← List.drop_eq_getElem_cons hlt, List.take_append_drop]
        _ |>.Perm (l ++ [b]) := (List.perm_append_singleton b l).symm
    · simpa using (List.perm_append_singleton b l).symm

theorem countP_swapRemove {p : α → Bool} {a : α} (ha : l[i]? = some a) :
    (swapRemove l i).countP p + (if p a then 1 else 0) = l.countP p := by
  rw [← (cons_swapRemove_perm ha).countP_eq, countP_cons]

theorem countP_swapRemove_le (p : α → Bool) (l : List α) (i : ℕ) :
    (swapRemove l i).countP p ≤ l.countP p := by
  cases ha : l[i]? with
  | some a =>
    rw [← countP_swapRemove ha]
    exact Nat.le_add_right _ _
  | none =>
    have hi := getElem?_eq_none_iff.1 ha
    unfold swapRemove
    split
    · rw [set_eq_of_length_le hi]
      exact (dropLast_sublist l).countP_le
    · exact Nat.zero_le _

/-! ## The table of positions -/

/-- The elements of `l` are different, and `pos` has their positions. -/
def Indexes (pos : α → Option ℕ) (l : List α) : Prop := ∀ v k, pos v = some k ↔ l[k]? = some v

namespace Indexes

variable {pos : α → Option ℕ} {l : List α}

theorem inj (h : Indexes pos l) {v : α} {k k' : ℕ} (hk : l[k]? = some v)
    (hk' : l[k']? = some v) : k = k' :=
  some.inj (((h v k).2 hk).symm.trans ((h v k').2 hk'))

variable [DecidableEq α]

theorem append (h : Indexes pos l) {v : α} (hv : pos v = none) :
    Indexes (update pos v (some l.length)) (l ++ [v]) := by
  have hnot : ∀ k : ℕ, l[k]? ≠ some v := by
    intro k hk
    rw [(h v k).2 hk] at hv
    cases hv
  intro u k
  rw [getElem?_append]
  rcases eq_or_ne u v with rfl | huv
  · rw [update_self, some.injEq]
    split_ifs with hk
    · constructor
      · intro heq
        omega
      · intro heq
        exact absurd heq (hnot k)
    · rw [getElem?_singleton]
      split_ifs with h0
      · simp only [iff_true]
        omega
      · simp only [iff_false]
        omega
  · rw [update_of_ne huv, h u k]
    split_ifs with hk
    · rfl
    · rw [getElem?_eq_none (by omega), getElem?_singleton]
      split_ifs <;> simp [Ne.symm huv]

theorem swapRemove (h : Indexes pos l) {v w : α} (hv : l[i]? = some v)
    (hw : l.getLast? = some w) :
    Indexes (update (update pos w (some i)) v none) (swapRemove l i) := by
  have hi : i < l.length := (List.getElem?_eq_some_iff.1 hv).1
  have hw' : l[l.length - 1]? = some w := by rw [← List.getLast?_eq_getElem?, hw]
  intro u k
  rw [getElem?_swapRemove]
  rcases eq_or_ne u v with rfl | huv
  · rw [update_self]
    refine ⟨nofun, fun hk => ?_⟩
    split_ifs at hk with h1 h2
    · rw [List.getLast?_eq_getElem?] at hk
      have heq := h.inj hk hv
      omega
    · exact absurd (h.inj hk hv) h2
  rw [update_of_ne huv]
  rcases eq_or_ne u w with rfl | huw
  · -- the element that moves
    have hlast : i ≠ l.length - 1 := by
      rintro rfl
      exact huv (some.inj (hw'.symm.trans hv))
    rw [update_self, some.injEq]
    constructor
    · rintro rfl
      rw [if_pos (by omega), if_pos rfl, hw]
    · intro hk
      split_ifs at hk with h1 h2
      · exact h2.symm
      · have heq := h.inj hk hw'
        omega
  · rw [update_of_ne huw, h u k]
    constructor
    · intro hk
      have hkl := (List.getElem?_eq_some_iff.1 hk).1
      have hki : k ≠ i := by
        rintro rfl
        exact huv (some.inj (hk.symm.trans hv))
      have hkn : k ≠ l.length - 1 := by
        rintro rfl
        exact huw (some.inj (hk.symm.trans hw'))
      rw [if_pos (by omega), if_neg hki]
      exact hk
    · intro hk
      split_ifs at hk with h1 h2
      · exact absurd (some.inj (hk.symm.trans hw)) huw
      · exact hk

end Indexes

end SolidFrame
