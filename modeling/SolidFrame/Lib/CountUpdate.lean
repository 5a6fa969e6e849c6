/-
  Counting — how many of the first `n` values of a table have a property, when the
  table changes in one place.
-/
import Mathlib.Data.Nat.Count
import Mathlib.Logic.Function.Basic

namespace SolidFrame

open Function Nat

variable {α : Type*} {p : α → Prop} [DecidablePred p] {f : ℕ → α} {c n : ℕ}

theorem count_update_of_le (h : n ≤ c) (x : α) :
    Nat.count (fun i => p (update f c x i)) n = Nat.count (fun i => p (f i)) n := by
  induction n with
  | zero => rfl
  | succ n ih =>
    rw [count_succ, count_succ, ih (le_of_succ_le h), update_of_ne (ne_of_lt h)]

theorem count_update (h : c < n) (x : α) :
    Nat.count (fun i => p (update f c x i)) n + (if p (f c) then 1 else 0) =
      Nat.count (fun i => p (f i)) n + if p x then 1 else 0 := by
  induction n with
  | zero => cases h
  | succ n ih =>
    rw [count_succ, count_succ]
    rcases Nat.lt_succ_iff_lt_or_eq.1 h with hlt | rfl
    · rw [update_of_ne (ne_of_gt hlt)]
      have := ih hlt
      omega
    · rw [update_self, count_update_of_le (le_refl c)]
      omega

theorem count_push (x : α) : Nat.count (fun i => p (update f n x i)) (n + 1) =
      Nat.count (fun i => p (f i)) n + if p x then 1 else 0 := by
  rw [count_succ, update_self, count_update_of_le (le_refl n)]

theorem count_pos (h : c < n) (hc : p (f c)) : 0 < Nat.count (fun i => p (f i)) n := by
  rw [count_eq_card_filter_range]
  exact Finset.card_pos.2 ⟨c, Finset.mem_filter.2 ⟨Finset.mem_range.2 h, hc⟩⟩

theorem count_eq_zero : Nat.count (fun i => p (f i)) n = 0 ↔ ∀ c < n, ¬ p (f c) := by
  constructor
  · intro h c hc hp
    exact lt_irrefl 0 (h ▸ count_pos hc hp)
  · intro h
    induction n with
    | zero => rfl
    | succ n ih =>
      rw [count_succ, ih fun c hc => h c (lt_succ_of_lt hc), if_neg (h n (lt_succ_self n))]

end SolidFrame
