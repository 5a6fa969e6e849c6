/-
  Buffers as lists — writing into a buffer, and resizing it.
-/
import Mathlib.Data.List.Basic

namespace SolidFrame

open List

/-- Replace the elements from `off` on. -/
def overwrite {α : Type} (xs : List α) (off : ℕ) (d : List α) : List α :=
  xs.take off ++ d ++ xs.drop (off + d.length)

/-- The first `n` elements; missing ones are `x`. -/
def resize {α : Type} (xs : List α) (n : ℕ) (x : α) : List α :=
  xs.take n ++ List.replicate (n - xs.length) x

theorem overwrite_append {α : Type} (xs : List α) (off : ℕ) (p q : List α) :
    overwrite (overwrite xs off p) (off + p.length) q = overwrite xs off (p ++ q) := by
  by_cases hoff : off ≤ xs.length
  · have hlen : (xs.take off ++ p).length = off + p.length := by
      rw [length_append, length_take, Nat.min_eq_left hoff]
    have hdrop : (xs.take off ++ p ++ xs.drop (off + p.length)).drop (off + p.length + q.length) =
        xs.drop (off + p.length + q.length) := by
      rw [← drop_drop, drop_left' hlen, drop_drop]
    simp only [overwrite]
    rw [take_left' hlen, hdrop, length_append, Nat.add_assoc, append_assoc _ p q]
  · have htake : xs.take off = xs := take_of_length_le (by omega)
    have hdrop : ∀ k, xs.drop (off + k) = [] := fun k => drop_eq_nil_of_le (by omega)
    have hlen : (xs ++ p).length ≤ off + p.length := by rw [length_append]; omega
    simp [overwrite, htake, hdrop, take_of_length_le hlen,
      drop_eq_nil_of_le (Nat.le_trans hlen (Nat.le_add_right _ q.length)), append_assoc]

theorem overwrite_nil {α : Type} (xs : List α) (off : ℕ) : overwrite xs off [] = xs := by
  simp [overwrite]

theorem overwrite_length {α : Type} {xs : List α} {off : ℕ} {p : List α}
    (h : off + p.length ≤ xs.length) : (overwrite xs off p).length = xs.length := by
  simp only [overwrite, length_append, length_take, length_drop]
  omega

theorem overwrite_take {α : Type} (xs : List α) {off : ℕ} (p : List α) (h : off ≤ xs.length) :
    (overwrite xs off p).take (off + p.length) = xs.take off ++ p := by
  rw [overwrite, take_left']
  rw [length_append, length_take, Nat.min_eq_left h]

theorem overwrite_all {α : Type} {xs ys : List α} (h : xs.length = ys.length) :
    overwrite xs 0 ys = ys := by
  rw [overwrite, take_zero, nil_append, Nat.zero_add,
    drop_eq_nil_of_le (Nat.le_of_eq h), append_nil]

theorem resize_length {α : Type} (xs : List α) (n : ℕ) (x : α) : (resize xs n x).length = n := by
  simp only [resize, length_append, length_take, length_replicate]
  omega

/-! ## Files -/

section File
variable {α : Type} [Inhabited α]

/-- Write `d` at `off`; a gap behind the end is filled with `default`.  Writing
    nothing changes nothing. -/
def writeAt (xs : List α) (off : ℕ) (d : List α) : List α :=
  if d = [] then xs else overwrite (xs ++ List.replicate (off - xs.length) default) off d

@[simp] theorem writeAt_nil (xs : List α) (off : ℕ) : writeAt xs off [] = xs := if_pos rfl

theorem writeAt_append (xs : List α) (off : ℕ) (p q : List α) :
    writeAt (writeAt xs off p) (off + p.length) q = writeAt xs off (p ++ q) := by
  rcases eq_or_ne p [] with rfl | hp
  · simp
  rcases eq_or_ne q [] with rfl | hq
  · simp
  have hpq : p ++ q ≠ [] := by simp [hp]
  have hlen : off + p.length ≤
      (overwrite (xs ++ List.replicate (off - xs.length) default) off p).length := by
    simp only [overwrite, length_append, length_take, length_replicate]
    omega
  rw [writeAt, if_neg hq, writeAt, if_neg hp, writeAt, if_neg hpq, Nat.sub_eq_zero_of_le hlen,
    replicate_zero, append_nil, overwrite_append]

theorem le_length_writeAt (xs : List α) (off : ℕ) {d : List α} (hd : d ≠ []) :
    off + d.length ≤ (writeAt xs off d).length := by
  rw [writeAt, if_neg hd]
  simp only [overwrite, length_append, length_take, length_replicate]
  omega

end File

/-! ## Windows -/

section Window
variable {α : Type} {xs : List α} {lo hi : ℕ}

def window (xs : List α) (lo hi : ℕ) : List α := (xs.take hi).drop lo

theorem window_length (h : hi ≤ xs.length) : (window xs lo hi).length = hi - lo := by
  rw [window, length_drop, length_take, Nat.min_eq_left h]

@[simp] theorem window_self (xs : List α) (lo : ℕ) : window xs lo lo = [] :=
  drop_eq_nil_of_le (length_take_le _ _)

theorem window_take_append (xs : List α) (lo hi n : ℕ) :
    (window xs lo hi).take n ++ window xs (lo + n) hi = window xs lo hi := by
  rw [window, window, ← drop_drop, take_append_drop]

theorem window_write (hlo : lo ≤ hi) (hhi : hi ≤ xs.length) (p : List α) :
    window (overwrite xs hi p) lo (hi + p.length) = window xs lo hi ++ p := by
  have hlen : lo ≤ (xs.take hi).length := by rw [length_take, Nat.min_eq_left hhi]; exact hlo
  rw [window, overwrite_take xs p hhi, drop_append_of_le_length hlen, window]

theorem window_move (h : hi ≤ xs.length) :
    window (overwrite xs 0 (window xs lo hi)) 0 (hi - lo) = window xs lo hi := by
  have hmove := window_write (Nat.le_refl 0) (Nat.zero_le xs.length) (window xs lo hi)
  rwa [window_length h, Nat.zero_add, window_self, nil_append] at hmove

end Window

end SolidFrame
