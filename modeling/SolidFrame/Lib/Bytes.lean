/-
  Byte sequences — little and big endian numbers, and the position of the
  highest set bit computed by smearing.
-/
import Mathlib.Tactic
import Mathlib.Data.Nat.Size

namespace SolidFrame

open Nat

abbrev Byte := UInt8

/-! ## Little endian numbers -/

/-- The `n` low bytes of `v`, least significant first. -/
def leBytes : ℕ → ℕ → List Byte
  | 0, _ => []
  | n + 1, v => UInt8.ofNat v :: leBytes n (v / 256)

/-- The number whose bytes, least significant first, are given. -/
def leNat : List Byte → ℕ
  | [] => 0
  | b :: bs => b.toNat + 256 * leNat bs

@[simp] theorem leBytes_length (n v : ℕ) : (leBytes n v).length = n := by
  induction n generalizing v with
  | zero => rfl
  | succ n ih => simp [leBytes, ih]

theorem toNat_ofNat_byte (v : ℕ) : (UInt8.ofNat v).toNat = v % 256 := UInt8.toNat_ofNat'

theorem leNat_leBytes_mod (n v : ℕ) : leNat (leBytes n v) = v % 256 ^ n := by
  induction n generalizing v with
  | zero => simp [leBytes, leNat, mod_one]
  | succ n ih =>
    rw [leBytes, leNat, ih, toNat_ofNat_byte, pow_succ', mod_mul]

theorem leNat_leBytes {n v : ℕ} (h : v < 256 ^ n) : leNat (leBytes n v) = v := by
  rw [leNat_leBytes_mod, mod_eq_of_lt h]

theorem leNat_lt (bs : List Byte) : leNat bs < 256 ^ bs.length := by
  induction bs with
  | nil => simp [leNat]
  | cons b bs ih =>
    have hb : b.toNat < 256 := b.toNat_lt
    rw [leNat, List.length_cons, pow_succ']
    omega

theorem leBytes_leNat (bs : List Byte) : leBytes bs.length (leNat bs) = bs := by
  induction bs with
  | nil => rfl
  | cons b bs ih =>
    have hb : b.toNat < 256 := b.toNat_lt
    have hdiv : (b.toNat + 256 * leNat bs) / 256 = leNat bs := by omega
    have hlow : UInt8.ofNat (b.toNat + 256 * leNat bs) = b := by
      apply UInt8.toNat_inj.1
      rw [toNat_ofNat_byte]
      omega
    rw [List.length_cons, leBytes, leNat, hdiv, ih, hlow]

/-! ## Big endian numbers -/

/-- The `n` low bytes of `v`, most significant first. -/
def beBytes (n v : ℕ) : List Byte := (leBytes n v).reverse

/-- The number whose bytes, most significant first, are given. -/
def beNat (bs : List Byte) : ℕ := leNat bs.reverse

@[simp] theorem beBytes_length (n v : ℕ) : (beBytes n v).length = n := by
  simp [beBytes]

theorem beNat_beBytes {n v : ℕ} (h : v < 256 ^ n) : beNat (beBytes n v) = v := by
  rw [beNat, beBytes, List.reverse_reverse, leNat_leBytes h]

/-! ## The highest set bit -/

/-- Or `x` with itself shifted right by `1, 2, 4, …, 2 ^ (k - 1)`, in this
    order. -/
def smear : ℕ → ℕ → ℕ
  | 0, x => x
  | k + 1, x => smear k x ||| smear k x >>> 2 ^ k

theorem testBit_smear (k x i : ℕ) :
    (smear k x).testBit i ↔ ∃ j < 2 ^ k, x.testBit (i + j) = true := by
  induction k generalizing i with
  | zero => simp [smear]
  | succ k ih =>
    rw [smear, testBit_or, testBit_shiftRight, Bool.or_eq_true, ih, ih]
    constructor
    · rintro (⟨j, hj, hx⟩ | ⟨j, hj, hx⟩)
      · exact ⟨j, by rw [pow_succ]; omega, hx⟩
      · exact ⟨2 ^ k + j, by rw [pow_succ]; omega, by rwa [← add_assoc, add_comm i]⟩
    · rintro ⟨j, hj, hx⟩
      by_cases hjk : j < 2 ^ k
      · exact .inl ⟨j, hjk, hx⟩
      · refine .inr ⟨j - 2 ^ k, by rw [pow_succ] at hj; omega, ?_⟩
        rwa [show 2 ^ k + i + (j - 2 ^ k) = i + j by omega]

/-- **Smearing sets exactly the bits below the highest one.** -/
theorem smear_eq {k x : ℕ} (h : x < 2 ^ 2 ^ k) : smear k x = 2 ^ Nat.size x - 1 := by
  apply eq_of_testBit_eq
  intro i
  rw [testBit_two_pow_sub_one, Bool.eq_iff_iff, testBit_smear, decide_eq_true_iff]
  constructor
  · rintro ⟨j, -, hx⟩
    have hsz : i + j < Nat.size x := by
      rw [lt_size]
      exact ge_two_pow_of_testBit hx
    omega
  · intro hi
    -- the highest bit of `x` is at `size x - 1`, at most `2 ^ k - 1` above `i`
    have hpos : 0 < Nat.size x := by omega
    have hsz : Nat.size x ≤ 2 ^ k := size_le.2 h
    have hx0 : x ≠ 0 := by
      rintro rfl
      simp at hpos
    have hge : 2 ^ (Nat.size x - 1) ≤ x := lt_size.1 (by omega)
    have hlt : x < 2 ^ (Nat.size x - 1 + 1) := by
      rw [Nat.sub_add_cancel hpos]
      exact lt_size_self x
    refine ⟨Nat.size x - 1 - i, by omega, ?_⟩
    rw [show i + (Nat.size x - 1 - i) = Nat.size x - 1 by omega]
    have hlog : Nat.log2 x = Nat.size x - 1 := (log2_eq_iff hx0).2 ⟨hge, hlt⟩
    rw [← hlog]
    exact testBit_log2 hx0

end SolidFrame
