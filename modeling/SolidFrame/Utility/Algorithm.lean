/-
  SolidFrame formalization — bit counting, checked values and binary search
  (`solid/utility/common.hpp`, `solid/utility/algorithm.hpp`,
  `solid/utility/src/utility.cpp`).

  The overloads on `uint8_t … uint64_t` are one definition with the width as
  an argument; a value of width `w` is a number below `w.bound`.

  * `bitCount` is the byte table of `bit_count`, `leadingZeroCount` the
    smearing loop of `leading_zero_count`.
-/
import Mathlib.Data.Nat.Count
import SolidFrame.Lib.Bytes

namespace SolidFrame

open Finset Nat

/-- The fixed-width unsigned types of the overloads. -/
inductive Width where
  | w8 | w16 | w32 | w64
  deriving DecidableEq, Repr

namespace Width

def bytes : Width → ℕ
  | w8 => 1
  | w16 => 2
  | w32 => 4
  | w64 => 8

def bits (w : Width) : ℕ := 8 * w.bytes

def bound (w : Width) : ℕ := 2 ^ w.bits

theorem bound_eq (w : Width) : w.bound = 256 ^ w.bytes := by
  rw [bound, bits, pow_mul]
  rfl

end Width

/-! ## Counting bits -/

/-- The table `cnts` of `bit_count(uint8_t)`. -/
def cnts : List ℕ := [0, 1, 1, 2, 1, 2, 2, 3, 1, 2, 2, 3, 2, 3, 3, 4,
  1, 2, 2, 3, 2, 3, 3, 4, 2, 3, 3, 4, 3, 4, 4, 5,
  1, 2, 2, 3, 2, 3, 3, 4, 2, 3, 3, 4, 3, 4, 4, 5,
  2, 3, 3, 4, 3, 4, 4, 5, 3, 4, 4, 5, 4, 5, 5, 6,
  1, 2, 2, 3, 2, 3, 3, 4, 2, 3, 3, 4, 3, 4, 4, 5,
  2, 3, 3, 4, 3, 4, 4, 5, 3, 4, 4, 5, 4, 5, 5, 6,
  2, 3, 3, 4, 3, 4, 4, 5, 3, 4, 4, 5, 4, 5, 5, 6,
  3, 4, 4, 5, 4, 5, 5, 6, 4, 5, 5, 6, 5, 6, 6, 7,
  1, 2, 2, 3, 2, 3, 3, 4, 2, 3, 3, 4, 3, 4, 4, 5,
  2, 3, 3, 4, 3, 4, 4, 5, 3, 4, 4, 5, 4, 5, 5, 6,
  2, 3, 3, 4, 3, 4, 4, 5, 3, 4, 4, 5, 4, 5, 5, 6,
  3, 4, 4, 5, 4, 5, 5, 6, 4, 5, 5, 6, 5, 6, 6, 7,
  2, 3, 3, 4, 3, 4, 4, 5, 3, 4, 4, 5, 4, 5, 5, 6,
  3, 4, 4, 5, 4, 5, 5, 6, 4, 5, 5, 6, 5, 6, 6, 7,
  3, 4, 4, 5, 4, 5, 5, 6, 4, 5, 5, 6, 5, 6, 6, 7,
  4, 5, 5, 6, 5, 6, 6, 7, 5, 6, 6, 7, 6, 7, 7, 8]

def bitCount8 (v : ℕ) : ℕ := cnts.getD v 0

def bitCount16 (v : ℕ) : ℕ := bitCount8 (v % 256) + bitCount8 (v >>> 8)

def bitCount32 (v : ℕ) : ℕ :=
  bitCount8 (v % 256) + bitCount8 ((v >>> 8) % 256) + bitCount8 ((v >>> 16) % 256) +
    bitCount8 ((v >>> 24) % 256)

def bitCount64 (v : ℕ) : ℕ := bitCount32 (v % 2 ^ 32) + bitCount32 (v >>> 32)

def bitCount : Width → ℕ → ℕ
  | .w8 => bitCount8
  | .w16 => bitCount16
  | .w32 => bitCount32
  | .w64 => bitCount64

theorem bitCount8_le (v : ℕ) : bitCount8 v ≤ 8 := by
  have hall : ∀ x ∈ cnts, x ≤ 8 := by decide +kernel
  rw [bitCount8, List.getD_eq_getElem?_getD]
  cases hv : cnts[v]? with
  | none => simp
  | some x => exact hall x (List.mem_of_getElem? hv)

theorem bitCount_le (w : Width) (v : ℕ) : bitCount w v ≤ w.bits := by
  have h8 := bitCount8_le
  have h32 : ∀ v, bitCount32 v ≤ 32 := by
    intro v
    have h0 := h8 (v % 256)
    have h1 := h8 ((v >>> 8) % 256)
    have h2 := h8 ((v >>> 16) % 256)
    have h3 := h8 ((v >>> 24) % 256)
    unfold bitCount32
    omega
  cases w with
  | w8 => exact h8 v
  | w16 =>
    have h0 := h8 (v % 256)
    have h1 := h8 (v >>> 8)
    simp only [bitCount, bitCount16, Width.bits, Width.bytes]
    omega
  | w32 => exact h32 v
  | w64 =>
    have h0 := h32 (v % 2 ^ 32)
    have h1 := h32 (v >>> 32)
    simp only [bitCount, bitCount64, Width.bits, Width.bytes]
    omega

/-- The number of shifts `1, 2, 4, …` that `leading_zero_count` makes. -/
def Width.smears : Width → ℕ
  | w8 => 3
  | w16 => 4
  | w32 => 5
  | w64 => 6

def leadingZeroCount (w : Width) (x : ℕ) : ℕ := bitCount w (w.bound - 1 - smear w.smears x)

def maxBitCount (w : Width) (v : ℕ) : ℕ := w.bits - leadingZeroCount w v

/-- `fast_padded_size(_sz, _bitpad)`. -/
def fastPaddedSize (sz bitpad : ℕ) : ℕ :=
  let padv := 1 <<< bitpad
  sz + (padv - sz % padv) % padv

def maxPaddedBitCout (w : Width) (v : ℕ) : ℕ := fastPaddedSize (maxBitCount w v) 3

def maxPaddedByteCout (w : Width) (v : ℕ) : ℕ := maxPaddedBitCout w v >>> 3

theorem Width.bits_eq_smears (w : Width) : w.bits = 2 ^ w.smears := by
  cases w <;> rfl

theorem bitCount_compl (w : Width) {n : ℕ} (h : n ≤ w.bits) :
    bitCount w (w.bound - 1 - (2 ^ n - 1)) = w.bits - n := by
  have hall : ∀ n < w.bits + 1, bitCount w (w.bound - 1 - (2 ^ n - 1)) = w.bits - n := by
    cases w <;> decide +kernel
  exact hall n (by omega)

variable {w : Width} {c v : ℕ}

/-- **`max_bit_count` is the position of the highest set bit.** -/
theorem maxBitCount_eq (h : v < w.bound) : maxBitCount w v = Nat.size v := by
  have hsz : Nat.size v ≤ w.bits := size_le.2 h
  have hsm : smear w.smears v = 2 ^ Nat.size v - 1 :=
    smear_eq (by rw [← w.bits_eq_smears]; exact h)
  rw [maxBitCount, leadingZeroCount, hsm, bitCount_compl w hsz]
  omega

theorem maxPaddedByteCout_eq (h : v < w.bound) :
    maxPaddedByteCout w v = (Nat.size v + 7) / 8 := by
  simp only [maxPaddedByteCout, maxPaddedBitCout, fastPaddedSize, maxBitCount_eq h,
    shiftRight_eq_div_pow, shiftLeft_eq]
  omega

theorem maxPaddedByteCout_le (h : v < w.bound) :
    maxPaddedByteCout w v ≤ w.bytes := by
  have hsz : Nat.size v ≤ 8 * w.bytes := size_le.2 h
  rw [maxPaddedByteCout_eq h]
  omega

theorem lt_pow_maxPaddedByteCout (h : v < w.bound) :
    v < 256 ^ maxPaddedByteCout w v := by
  have hle : Nat.size v ≤ 8 * maxPaddedByteCout w v := by
    rw [maxPaddedByteCout_eq h]
    omega
  calc v < 2 ^ (8 * maxPaddedByteCout w v) := size_le.1 hle
    _ = 256 ^ maxPaddedByteCout w v := by rw [pow_mul]; rfl

/-! ## Values with their bit count -/

def Width.crcBits : Width → ℕ
  | w8 => 3
  | w16 => 4
  | w32 => 5
  | w64 => 6

theorem Width.crcBits_le (w : Width) : w.crcBits ≤ w.bits := by
  cases w <;> decide

/-- `max_value_without_crc_8/16/32/64()`. -/
def maxValueWithoutCrc (w : Width) : ℕ := 2 ^ (w.bits - w.crcBits) - 1

/-- `compute_value_with_crc(_to, _from)`; `none` is the result `false`. -/
def computeValueWithCrc (w : Width) (v : ℕ) : Option ℕ :=
  if v < 2 ^ (w.bits - w.crcBits) then some (bitCount w v ||| v <<< w.crcBits) else none

/-- `check_value_with_crc(_to, _v)`; `none` is the result `false`. -/
def checkValueWithCrc (w : Width) (v : ℕ) : Option ℕ :=
  if bitCount w (v >>> w.crcBits) = v % 2 ^ w.crcBits then some (v >>> w.crcBits) else none

theorem bitCount_lt_crc (h : v < 2 ^ (w.bits - w.crcBits)) :
    bitCount w v < 2 ^ w.crcBits := by
  have h8 := bitCount8_le
  have hfew : ∀ x < 16, bitCount8 x ≤ 4 := by decide
  cases w with
  | w8 =>
    have hall : ∀ v < 2 ^ 5, bitCount8 v < 8 := by decide
    exact hall v h
  | w16 =>
    have h0 := h8 (v % 256)
    have h1 := hfew (v >>> 8) (by
      simp only [Width.bits, Width.bytes, Width.crcBits] at h
      rw [shiftRight_eq_div_pow]; omega)
    simp only [bitCount, bitCount16, Width.crcBits]
    omega
  | w32 =>
    have h0 := h8 (v % 256)
    have h1 := h8 ((v >>> 8) % 256)
    have h2 := h8 ((v >>> 16) % 256)
    have h3 := hfew ((v >>> 24) % 256) (by
      simp only [Width.bits, Width.bytes, Width.crcBits] at h
      rw [shiftRight_eq_div_pow]; omega)
    simp only [bitCount, bitCount32, Width.crcBits]
    omega
  | w64 =>
    have h0 := bitCount_le .w32 (v % 2 ^ 32)
    have h1 := h8 ((v >>> 32) % 256)
    have h2 := h8 (((v >>> 32) >>> 8) % 256)
    have h3 := h8 (((v >>> 32) >>> 16) % 256)
    have h4 := hfew (((v >>> 32) >>> 24) % 256) (by
      simp only [Width.bits, Width.bytes, Width.crcBits] at h
      simp only [shiftRight_eq_div_pow]; omega)
    simp only [bitCount, bitCount64, bitCount32, Width.crcBits, Width.bits, Width.bytes] at h0 ⊢
    omega

/-- **Checking a computed value gives the value back.** -/
theorem checkValueWithCrc_compute (h : computeValueWithCrc w v = some c) :
    checkValueWithCrc w c = some v := by
  unfold computeValueWithCrc at h
  split at h
  · rename_i hv
    have hbc := bitCount_lt_crc hv
    have hc : c = v <<< w.crcBits + bitCount w v := by
      rw [Nat.shiftLeft_add_eq_or_of_lt hbc, Nat.or_comm]
      simpa using h.symm
    have hpow : 0 < 2 ^ w.crcBits := Nat.two_pow_pos _
    have hhi : c >>> w.crcBits = v := by
      rw [hc, shiftLeft_eq, shiftRight_eq_div_pow, mul_comm,
        mul_add_div hpow, div_eq_of_lt hbc, add_zero]
    have hlo : c % 2 ^ w.crcBits = bitCount w v := by
      rw [hc, shiftLeft_eq, mul_comm, mul_add_mod, mod_eq_of_lt hbc]
    simp [checkValueWithCrc, hhi, hlo]
  · simp at h

theorem computeValueWithCrc_isSome :
    (computeValueWithCrc w v).isSome ↔ v ≤ maxValueWithoutCrc w := by
  have hpow : 0 < 2 ^ (w.bits - w.crcBits) := Nat.two_pow_pos _
  unfold computeValueWithCrc maxValueWithoutCrc
  split <;> simp <;> omega

theorem computeValueWithCrc_lt (h : computeValueWithCrc w v = some c) :
    c < w.bound := by
  unfold computeValueWithCrc at h
  split at h
  · rename_i hv
    have hbc := bitCount_lt_crc hv
    have hc : c = v <<< w.crcBits + bitCount w v := by
      rw [Nat.shiftLeft_add_eq_or_of_lt hbc, Nat.or_comm]
      simpa using h.symm
    have hsplit : 2 ^ w.bits = 2 ^ (w.bits - w.crcBits) * 2 ^ w.crcBits := by
      rw [← pow_add, Nat.sub_add_cancel w.crcBits_le]
    have hmul : (v + 1) * 2 ^ w.crcBits ≤ 2 ^ (w.bits - w.crcBits) * 2 ^ w.crcBits :=
      mul_le_mul_right _ hv
    rw [Width.bound, hsplit, hc, shiftLeft_eq]
    rw [add_mul, one_mul] at hmul
    omega
  · simp at h

/-! ## Detecting errors -/

theorem sum_testBit_add (n m v : ℕ) : ∑ i ∈ Finset.range (n + m), (v.testBit i).toNat =
      ∑ i ∈ Finset.range n, ((v % 2 ^ n).testBit i).toNat +
        ∑ i ∈ Finset.range m, ((v >>> n).testBit i).toNat := by
  rw [sum_range_add]
  congr 1
  · refine sum_congr rfl ?_
    intro i hi
    rw [testBit_mod_two_pow, decide_eq_true (mem_range.1 hi), Bool.true_and]
  · simp only [testBit_shiftRight]

theorem bitCount8_eq_sum : ∀ v < 256, bitCount8 v = ∑ i ∈ Finset.range 8, (v.testBit i).toNat := by
  decide +kernel

theorem bitCount32_eq_sum (h : v < 2 ^ 32) :
    bitCount32 v = ∑ i ∈ Finset.range 32, (v.testBit i).toNat := by
  have hlast : v >>> 24 < 256 := by
    rw [shiftRight_eq_div_pow]
    omega
  rw [sum_testBit_add 8 24, sum_testBit_add 8 16, sum_testBit_add 8 8, bitCount32]
  simp only [← shiftRight_add, Nat.reduceAdd, mod_eq_of_lt hlast]
  rw [bitCount8_eq_sum _ hlast, bitCount8_eq_sum _ (mod_lt v (by omega)),
    bitCount8_eq_sum _ (mod_lt (v >>> 8) (by omega)),
    bitCount8_eq_sum _ (mod_lt (v >>> 16) (by omega))]
  simp only [Nat.reducePow]
  omega

/-- **`bit_count` counts the set bits.** -/
theorem bitCount_eq_sum (h : v < w.bound) :
    bitCount w v = ∑ i ∈ Finset.range w.bits, (v.testBit i).toNat := by
  cases w with
  | w8 => exact bitCount8_eq_sum v h
  | w16 =>
    have hhi : v >>> 8 < 256 := by
      rw [shiftRight_eq_div_pow]
      exact Nat.div_lt_of_lt_mul h
    exact (congrArg₂ (· + ·) (bitCount8_eq_sum _ (mod_lt v (by omega)))
      (bitCount8_eq_sum _ hhi)).trans (sum_testBit_add 8 8 v).symm
  | w32 => exact bitCount32_eq_sum h
  | w64 =>
    have hhi : v >>> 32 < 2 ^ 32 := by
      rw [shiftRight_eq_div_pow]
      exact Nat.div_lt_of_lt_mul h
    exact (congrArg₂ (· + ·) (bitCount32_eq_sum (Nat.mod_lt v (Nat.two_pow_pos 32)))
      (bitCount32_eq_sum hhi)).trans (sum_testBit_add 32 32 v).symm

theorem bitCount_ne_of_flip {v' i : ℕ} (h : v < w.bound) (h' : v' < w.bound)
    (hi : v.testBit i ≠ v'.testBit i) (hj : ∀ j ≠ i, v.testBit j = v'.testBit j) :
    bitCount w v ≠ bitCount w v' := by
  have hmem : i ∈ Finset.range w.bits := by
    rw [mem_range]
    by_contra hle
    have hpow := Nat.pow_le_pow_right (n := 2) (by omega) (Nat.not_lt.1 hle)
    exact hi ((testBit_lt_two_pow (lt_of_lt_of_le h hpow)).trans
      (testBit_lt_two_pow (lt_of_lt_of_le h' hpow)).symm)
  have hrest : ∑ j ∈ (Finset.range w.bits).erase i, (v.testBit j).toNat =
      ∑ j ∈ (Finset.range w.bits).erase i, (v'.testBit j).toNat := by
    refine sum_congr rfl ?_
    intro j hmem
    rw [hj j (ne_of_mem_erase hmem)]
  rw [bitCount_eq_sum h, bitCount_eq_sum h', ← add_sum_erase _ _ hmem,
    ← add_sum_erase _ _ hmem, hrest]
  revert hi
  cases v.testBit i <;> cases v'.testBit i <;> simp

theorem checkValueWithCrc_eq_some_iff :
    checkValueWithCrc w c = some v ↔ c >>> w.crcBits = v ∧ c % 2 ^ w.crcBits = bitCount w v := by
  unfold checkValueWithCrc
  constructor
  · intro h
    split_ifs at h with hcnt
    cases h
    exact ⟨rfl, hcnt.symm⟩
  · rintro ⟨rfl, hcnt⟩
    rw [if_pos hcnt.symm]

theorem computeValueWithCrc_eq_some_iff (hc : c < w.bound) :
    computeValueWithCrc w v = some c ↔ checkValueWithCrc w c = some v := by
  refine ⟨checkValueWithCrc_compute, ?_⟩
  intro h
  obtain ⟨rfl, hcnt⟩ := checkValueWithCrc_eq_some_iff.1 h
  have hlt : c >>> w.crcBits < 2 ^ (w.bits - w.crcBits) := by
    rw [Nat.shiftRight_eq_div_pow]
    refine Nat.div_lt_of_lt_mul ?_
    rwa [← pow_add, Nat.add_sub_cancel' w.crcBits_le]
  rw [computeValueWithCrc, if_pos hlt, ← hcnt, Nat.or_comm,
    ← Nat.shiftLeft_add_eq_or_of_lt (Nat.mod_lt c (Nat.two_pow_pos _)), Nat.shiftLeft_eq,
    Nat.shiftRight_eq_div_pow, Nat.div_add_mod']

/-- The words differ in at least two bit positions. -/
def DifferTwice (c c' : ℕ) : Prop :=
  ∃ i j, i ≠ j ∧ c.testBit i ≠ c'.testBit i ∧ c.testBit j ≠ c'.testBit j

theorem differTwice_of_check {c' v' : ℕ} (hc : c < w.bound) (hc' : c' < w.bound)
    (h : checkValueWithCrc w c = some v) (h' : checkValueWithCrc w c' = some v') (hne : c ≠ c') :
    DifferTwice c c' := by
  obtain ⟨rfl, hcnt⟩ := checkValueWithCrc_eq_some_iff.1 h
  obtain ⟨rfl, hcnt'⟩ := checkValueWithCrc_eq_some_iff.1 h'
  have hhigh : ∀ {i}, (c >>> w.crcBits).testBit i ≠ (c' >>> w.crcBits).testBit i →
      c.testBit (w.crcBits + i) ≠ c'.testBit (w.crcBits + i) := by
    intro i
    simp only [testBit_shiftRight]
    exact id
  have hvne : c >>> w.crcBits ≠ c' >>> w.crcBits := by
    intro heq
    rw [heq, ← hcnt'] at hcnt
    rw [shiftRight_eq_div_pow, shiftRight_eq_div_pow] at heq
    exact hne (by rw [← div_add_mod' c (2 ^ w.crcBits), heq, hcnt, div_add_mod'])
  obtain ⟨i, hi⟩ := exists_testBit_ne_of_ne hvne
  by_cases hone : ∀ j ≠ i, (c >>> w.crcBits).testBit j = (c' >>> w.crcBits).testBit j
  · -- one changed bit of the value changes the count
    have hlow : c % 2 ^ w.crcBits ≠ c' % 2 ^ w.crcBits := by
      rw [hcnt, hcnt']
      exact bitCount_ne_of_flip (lt_of_le_of_lt (shiftRight_le c _) hc)
        (lt_of_le_of_lt (shiftRight_le c' _) hc') hi hone
    obtain ⟨j, hj⟩ := exists_testBit_ne_of_ne hlow
    simp only [testBit_mod_two_pow] at hj
    by_cases hlt : j < w.crcBits
    · simp only [hlt, decide_true, Bool.true_and] at hj
      exact ⟨j, w.crcBits + i, by omega, hj, hhigh hi⟩
    · simp [hlt] at hj
  · push Not at hone
    obtain ⟨j, hji, hj⟩ := hone
    exact ⟨w.crcBits + j, w.crcBits + i, by omega, hhigh hj, hhigh hi⟩

/-- **Values with their bit count are an error-detecting code.** -/
theorem valueWithCrc_detects (w : Width) :
    (∀ v, (computeValueWithCrc w v).isSome ↔ v ≤ maxValueWithoutCrc w) ∧
      (∀ c < w.bound, ∀ v, checkValueWithCrc w c = some v ↔ computeValueWithCrc w v = some c) ∧
      (∀ v v' c c', computeValueWithCrc w v = some c → computeValueWithCrc w v' = some c' →
        c ≠ c' → DifferTwice c c') ∧
      (∀ v c i, computeValueWithCrc w v = some c → i < w.bits →
        checkValueWithCrc w (c ^^^ 2 ^ i) = none) ∧
      ∀ v, computeValueWithCrc w v ≠ some (w.bound - 1) := by
  refine ⟨fun v => computeValueWithCrc_isSome,
    fun c hc v => (computeValueWithCrc_eq_some_iff hc).symm, ?_, ?_, ?_⟩
  · intro v v' c c' h h' hne
    exact differTwice_of_check (computeValueWithCrc_lt h) (computeValueWithCrc_lt h')
      (checkValueWithCrc_compute h) (checkValueWithCrc_compute h') hne
  · intro v c i h hi
    rw [Option.eq_none_iff_forall_ne_some]
    intro v' h'
    have hlt := computeValueWithCrc_lt h
    have hlt' : c ^^^ 2 ^ i < w.bound :=
      Nat.xor_lt_two_pow hlt (Nat.pow_lt_pow_right (by omega) hi)
    have hflip : ∀ {j}, c.testBit j ≠ (c ^^^ 2 ^ i).testBit j → j = i := by
      intro j hj
      by_contra hne
      simp [Ne.symm hne] at hj
    have hne : c ≠ c ^^^ 2 ^ i := by
      intro heq
      have hbit := congrArg (Nat.testBit · i) heq
      simp at hbit
    obtain ⟨j, k, hjk, hj, hk⟩ :=
      differTwice_of_check hlt hlt' (checkValueWithCrc_compute h) h' hne
    exact hjk ((hflip hj).trans (hflip hk).symm)
  · intro v h
    have hcheck := checkValueWithCrc_compute h
    have hnone : checkValueWithCrc w (w.bound - 1) = none := by
      cases w <;> decide +kernel
    rw [hnone] at hcheck
    cases hcheck

/-! ## Binary search -/

section BinarySearch
variable (cmp : ℕ → ℤ)

/-- The loop of `binary_search` over the places `lo`, …, `hi - 1`; `cmp` is what the comparator
    returns for the element of a place and the key. -/
def binarySearchLoop (lo hi : ℕ) : Bool × ℕ :=
  if lo < hi then
    let mid := lo + (hi - lo) / 2
    if cmp mid = 0 then (true, mid)
    else if cmp mid < 0 then binarySearchLoop (mid + 1) hi
    else binarySearchLoop lo mid
  else (false, lo)
termination_by hi - lo

/-- `binary_search`; the place that it returns is counted from `lo`. -/
def binarySearch (lo hi : ℕ) : Bool × ℕ :=
  let r := binarySearchLoop cmp lo hi
  (r.1, r.2 - lo)

/-- The loop of `binary_search_first`; `none` when it does not end within the given turns. -/
def binarySearchFirstLoop : ℕ → Bool × ℕ → Option (Bool × ℕ)
  | 0, _ => none
  | n + 1, p =>
    if p.2 ≠ 0 ∧ cmp (p.2 - 1) = 0 then binarySearchFirstLoop n (binarySearch cmp 0 p.2) else some p

def binarySearchFirst (size n : ℕ) : Option (Bool × ℕ) :=
  let p := binarySearch cmp 0 size
  if p.1 then binarySearchFirstLoop cmp n p else some p

variable (size : ℕ)

/-- The loop of `binary_search_last`. -/
def binarySearchLastLoop : ℕ → Bool × ℕ → Option (Bool × ℕ)
  | 0, _ => none
  | n + 1, p =>
    if p.2 ≠ size - 1 ∧ cmp (p.2 + 1) = 0 then
      binarySearchLastLoop n (binarySearch cmp (p.2 + 1) size)
    else some p

def binarySearchLast (n : ℕ) : Option (Bool × ℕ) :=
  let p := binarySearch cmp 0 size
  if p.1 then binarySearchLastLoop cmp size n p else some p

/-- The sequence is sorted with respect to the comparator. -/
def SortedFor : Prop := ∀ i j, i ≤ j → j < size → (cmp i).sign ≤ (cmp j).sign

def KeyOccurs : Prop := ∃ i < size, cmp i = 0

/-- The elements that are equal to the key have the places `a`, …, `b - 1`. -/
structure EqualRun (a b : ℕ) : Prop where
  le : a ≤ b
  le_size : b ≤ size
  neg_iff : ∀ i < size, cmp i < 0 ↔ i < a
  nonpos_iff : ∀ i < size, cmp i ≤ 0 ↔ i < b

variable {cmp size}

theorem lt_count_iff {p : ℕ → Prop} [DecidablePred p]
    (hp : ∀ i j, i ≤ j → j < size → p j → p i) {i : ℕ} (hi : i < size) :
    p i ↔ i < Nat.count p size := by
  constructor
  · intro h
    have hall : Nat.count p (i + 1) = i + 1 :=
      Nat.count_iff_forall.2 fun j hj => hp j i (by omega) hi h
    have hmono := Nat.count_monotone p (Nat.succ_le_of_lt hi)
    rw [Nat.succ_eq_add_one] at hmono
    omega
  · intro h
    by_contra hnot
    have hrest : Nat.count (fun k => p (i + k)) (size - i) = 0 := by
      rw [Nat.count_eq_card_filter_range, Finset.card_eq_zero, Finset.filter_eq_empty_iff]
      intro k hk hpk
      exact hnot (hp i (i + k) (by omega) (by simp at hk; omega) hpk)
    have hadd := Nat.count_add (p := p) i (size - i)
    have hle := Nat.count_le (p := p) (n := i)
    rw [hrest, Nat.add_sub_cancel' hi.le] at hadd
    omega

theorem SortedFor.equalRun (hs : SortedFor cmp size) :
    EqualRun cmp size (Nat.count (cmp · < 0) size) (Nat.count (cmp · ≤ 0) size) := by
  refine ⟨Nat.count_mono_left fun i _ h => le_of_lt h, Nat.count_le _, fun i hi => ?_,
    fun i hi => ?_⟩
  · refine lt_count_iff (p := (cmp · < 0)) (fun i j hij hj => ?_) hi
    have := hs i j hij hj
    grind
  · refine lt_count_iff (p := (cmp · ≤ 0)) (fun i j hij hj => ?_) hi
    have := hs i j hij hj
    grind

variable {a b lo hi i : ℕ}

section
variable (h : EqualRun cmp size a b)
include h

/-- **The loop finds an equal element if its part of the sequence has one**, or else the place
    where they would be. -/
theorem EqualRun.loop (hle : lo ≤ hi) (hn : hi ≤ size) :
    (∃ i, binarySearchLoop cmp lo hi = (true, i) ∧ lo ≤ i ∧ i < hi ∧ a ≤ i ∧ i < b) ∨
      ∃ i, binarySearchLoop cmp lo hi = (false, i) ∧ (hi ≤ a ∨ b ≤ lo ∨ a = b ∨ hi ≤ lo) ∧
        (lo ≤ a → a ≤ hi → i = a) := by
  have hab := h.le
  fun_induction binarySearchLoop cmp lo hi with
  | case1 lo hi hlt mid hzero =>
    have hneg := h.neg_iff mid (by omega)
    have hpos := h.nonpos_iff mid (by omega)
    exact .inl ⟨mid, rfl, by omega, by omega, by omega, by omega⟩
  | case2 lo hi hlt mid hne hless ih =>
    have hneg := h.neg_iff mid (by omega)
    replace ih := ih (by omega) hn
    rcases ih with ⟨i, heq, hlo, hhi, hrun⟩ | ⟨i, heq, hnone, hplace⟩
    · exact .inl ⟨i, heq, by omega, hhi, hrun⟩
    · exact .inr ⟨i, heq, by omega, fun _ hhi => hplace (by omega) hhi⟩
  | case3 lo hi hlt mid hne hless ih =>
    have hpos := h.nonpos_iff mid (by omega)
    replace ih := ih (by omega) (by omega)
    rcases ih with ⟨i, heq, hlo, hhi, hrun⟩ | ⟨i, heq, hnone, hplace⟩
    · exact .inl ⟨i, heq, hlo, by omega, hrun⟩
    · exact .inr ⟨i, heq, by omega, fun hlo _ => hplace hlo (by omega)⟩
  | case4 lo hi hge => exact .inr ⟨lo, rfl, by omega, by omega⟩

theorem EqualRun.eq_zero_iff (hi : i < size) : cmp i = 0 ↔ a ≤ i ∧ i < b := by
  have hneg := h.neg_iff i hi
  have hpos := h.nonpos_iff i hi
  omega

theorem EqualRun.keyOccurs_iff : KeyOccurs cmp size ↔ a < b := by
  have hle := h.le_size
  constructor
  · rintro ⟨i, hi, hzero⟩
    rw [h.eq_zero_iff hi] at hzero
    omega
  · intro hab
    exact ⟨a, by omega, (h.eq_zero_iff (by omega)).2 ⟨le_rfl, hab⟩⟩

theorem EqualRun.search : (∃ i, binarySearch cmp 0 size = (true, i) ∧ a ≤ i ∧ i < b) ∨
      binarySearch cmp 0 size = (false, a) ∧ a = b := by
  have hle := h.le
  have hlen := h.le_size
  unfold binarySearch
  rcases h.loop (Nat.zero_le _) le_rfl with ⟨i, heq, hfound⟩ | ⟨i, heq, hnone, hplace⟩
  · exact .inl ⟨i, by simp [heq], hfound.2.2⟩
  · refine .inr ⟨?_, by omega⟩
    rw [heq, hplace (by omega) (by omega)]
    rfl

/-- The loop of `binary_search_first` goes on to the first equal element. -/
theorem EqualRun.first (ha : a ≤ i) (hb : i < b) :
    ∃ n, binarySearchFirstLoop cmp n (true, i) = some (true, a) := by
  have hlen := h.le_size
  induction i using Nat.strong_induction_on with
  | _ i ih =>
    have hzero := h.eq_zero_iff (i := i - 1) (by omega)
    rcases ha.eq_or_lt with rfl | hlt
    · refine ⟨1, ?_⟩
      rw [binarySearchFirstLoop, if_neg (by simp only [hzero]; omega)]
    · rcases h.loop (Nat.zero_le i) (by omega) with ⟨j, heq, hj⟩ | ⟨j, heq, hj, -⟩
      · obtain ⟨n, hn⟩ := ih j hj.2.1 hj.2.2.1 hj.2.2.2
        refine ⟨n + 1, ?_⟩
        rw [binarySearchFirstLoop, if_pos (by simp only [hzero]; omega)]
        simpa [binarySearch, heq] using hn
      · omega

end

/-- **`binary_search` and `binary_search_first` are correct**, and the loop of the second one
    comes to its end. -/
theorem binarySearch_correct (hs : SortedFor cmp size) : (KeyOccurs cmp size →
      (∃ i < size, binarySearch cmp 0 size = (true, i) ∧ cmp i = 0) ∧
      ∃ i < size, ∃ n, binarySearchFirst cmp size n = some (true, i) ∧ cmp i = 0 ∧
        ∀ j < i, cmp j ≠ 0) ∧
    (¬ KeyOccurs cmp size → binarySearch cmp 0 size = (false, Nat.count (cmp · < 0) size) ∧
      ∀ n, binarySearchFirst cmp size n = some (binarySearch cmp 0 size)) := by
  have h := hs.equalRun
  rw [h.keyOccurs_iff]
  generalize Nat.count (cmp · < 0) size = a at h ⊢
  generalize Nat.count (cmp · ≤ 0) size = b at h ⊢
  have hle := h.le_size
  rcases h.search with ⟨i, heq, hi, hib⟩ | ⟨heq, hempty⟩
  · obtain ⟨n, hfirst⟩ := h.first hi hib
    refine ⟨fun _ => ⟨⟨i, by omega, heq, ?_⟩, a, by omega, n, ?_, ?_, fun j hj => ?_⟩,
      fun hab => by omega⟩
    · exact (h.eq_zero_iff (by omega)).2 ⟨hi, hib⟩
    · simpa [binarySearchFirst, heq] using hfirst
    · exact (h.eq_zero_iff (by omega)).2 ⟨le_rfl, by omega⟩
    · rw [Ne, h.eq_zero_iff (by omega)]
      omega
  · refine ⟨fun hab => by omega, fun _ => ⟨heq, fun n => ?_⟩⟩
    simp [binarySearchFirst, heq]

/-- The comparator for a list of numbers and a key. -/
def compareAt (xs : List ℤ) (key : ℤ) (i : ℕ) : ℤ := xs.getD i 0 - key

theorem sortedFor_compareAt (xs : List ℤ) (key : ℤ)
    (h : ∀ j < xs.length, ∀ i < j + 1, (compareAt xs key i).sign ≤ (compareAt xs key j).sign) :
    SortedFor (compareAt xs key) xs.length := fun i j hij hj => h j hj i (by omega)

/-- Three equal elements are found, and a key that is between two of the elements is not. -/
theorem binarySearch_correct_five :
    (∃ n, binarySearchFirst (compareAt [1, 3, 3, 3, 7] 3) 5 n = some (true, 1)) ∧
      binarySearch (compareAt [1, 3, 3, 3, 7] 5) 0 5 = (false, 4) := by
  have hfound := (binarySearch_correct (sortedFor_compareAt [1, 3, 3, 3, 7] 3
    (by decide))).1 ⟨2, by decide, by decide⟩
  have hmissing := (binarySearch_correct (sortedFor_compareAt [1, 3, 3, 3, 7] 5
    (by decide))).2 (by unfold KeyOccurs; decide)
  obtain ⟨-, i, hi, n, hn, hzero, hfirst⟩ := hfound
  have hone : ∀ i < 5, compareAt [1, 3, 3, 3, 7] 3 i = 0 →
      (∀ j < i, compareAt [1, 3, 3, 3, 7] 3 j ≠ 0) → i = 1 := by decide
  obtain rfl := hone i hi hzero hfirst
  exact ⟨⟨n, hn⟩, hmissing.1.trans (by decide)⟩

/-- The last element that is equal to the key has the place `i`. -/
def IsLast (cmp : ℕ → ℤ) (size i : ℕ) : Prop :=
  i < size ∧ cmp i = 0 ∧ ∀ j, i < j → j < size → cmp j ≠ 0

theorem EqualRun.isLast_iff (h : EqualRun cmp size a b) (hab : a < b) :
    IsLast cmp size i ↔ i + 1 = b := by
  have hlen := h.le_size
  constructor
  · rintro ⟨hi, hzero, hlater⟩
    have hrun := (h.eq_zero_iff hi).1 hzero
    by_contra hne
    exact hlater (b - 1) (by omega) (by omega) ((h.eq_zero_iff (by omega)).2 (by omega))
  · rintro rfl
    refine ⟨by omega, (h.eq_zero_iff (by omega)).2 (by omega), fun j hij hj => ?_⟩
    rw [Ne, h.eq_zero_iff hj]
    omega

/-- A turn of the loop of `binary_search_last` counts the place from another beginning, so that
    it is before the last equal element, also at the end. -/
theorem EqualRun.last (h : EqualRun cmp size a b) {p r : Bool × ℕ} (hp : p.2 + 1 < b) {n : ℕ}
    (hr : binarySearchLastLoop cmp size n p = some r) : r.2 + 1 < b := by
  have hlen := h.le_size
  induction n generalizing p with
  | zero => cases hr
  | succ n ih =>
    rw [binarySearchLastLoop] at hr
    split_ifs at hr with hagain
    · refine ih ?_ hr
      have hzero := (h.eq_zero_iff (by omega)).1 hagain.2
      have hlt : p.2 + 1 ≤ size := by omega
      rcases h.loop hlt le_rfl with ⟨i, heq, hi⟩ | ⟨i, heq, hi, -⟩
      · simp only [binarySearch, heq]
        omega
      · omega
    · cases hr
      exact hp

/-- The parts into which the bisection of the places `lo`, …, `hi - 1` divides them. -/
inductive Part : ℕ → ℕ → ℕ → ℕ → Prop where
  | whole (lo hi : ℕ) : Part lo hi lo hi
  | left {lo hi lo' hi' : ℕ} (hlt : lo < hi) (h : Part lo (lo + (hi - lo) / 2) lo' hi') :
      Part lo hi lo' hi'
  | right {lo hi lo' hi' : ℕ} (hlt : lo < hi) (h : Part (lo + (hi - lo) / 2 + 1) hi lo' hi') :
      Part lo hi lo' hi'

theorem Part.bounds {lo' hi' : ℕ} (h : Part lo hi lo' hi') (hle : lo ≤ hi) :
    lo ≤ lo' ∧ hi' ≤ hi := by
  induction h with
  | whole => exact ⟨le_rfl, le_rfl⟩
  | left _ _ ih => exact ⟨(ih (by omega)).1, by have := (ih (by omega)).2; omega⟩
  | right _ _ ih => exact ⟨by have := (ih (by omega)).1; omega, (ih (by omega)).2⟩

/-- The last of the places `a`, …, `b - 1` is the middle of a part that begins at `a` or
    before it. -/
def LastIsMiddle (lo hi a b : ℕ) : Prop :=
  ∃ lo' hi', Part lo hi lo' hi' ∧ lo' < hi' ∧ lo' ≤ a ∧ lo' + (hi' - lo') / 2 + 1 = b

/-- **The loop finds the last equal element** iff it is the middle of the first part whose middle
    is an equal element. -/
theorem EqualRun.loop_last_iff (h : EqualRun cmp size a b) (ha : lo ≤ a) (hab : a < b)
    (hb : b ≤ hi) (hn : hi ≤ size) :
    (binarySearchLoop cmp lo hi).2 + 1 = b ↔ LastIsMiddle lo hi a b := by
  fun_induction binarySearchLoop cmp lo hi with
  | case1 lo hi hlt mid hzero =>
    have hmid := (h.eq_zero_iff (by omega)).1 hzero
    refine ⟨fun hlast => ⟨lo, hi, .whole lo hi, hlt, ha, hlast⟩, ?_⟩
    rintro ⟨lo', hi', hpart, hlt', ha', hlast⟩
    cases hpart with
    | whole => exact hlast
    | left _ hpart =>
      have := hpart.bounds (by omega)
      omega
    | right _ hpart =>
      have := hpart.bounds (by omega)
      omega
  | case2 lo hi hlt mid hne hless ih =>
    have hmid := (h.neg_iff mid (by omega)).1 hless
    rw [ih (by omega) hb hn]
    refine ⟨fun ⟨lo', hi', hpart, hrest⟩ => ⟨lo', hi', .right hlt hpart, hrest⟩, ?_⟩
    rintro ⟨lo', hi', hpart, hlt', ha', hlast⟩
    cases hpart with
    | whole => omega
    | left _ hpart =>
      have := hpart.bounds (by omega)
      omega
    | right _ hpart => exact ⟨lo', hi', hpart, hlt', ha', hlast⟩
  | case3 lo hi hlt mid hne hless ih =>
    have hmid := h.nonpos_iff mid (by omega)
    rw [ih ha (by omega) (by omega)]
    refine ⟨fun ⟨lo', hi', hpart, hrest⟩ => ⟨lo', hi', .left hlt hpart, hrest⟩, ?_⟩
    rintro ⟨lo', hi', hpart, hlt', ha', hlast⟩
    cases hpart with
    | whole => omega
    | left _ hpart => exact ⟨lo', hi', hpart, hlt', ha', hlast⟩
    | right _ hpart =>
      have := hpart.bounds (by omega)
      omega
  | case4 lo hi hge => omega

/-- **`binary_search_last` returns the last equal element exactly when it is the middle of a part
    of the bisection that begins at the first equal element or before it.** -/
theorem binarySearchLast_iff (hs : SortedFor cmp size) : (KeyOccurs cmp size →
      ((∃ n i, binarySearchLast cmp size n = some (true, i) ∧ IsLast cmp size i) ↔
        LastIsMiddle 0 size (Nat.count (cmp · < 0) size) (Nat.count (cmp · ≤ 0) size))) ∧
    (¬ KeyOccurs cmp size → ∀ n, binarySearchLast cmp size n = some (binarySearch cmp 0 size)) := by
  have h := hs.equalRun
  rw [h.keyOccurs_iff]
  generalize Nat.count (cmp · < 0) size = a at h ⊢
  generalize Nat.count (cmp · ≤ 0) size = b at h ⊢
  have hlen := h.le_size
  rcases h.search with ⟨i, heq, hi, hib⟩ | ⟨heq, hempty⟩
  · refine ⟨fun hab => ?_, fun hab => by omega⟩
    have hmiddle := h.loop_last_iff (Nat.zero_le a) hab hlen le_rfl
    have hplace : (binarySearchLoop cmp 0 size).2 = i := congrArg Prod.snd heq
    simp only [binarySearchLast, heq, h.isLast_iff hab, if_true]
    rw [← hmiddle, hplace]
    constructor
    · rintro ⟨n, j, hj, hlast⟩
      by_contra hne
      have hbefore := h.last (by omega) hj
      omega
    · intro hlast
      refine ⟨1, i, ?_, hlast⟩
      rw [binarySearchLastLoop, if_neg]
      rintro ⟨hne, hzero⟩
      rw [h.eq_zero_iff (by omega)] at hzero
      omega
  · refine ⟨fun hab => by omega, fun _ n => ?_⟩
    simp [binarySearchLast, heq]

/-- The second of two equal elements is in the middle of five; a key that does not occur is not
    found. -/
theorem binarySearchLast_iff_five :
    (∃ n i, binarySearchLast (compareAt [1, 3, 3, 5, 7] 3) 5 n = some (true, i) ∧
      IsLast (compareAt [1, 3, 3, 5, 7] 3) 5 i) ∧
    ∀ n, binarySearchLast (compareAt [1, 3, 3, 5, 7] 4) 5 n = some (false, 3) := by
  have hfound := (binarySearchLast_iff (sortedFor_compareAt [1, 3, 3, 5, 7] 3
    (by decide))).1 ⟨2, by decide, by decide⟩
  have hmissing := (binarySearchLast_iff (sortedFor_compareAt [1, 3, 3, 5, 7] 4
    (by decide))).2 (by unfold KeyOccurs; decide)
  have hsearch : binarySearch (compareAt [1, 3, 3, 5, 7] 4) 0 5 = (false, 3) := by
    simp [binarySearch, binarySearchLoop, compareAt]
  exact ⟨hfound.2 ⟨0, 5, .whole 0 5, by decide, by decide, by decide⟩,
    fun n => (hmissing n).trans (congrArg some hsearch)⟩

/-- With three equal elements the loop takes the places 1 and 0 in turn, for ever. -/
theorem binarySearchLast_endless : ¬ ∃ n, (binarySearchLast (fun _ => 0) 3 n).isSome := by
  rintro ⟨n, hn⟩
  have hloop : binarySearchLastLoop (fun _ => 0) 3 n (true, 1) = none ∧
      binarySearchLastLoop (fun _ => 0) 3 n (true, 0) = none := by
    clear hn
    induction n with
    | zero => exact ⟨rfl, rfl⟩
    | succ n ih => simpa [binarySearchLastLoop, binarySearch, binarySearchLoop] using ih.symm
  have hnone : binarySearchLast (fun _ => 0) 3 n = none := by
    simpa [binarySearchLast, binarySearch, binarySearchLoop] using hloop.1
  simp [hnone] at hn

end BinarySearch

end SolidFrame
