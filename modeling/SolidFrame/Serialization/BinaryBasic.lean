/-
  SolidFrame formalization — basic binary encodings
  (`solid/serialization/binarybasic.hpp`, `src/binarybasic.cpp`).

  A cross integer is one byte that holds, with its bit count, the number of
  bytes that follow, then those bytes least significant first.
-/
import SolidFrame.Utility.Algorithm

namespace SolidFrame

/-! ## Definitions -/

/-- `crossSize(const char*)`; `none` is the result `-1`. -/
def crossSizePtr (b : Byte) : Option ℕ := (checkValueWithCrc .w8 b.toNat).map (· + 1)

def crossSize (w : Width) (v : ℕ) : ℕ := maxPaddedByteCout w v + 1

/-- `crossStore(_pd, _v)`: the bytes stored; `none` is the result `nullptr`. -/
def crossStore (w : Width) (v : ℕ) : Option (List Byte) :=
  let sz := maxPaddedByteCout w v
  match computeValueWithCrc .w8 (sz % 256) with
  | some c => if sz ≤ w.bytes then some (UInt8.ofNat c :: leBytes sz v) else none
  | none => none

/-- `crossLoad(_ps, _val)`: the value and the number of bytes passed; `none` is
    the result `nullptr`. -/
def crossLoad (w : Width) : List Byte → Option (ℕ × ℕ)
  | [] => none
  | b :: ps =>
    match checkValueWithCrc .w8 b.toNat with
    | some sz => if sz ≤ w.bytes then some (leNat (ps.take sz), sz + 1) else none
    | none => none

/-- `store(_pd, uint16_t)`: most significant byte first. -/
def store16 (v : ℕ) : List Byte := beBytes 2 v

def load16 (ps : List Byte) : ℕ := beNat (ps.take 2)

/-! ## Round trip -/

/-- The first byte of a cross integer of `sz` bytes. -/
def crossHead (sz : ℕ) : Byte := UInt8.ofNat (bitCount8 sz ||| sz <<< 3)

def crossBytes (w : Width) (v : ℕ) : List Byte :=
  crossHead (maxPaddedByteCout w v) :: leBytes (maxPaddedByteCout w v) v

@[simp] theorem crossBytes_length (w : Width) (v : ℕ) :
    (crossBytes w v).length = crossSize w v := by
  simp [crossBytes, crossSize]

theorem Width.bytes_le (w : Width) : w.bytes ≤ 8 := by
  cases w <;> decide

variable {v : ℕ} {w w' : Width}

theorem crossStore_eq (h : v < w.bound) : crossStore w v = some (crossBytes w v) := by
  have hle := maxPaddedByteCout_le h
  have h8 := w.bytes_le
  have hmod : maxPaddedByteCout w v % 256 = maxPaddedByteCout w v := Nat.mod_eq_of_lt (by omega)
  have hc : computeValueWithCrc .w8 (maxPaddedByteCout w v) =
      some (bitCount8 (maxPaddedByteCout w v) ||| maxPaddedByteCout w v <<< 3) :=
    if_pos (show maxPaddedByteCout w v < 2 ^ 5 by omega)
  simp only [crossStore, hmod, hc, if_pos hle, crossBytes, crossHead]

theorem checkValueWithCrc_crossHead {sz : ℕ} (h : sz ≤ 8) :
    checkValueWithCrc .w8 (crossHead sz).toNat = some sz := by
  have hc : computeValueWithCrc .w8 sz = some (bitCount8 sz ||| sz <<< 3) :=
    if_pos (show sz < 2 ^ 5 by omega)
  have hlt := computeValueWithCrc_lt hc
  rw [crossHead, toNat_ofNat_byte, Nat.mod_eq_of_lt (show _ < 256 from hlt)]
  exact checkValueWithCrc_compute hc

theorem crossSizePtr_crossHead (h : v < w.bound) :
    crossSizePtr (crossHead (maxPaddedByteCout w v)) = some (crossSize w v) := by
  have hle := maxPaddedByteCout_le h
  have h8 := w.bytes_le
  rw [crossSizePtr, checkValueWithCrc_crossHead (by omega)]
  rfl

/-- **Cross integers round trip**, also into another type that can hold them. -/
theorem crossLoad_crossBytes (h : v < w.bound)
    (h' : maxPaddedByteCout w v ≤ w'.bytes) (rest : List Byte) :
    crossLoad w' (crossBytes w v ++ rest) = some (v, crossSize w v) := by
  have hle := maxPaddedByteCout_le h
  have h8 := w.bytes_le
  have htake : (leBytes (maxPaddedByteCout w v) v ++ rest).take (maxPaddedByteCout w v) =
      leBytes (maxPaddedByteCout w v) v := List.take_left' (leBytes_length _ _)
  simp only [crossBytes, List.cons_append, crossLoad, checkValueWithCrc_crossHead
    (show maxPaddedByteCout w v ≤ 8 by omega), if_pos h', htake,
    leNat_leBytes (lt_pow_maxPaddedByteCout h), crossSize]

@[simp] theorem store16_length (v : ℕ) : (store16 v).length = 2 := by
  simp [store16]

theorem load16_store16 (h : v < 2 ^ 16) (rest : List Byte) : load16 (store16 v ++ rest) = v := by
  rw [load16, store16, List.take_left' (beBytes_length 2 v), beNat_beBytes (by simpa using h)]

/-! ## Widths -/

theorem maxPaddedByteCout_le_iff (h : v < w.bound) :
    maxPaddedByteCout w v ≤ w'.bytes ↔ v < w'.bound := by
  rw [maxPaddedByteCout_eq h, Width.bound, ← Nat.size_le, Width.bits]
  omega

theorem crossBytes_width (h : v < w.bound) (h' : v < w'.bound) :
    crossBytes w v = crossBytes w' v := by
  simp only [crossBytes, maxPaddedByteCout_eq h, maxPaddedByteCout_eq h']

/-- **Cross integers are canonical across widths.**  A value is stored as the same
    `crossSize` bytes from every type that can hold it, the first of them announces
    that size, and loading them gives the value and their end in every type that can
    hold it and fails in every other. -/
theorem cross_canonical {w w' : Width} {v : ℕ} (h : v < w.bound) (rest : List Byte) :
    ∃ b bs, crossStore w v = some (b :: bs) ∧ (b :: bs).length = crossSize w v ∧
      (∀ w'' : Width, v < w''.bound → crossStore w'' v = some (b :: bs)) ∧
      crossSizePtr b = some (crossSize w v) ∧
      crossLoad w' (b :: bs ++ rest) = if v < w'.bound then some (v, crossSize w v) else none := by
  refine ⟨_, _, crossStore_eq h, crossBytes_length w v, ?_, crossSizePtr_crossHead h, ?_⟩
  · intro w'' h''
    rw [crossStore_eq h'', crossBytes_width h'' h]
    rfl
  · split_ifs with hfits
    · exact crossLoad_crossBytes h ((maxPaddedByteCout_le_iff h).2 hfits) rest
    · have h8 : maxPaddedByteCout w v ≤ 8 := Nat.le_trans (maxPaddedByteCout_le h) w.bytes_le
      have hlong := mt (maxPaddedByteCout_le_iff h).1 hfits
      simp only [List.cons_append, crossLoad, checkValueWithCrc_crossHead h8, if_neg hlong]

/-- 300 does not fit `uint8_t`. -/
theorem cross_canonical_300 :
    ∃ b bs, crossStore .w32 300 = some (b :: bs) ∧ (b :: bs).length = crossSize .w32 300 ∧
      (∀ w'' : Width, 300 < w''.bound → crossStore w'' 300 = some (b :: bs)) ∧
      crossSizePtr b = some (crossSize .w32 300) ∧
      crossLoad .w8 (b :: bs ++ []) =
        if 300 < Width.w8.bound then some (300, crossSize .w32 300) else none :=
  cross_canonical (by decide) []

end SolidFrame
