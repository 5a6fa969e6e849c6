/-
  SolidFrame formalization — reading and writing temporary files
  (`TempFile` in `solid/frame/file/src/filestore.cpp`).

  A temporary file is made with a size that its storage has reserved for it
  (`doPrepareOpenTemp`), and `read` and `write` are to stay below that size.  The
  length of a request is an unsigned 32-bit number, its offset a signed 64-bit one
  and the size an unsigned 64-bit one; the arithmetic is done on 64 bits, with the
  comparison of the end signed and the subtraction unsigned.
-/
import SolidFrame.File.TempStore

namespace SolidFrame

/-- What `read` and `write` do: a call of the device, with a length and an offset, or
    a return of -1, with `errno` set to `ENOSPC` or not. -/
inductive TempIo where
  | device (bl : UInt32) (off : Int64)
  | failed (noSpace : Bool)
  deriving DecidableEq

namespace TempBase

def clampLength (tempsize : UInt64) (bl : UInt32) (off : Int64) : Option UInt32 :=
  let endoff := off + bl.toUInt64.toInt64
  if tempsize.toInt64 < endoff then
    if endoff.toUInt64 - tempsize ≤ bl.toUInt64 then some (endoff.toUInt64 - tempsize).toUInt32
    else none
  else some bl

/-- `TempFile::read`.  The kind is not looked at: a `TempMemory` gives the call to its
    `MemoryFile`. -/
def read (temp : TempBase) (bl : UInt32) (off : Int64) : TempIo :=
  match clampLength temp.tempsize bl off with
  | some bl => .device bl off
  | none => .failed false

/-- `TempFile::write` -/
def write (temp : TempBase) (bl : UInt32) (off : Int64) : TempIo :=
  match clampLength temp.tempsize bl off with
  | some bl => .device bl off
  | none => .failed true

/-- The quota of a file, for a request with an offset that is not negative: a request
    that begins in the file passes on what fits, one that begins after it fails, and no
    byte after the end is accessed. -/
structure Respects (tempsize : UInt64) (bl : UInt32) (off : Int64) (io : TempIo) : Prop where
  inside : off.toInt < tempsize.toNat →
    ∃ n, io = .device n off ∧ (n.toNat : ℤ) = min (bl.toNat : ℤ) (tempsize.toNat - off.toInt)
  outside : tempsize.toNat ≤ off.toInt → 0 < bl.toNat → ∃ noSpace, io = .failed noSpace
  below : ∀ n o, io = .device n o → ∀ k < n.toNat, o.toInt + k < tempsize.toNat

/-! ## Arithmetic -/

theorem toInt_toInt64 (t : UInt64) :
    t.toInt64.toInt = if t.toNat < 2 ^ 63 then (t.toNat : ℤ) else t.toNat - 2 ^ 64 := by
  have h : t.toInt64.toInt = t.toBitVec.toInt := rfl
  have hnat : t.toBitVec.toNat = t.toNat := rfl
  rw [h, BitVec.toInt_eq_toNat_cond, hnat]
  split_ifs <;> omega

theorem toNat_toUInt64 (a : Int64) :
    (a.toUInt64.toNat : ℤ) = if 0 ≤ a.toInt then a.toInt else a.toInt + 2 ^ 64 := by
  have h : a.toInt = a.toBitVec.toInt := rfl
  have hnat : a.toUInt64.toNat = a.toBitVec.toNat := rfl
  have hlt := a.toBitVec.isLt
  rw [h, hnat, BitVec.toInt_eq_toNat_cond]
  split_ifs <;> omega

section

variable {tempsize : UInt64} {bl : UInt32} {off : Int64}

theorem toInt_endoff (hoff : 0 ≤ off.toInt) : (off + bl.toUInt64.toInt64).toInt =
      if off.toInt + bl.toNat < 2 ^ 63 then off.toInt + bl.toNat
      else off.toInt + bl.toNat - 2 ^ 64 := by
  have hbl := bl.toNat_lt
  have hoff' : off.toInt < 2 ^ 63 := off.toInt_lt
  rw [Int64.toInt_add, toInt_toInt64, UInt32.toNat_toUInt64, if_pos (by omega)]
  split_ifs with h
  · exact Int.bmod_eq_of_le (by omega) (by omega)
  · rw [Int.bmod_def, Int.emod_eq_of_lt (by omega) (by omega), if_neg (by omega)]
    omega

theorem toNat_endoff (hoff : 0 ≤ off.toInt) :
    ((off + bl.toUInt64.toInt64).toUInt64.toNat : ℤ) = off.toInt + bl.toNat := by
  have hbl := bl.toNat_lt
  have hoff' : off.toInt < 2 ^ 63 := off.toInt_lt
  rw [toNat_toUInt64, toInt_endoff hoff]
  split_ifs <;> omega

theorem past_iff (hoff : 0 ≤ off.toInt) : tempsize.toInt64 < off + bl.toUInt64.toInt64 ↔
      (off.toInt + bl.toNat < 2 ^ 63 ∧ 2 ^ 63 ≤ tempsize.toNat) ∨
      (tempsize.toNat < off.toInt + bl.toNat ∧
        (off.toInt + bl.toNat < 2 ^ 63 ↔ tempsize.toNat < 2 ^ 63)) := by
  have hbl := bl.toNat_lt
  have hoff' : off.toInt < 2 ^ 63 := off.toInt_lt
  have htemp := tempsize.toNat_lt
  rw [Int64.lt_iff_toInt_lt, toInt_toInt64, toInt_endoff hoff]
  split_ifs <;> omega

/-- The length that is left, if the end of the request is after the end of the file. -/
theorem toNat_rest (hoff : 0 ≤ off.toInt) :
    (((off + bl.toUInt64.toInt64).toUInt64 - tempsize).toNat : ℤ) =
      if tempsize.toNat ≤ off.toInt + bl.toNat then off.toInt + bl.toNat - tempsize.toNat
      else off.toInt + bl.toNat - tempsize.toNat + 2 ^ 64 := by
  have hbl := bl.toNat_lt
  have hoff' : off.toInt < 2 ^ 63 := off.toInt_lt
  have htemp := tempsize.toNat_lt
  have hend := @toNat_endoff bl off hoff
  rw [UInt64.toNat_sub]
  split_ifs <;> omega

/-! ## The quota -/

/-- The request does not overflow, or the file is as large, and: it ends in the file,
    begins after it, or is half in it. -/
def Fits (tempsize : UInt64) (bl : UInt32) (off : Int64) : Prop :=
  (tempsize.toNat < 2 ^ 63 ↔ off.toInt + bl.toNat < 2 ^ 63) ∧
    (off.toInt + bl.toNat ≤ tempsize.toNat ∨ tempsize.toNat < off.toInt ∨
      (bl.toNat : ℤ) = 2 * (tempsize.toNat - off.toInt))

theorem respects_device_iff {n : UInt32} : Respects tempsize bl off (.device n off) ↔
      (off.toInt < tempsize.toNat →
        (n.toNat : ℤ) = min (bl.toNat : ℤ) (tempsize.toNat - off.toInt)) ∧
      (tempsize.toNat ≤ off.toInt → bl.toNat = 0 ∧ n.toNat = 0) := by
  constructor
  · intro h
    refine ⟨fun hlt => ?_, fun hle => ⟨?_, ?_⟩⟩
    · obtain ⟨n', hn', hmin⟩ := h.inside hlt
      obtain ⟨rfl, -⟩ := TempIo.device.inj hn'
      exact hmin
    · by_contra hpos
      obtain ⟨noSpace, hfailed⟩ := h.outside hle (by omega)
      cases hfailed
    · by_contra hpos
      have hfirst := h.below n off rfl 0 (by omega)
      omega
  · rintro ⟨hinside, houtside⟩
    refine ⟨fun hlt => ⟨n, rfl, hinside hlt⟩, fun hle hpos => ?_, fun n' o hn' k hk => ?_⟩
    · have hzero := (houtside hle).1
      omega
    · obtain ⟨rfl, rfl⟩ := TempIo.device.inj hn'
      by_cases hlt : off.toInt < tempsize.toNat
      · have hmin := hinside hlt
        omega
      · have hzero := (houtside (by omega)).2
        omega

theorem respects_failed_iff {noSpace : Bool} :
    Respects tempsize bl off (.failed noSpace) ↔ tempsize.toNat ≤ off.toInt := by
  constructor
  · intro h
    by_contra hlt
    obtain ⟨n, hn, -⟩ := h.inside (by omega)
    cases hn
  · intro h
    exact ⟨fun hlt => by omega, fun _ _ => ⟨noSpace, rfl⟩, fun n o hn => by cases hn⟩

theorem respects_clamp_iff (hoff : 0 ≤ off.toInt) (noSpace : Bool) : Respects tempsize bl off
      (match clampLength tempsize bl off with
        | some n => .device n off
        | none => .failed noSpace) ↔ Fits tempsize bl off := by
  have hbl := bl.toNat_lt
  have hoff' : off.toInt < 2 ^ 63 := off.toInt_lt
  have htemp := tempsize.toNat_lt
  have hpast := @past_iff tempsize bl off hoff
  have hrest := @toNat_rest tempsize bl off hoff
  unfold clampLength Fits
  dsimp only
  by_cases hp : tempsize.toInt64 < off + bl.toUInt64.toInt64
  · rw [if_pos hp]
    rw [iff_true_left hp] at hpast
    by_cases hle : (off + bl.toUInt64.toInt64).toUInt64 - tempsize ≤ bl.toUInt64
    · rw [if_pos hle]
      dsimp only
      rw [respects_device_iff, UInt64.toNat_toUInt32]
      rw [UInt64.le_iff_toNat_le, UInt32.toNat_toUInt64] at hle
      rw [Nat.mod_eq_of_lt (by omega)]
      split_ifs at hrest <;> omega
    · rw [if_neg hle]
      dsimp only
      rw [respects_failed_iff]
      rw [UInt64.le_iff_toNat_le, UInt32.toNat_toUInt64] at hle
      split_ifs at hrest <;> omega
  · rw [if_neg hp]
    dsimp only
    rw [respects_device_iff]
    rw [iff_false_left hp] at hpast
    omega

/-- **The quota of temporary files.**  For every size of the file, every length and every
    offset that is not negative, `read` and `write` respect the quota exactly if the
    request `Fits`. -/
theorem respects_iff (temp : TempBase) (bl : UInt32) (off : Int64) (hoff : 0 ≤ off.toInt) :
    (Respects temp.tempsize bl off (temp.read bl off) ↔ Fits temp.tempsize bl off) ∧
      (Respects temp.tempsize bl off (temp.write bl off) ↔ Fits temp.tempsize bl off) :=
  ⟨respects_clamp_iff hoff false, respects_clamp_iff hoff true⟩

end

/-- A request that ends with the file. -/
theorem respects_whole : Respects 100 40 60 (read ⟨0, 0, 100, .file⟩ 40 60) :=
  (respects_iff ⟨0, 0, 100, .file⟩ 40 60 (by decide)).1.2 ⟨by decide, .inl (by decide)⟩

/-- A file of 100 bytes: of 30 bytes at 90 the 20 bytes that do not fit are read instead of
    the 10 that do, and 30 bytes are written at the end. -/
theorem quota_exceeded :
    (read ⟨0, 0, 100, .file⟩ 30 90 = .device 20 90 ∧ ¬ Respects 100 30 90 (.device 20 90)) ∧
      (write ⟨0, 0, 100, .file⟩ 30 100 = .device 30 100 ∧
        ¬ Respects 100 30 100 (.device 30 100)) := by
  refine ⟨⟨by decide, fun h => ?_⟩, ⟨by decide, fun h => ?_⟩⟩
  · exact absurd ((respects_device_iff.1 h).1 (by decide)) (by decide)
  · exact absurd ((respects_device_iff.1 h).2 (by decide)).1 (by decide)

end TempBase

end SolidFrame
