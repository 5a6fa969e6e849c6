/-
  SolidFrame formalization — malformed cross integers
  (`solid/serialization/src/binary.cpp`).

  `loadCross` compares the size that the first byte announces with the bytes that
  are there before it looks at that size.
-/
import SolidFrame.Serialization.DeserializerBounds
import SolidFrame.Serialization.RoundTrip

namespace SolidFrame

open List Nat

/-- The first byte of a cross integer is not a coded length, or codes a length that is
    larger than the width of the integer. -/
def Malformed (w : Width) (b : Byte) : Prop :=
  ∀ sz, checkValueWithCrc .w8 b.toNat = some sz → w.bytes < sz

theorem crossLoad_malformed {w : Width} {b : Byte} (h : Malformed w b) (rest : List Byte) :
    crossLoad w (b :: rest) = none := by
  cases hsz : checkValueWithCrc .w8 b.toNat with
  | none => simp only [crossLoad, hsz]
  | some sz => simp only [crossLoad, hsz, if_neg (not_le.2 (h sz hsz))]

namespace DeserializerBase
variable {tm : TypeMap} {d : DeserializerBase} {w : Width} {dst : Dst} {fs : List DFrame}
  {input rest : List Byte} {pos : ℕ} {b : Byte}

variable (tm) in
/-- The call of `run` ends in an error, and `tmpstr` does not grow beyond the largest cross
    integer. -/
def RejectsAtOnce (d : DeserializerBase) (input : List Byte) (pos : ℕ) : Prop :=
  ∃ fuel d', d.runLoop tm false input fuel pos = some (.failure d') ∧
    d'.tmpstr.length ≤ max d.tmpstr.length 9

theorem runLoop_loadCross (hf : d.fstk = .loadCross w dst :: fs) (hin : input.drop pos = b :: rest)
    (fuel : ℕ) :
    d.runLoop tm false input (fuel + 1) pos = match d.loadCross w dst fs (b :: rest) with
      | none => some .undefined
      | some (.cont, n, d') => d'.runLoop tm false input fuel (pos + n)
      | some (.success, n, d') =>
        runLoop tm false input fuel (pos + n) { d' with fstk := d'.fstk.tail }
      | some (.wait, n, d') => some (.done (pos + n) d')
      | some (.failure, _, d') => some (.failure d'.resetLimits) := by
  have hpos : pos - input.length = 0 := by
    have hlen := congrArg List.length hin
    rw [length_drop, length_cons] at hlen
    omega
  have hstep : d.step tm false 0 (b :: rest) = d.loadCross w dst fs (b :: rest) := by
    simp [step, hf]
  rw [runLoop, if_neg (by simp [hf]), hpos, hin]
  exact hstep ▸ rfl

theorem rejectsAtOnce_of_le (hf : d.fstk = .loadCross w dst :: fs)
    (hin : input.drop pos = b :: rest) (hbad : Malformed w b)
    (hle : announcedSize w b ≤ (b :: rest).length) : RejectsAtOnce tm d input pos := by
  refine ⟨1, { d with err := some .crossValueSmall }.resetLimits, ?_, le_max_left _ _⟩
  rw [runLoop_loadCross hf hin]
  simp only [loadCross, if_pos hle, crossLoad_malformed hbad, fail]

/-- A turn of `run` that goes on with an integer, when not all of its bytes are there. -/
theorem runLoop_loadCrossContinue {s : ℕ} (hf : d.fstk = .loadCrossContinue s :: fs)
    (hpos : pos ≤ input.length) (hlt : s + (input.length - pos) < d.tmpstr.length) (fuel : ℕ) :
    ∃ d', d.runLoop tm false input (fuel + 1) pos = some (.done input.length d') ∧
      d'.tmpstr.length = d.tmpstr.length := by
  have hread : min (d.tmpstr.length - s) (input.drop pos).length = input.length - pos := by
    rw [List.length_drop]
    omega
  have hstep : d.step tm false 0 (input.drop pos) = some (.wait, input.length - pos, { d with
        tmpstr := overwrite d.tmpstr s ((input.drop pos).take (input.length - pos))
        fstk := .loadCrossContinue (s + (input.length - pos)) :: fs }) := by
    simp only [step, hf, Nat.lt_irrefl, false_and, if_false, Bool.false_eq_true, loadCrossContinue,
      hread, if_pos hlt]
    rw [if_neg (by omega)]
  have hlen : s + ((input.drop pos).take (input.length - pos)).length ≤ d.tmpstr.length := by
    rw [List.length_take, List.length_drop]
    omega
  refine ⟨{ d with
    tmpstr := overwrite d.tmpstr s ((input.drop pos).take (input.length - pos))
    fstk := .loadCrossContinue (s + (input.length - pos)) :: fs }, ?_, overwrite_length hlen⟩
  rw [runLoop, if_neg (by simp [hf]), Nat.sub_eq_zero_of_le hpos, hstep]
  simp only [Nat.add_sub_cancel' hpos]

/-- Not all the bytes are there: the call ends and waits, with a `tmpstr` of the announced
    size. -/
theorem runLoop_waits (hf : d.fstk = .loadCross w dst :: fs) (hin : input.drop pos = b :: rest)
    (hlt : (b :: rest).length < announcedSize w b) (hne : announcedSize w b ≠ 2 ^ 64 - 1)
    (fuel : ℕ) : ∃ d', d.runLoop tm false input (fuel + 2) pos = some (.done input.length d') ∧
      d'.tmpstr.length = announcedSize w b := by
  rw [runLoop_loadCross hf hin]
  simp only [loadCross, if_neg (not_le.2 hlt), if_neg hne]
  set len := if w = .w8 then 1 else (b :: rest).length with hlen
  set d1 : DeserializerBase := { d with
    tmpstr := overwrite (resize d.tmpstr (announcedSize w b) 0) 0 ((b :: rest).take len)
    fstk := .loadCrossContinue len :: .loadCrossDone w dst :: fs } with hd1
  have hlenle : len ≤ (b :: rest).length := by
    rw [hlen, length_cons]
    split_ifs <;> omega
  have hinput : (b :: rest).length = input.length - pos := by rw [← hin, length_drop]
  have htmp : d1.tmpstr.length = announcedSize w b := by
    rw [hd1, overwrite_length, resize_length]
    rw [resize_length, length_take]
    omega
  have hpos : pos + len ≤ input.length := by
    have hone : 0 < (b :: rest).length := succ_pos _
    omega
  have hshort : len + (input.length - (pos + len)) < d1.tmpstr.length := by omega
  obtain ⟨d', hrun, hlen'⟩ := runLoop_loadCrossContinue rfl hpos hshort fuel
  exact ⟨d', hrun, hlen'.trans htmp⟩

theorem runLoop_throws (hf : d.fstk = .loadCross w dst :: fs) (hin : input.drop pos = b :: rest)
    (hlt : (b :: rest).length < announcedSize w b) (hthrow : announcedSize w b = 2 ^ 64 - 1)
    (fuel : ℕ) : d.runLoop tm false input (fuel + 1) pos = some .undefined := by
  rw [runLoop_loadCross hf hin]
  simp only [loadCross, if_neg (not_le.2 hlt), if_pos hthrow]

/-- **A malformed cross integer** is rejected in the call of `run` that sees its first byte
    exactly when all the bytes that this byte announces are there. -/
theorem rejectsAtOnce_iff (hf : d.fstk = .loadCross w dst :: fs)
    (hin : input.drop pos = b :: rest) (hbad : Malformed w b) :
    RejectsAtOnce tm d input pos ↔ announcedSize w b ≤ (b :: rest).length := by
  constructor
  · rintro ⟨fuel, d', hrun, -⟩
    by_contra hlt
    have hlt : (b :: rest).length < announcedSize w b := not_le.1 hlt
    have hmore : d.runLoop tm false input (fuel + 2) pos = some (.failure d') :=
      runLoop_mono hrun (le_add_right _ _)
    by_cases hthrow : announcedSize w b = 2 ^ 64 - 1
    · rw [runLoop_throws hf hin hlt hthrow] at hmore
      cases hmore
    · obtain ⟨d₁, hwait, -⟩ := runLoop_waits hf hin hlt hthrow fuel
      rw [hwait] at hmore
      cases hmore
  · exact rejectsAtOnce_of_le hf hin hbad

/-- A 16 bit integer: its first byte codes three bytes, and they are there. -/
theorem rejectsAtOnce_three_bytes : Malformed .w16 0x1a ∧
    RejectsAtOnce (fun _ _ _ => .null) (loading (.cross .w16)) [0x1a, 0, 0, 0] 0 := by
  have hbad : Malformed .w16 0x1a := by
    intro sz hsz
    obtain rfl : 3 = sz := Option.some.inj hsz
    decide
  exact ⟨hbad, (rejectsAtOnce_iff rfl rfl hbad).2 (by decide)⟩

/-- The first byte of a 32 bit integer is not a coded length: `run` waits, and `tmpstr` has
    4 GiB. -/
theorem invalid_prefix_waits : Malformed .w32 1 ∧
    ∃ d', (loading (.cross .w32)).runLoop (fun _ _ _ => .null) false [1] 2 0 =
      some (.done 1 d') ∧ d'.tmpstr.length = 2 ^ 32 - 1 := by
  have hnone : checkValueWithCrc .w8 (1 : Byte).toNat = none := by decide
  have hlt : [(1 : Byte)].length < announcedSize .w32 1 := by decide
  have hne : announcedSize .w32 1 ≠ 2 ^ 64 - 1 := by decide
  refine ⟨fun sz hsz => ?_, runLoop_waits rfl rfl hlt hne 0⟩
  rw [hnone] at hsz
  cases hsz

end DeserializerBase

end SolidFrame
