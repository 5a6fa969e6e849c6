/-
  Resumable transfer — what is left to be sent, and how it may be cut.

  A sender that is stopped and resumed at arbitrary buffer boundaries still has
  to send a list of `Wire` elements: single bytes, and chunked data.  Bytes may
  be cut anywhere.  Chunked data goes out as framed chunks of the sender's
  choice, then a stop mark; a cut never falls inside a frame.
-/
import SolidFrame.Lib.Bytes

namespace SolidFrame

/-- An element that is left to be sent. -/
inductive Wire where
  /-- one byte -/
  | byte (b : Byte)
  /-- data to be sent in chunks, then a stop mark -/
  | chunks (data : List Byte)

def bytes (bs : List Byte) : List Wire := bs.map .byte

@[simp] theorem bytes_nil : bytes [] = [] := rfl

@[simp] theorem bytes_cons (b : Byte) (bs : List Byte) :
    bytes (b :: bs) = .byte b :: bytes bs := rfl

theorem bytes_append (bs cs : List Byte) : bytes (bs ++ cs) = bytes bs ++ bytes cs :=
  List.map_append

theorem bytes_injective : Function.Injective bytes :=
  List.map_injective_iff.2 fun _ _ h => by injection h

section Cut
variable (valid : List Byte → Prop) (frame : List Byte → List Byte) (stop : List Byte)

/-- The piece `p` takes what is left from the first list to the second. -/
inductive Cut : List Wire → List Byte → List Wire → Prop where
  | nil (pl : List Wire) : Cut pl [] pl
  | byte {b pl pl' p} : Cut pl p pl' → Cut (.byte b :: pl) (b :: p) pl'
  | chunk {d e pl pl' p} :
      valid d →
      Cut (.chunks e :: pl) p pl' →
      Cut (.chunks (d ++ e) :: pl) (frame d ++ p) pl'
  | stop {pl pl' p} : Cut pl p pl' → Cut (.chunks [] :: pl) (stop ++ p) pl'

end Cut

variable {pl' : List Wire} {bs : List Byte}

namespace Cut
variable {valid : List Byte → Prop} {frame : List Byte → List Byte} {stop : List Byte}
variable {p : List Byte} {pl : List Wire}

theorem trans {pl'' : List Wire} {q : List Byte} (h : Cut valid frame stop pl p pl')
    (h' : Cut valid frame stop pl' q pl'') : Cut valid frame stop pl (p ++ q) pl'' := by
  induction h with
  | nil => exact h'
  | byte _ ih => exact .byte (ih h')
  | chunk hd _ ih => rw [List.append_assoc]; exact .chunk hd (ih h')
  | stop _ ih => rw [List.append_assoc]; exact .stop (ih h')

theorem bytes_append (p bs : List Byte) (pl : List Wire) :
    Cut valid frame stop (bytes (p ++ bs) ++ pl) p (bytes bs ++ pl) := by
  induction p with
  | nil => exact .nil _
  | cons b p ih => exact .byte ih

theorem bytes (bs : List Byte) (pl : List Wire) :
    Cut valid frame stop (SolidFrame.bytes bs ++ pl) bs pl := by
  have h : Cut valid frame stop (SolidFrame.bytes (bs ++ []) ++ pl) bs _ := bytes_append bs [] pl
  simpa using h

theorem bytes_cases
    (h : Cut valid frame stop (SolidFrame.bytes bs ++ pl) p pl') :
    (∃ q, p = bs ++ q ∧ Cut valid frame stop pl q pl') ∨
    (∃ bs', bs' ≠ [] ∧ bs = p ++ bs' ∧ pl' = SolidFrame.bytes bs' ++ pl) := by
  induction bs generalizing p with
  | nil => exact .inl ⟨p, rfl, h⟩
  | cons b bs ih =>
    cases h with
    | nil => exact .inr ⟨b :: bs, by simp, rfl, rfl⟩
    | byte h =>
      rcases ih h with ⟨q, rfl, hq⟩ | ⟨bs', hne, rfl, hpl⟩
      · exact .inl ⟨q, rfl, hq⟩
      · exact .inr ⟨bs', hne, rfl, hpl⟩

/-- A piece that starts at chunked data is empty, or starts with a framed chunk
    or with the stop mark. -/
theorem chunks_cases {d : List Byte}
    (h : Cut valid frame stop (.chunks d :: pl) p pl') :
    (p = [] ∧ pl' = .chunks d :: pl) ∨
    (∃ c e q, d = c ++ e ∧ valid c ∧ p = frame c ++ q ∧
      Cut valid frame stop (.chunks e :: pl) q pl') ∨
    (∃ q, d = [] ∧ p = stop ++ q ∧ Cut valid frame stop pl q pl') := by
  cases h with
  | nil => exact .inl ⟨rfl, rfl⟩
  | chunk hd h => exact .inr (.inl ⟨_, _, _, rfl, hd, rfl, h⟩)
  | stop h => exact .inr (.inr ⟨_, rfl, rfl, h⟩)

theorem bytes_iff :
    Cut valid frame stop (SolidFrame.bytes bs) p pl' ↔
      ∃ bs', bs = p ++ bs' ∧ pl' = SolidFrame.bytes bs' := by
  constructor
  · intro h
    rw [← List.append_nil (SolidFrame.bytes bs)] at h
    rcases bytes_cases h with ⟨q, rfl, hq⟩ | ⟨bs', -, rfl, rfl⟩
    · cases hq
      exact ⟨[], by simp, rfl⟩
    · exact ⟨bs', rfl, by simp⟩
  · rintro ⟨bs', rfl, rfl⟩
    have h : Cut valid frame stop (SolidFrame.bytes (p ++ bs') ++ []) p _ := bytes_append p bs' []
    simpa using h

end Cut

/-! ## Successive pieces -/

/-- The pieces, one after the other, take what is left from the first list to the
    second. -/
inductive Cuts (valid : List Byte → Prop) (frame : List Byte → List Byte) (stop : List Byte) :
    List Wire → List (List Byte) → List Wire → Prop where
  | nil (pl : List Wire) : Cuts valid frame stop pl [] pl
  | cons {pl pl₁ pl' p ps} :
      Cut valid frame stop pl p pl₁ →
      Cuts valid frame stop pl₁ ps pl' →
      Cuts valid frame stop pl (p :: ps) pl'

theorem Cuts.bytes_iff {valid : List Byte → Prop} {frame : List Byte → List Byte}
    {stop : List Byte} {ps : List (List Byte)} :
    Cuts valid frame stop (bytes bs) ps pl' ↔ ∃ bs', bs = ps.flatten ++ bs' ∧ pl' = bytes bs' := by
  induction ps generalizing bs with
  | nil =>
    constructor
    · rintro ⟨⟩
      exact ⟨bs, rfl, rfl⟩
    · rintro ⟨bs', rfl, rfl⟩
      exact .nil _
  | cons p ps ih =>
    constructor
    · rintro (_ | ⟨hp, hps⟩)
      obtain ⟨bs1, rfl, rfl⟩ := Cut.bytes_iff.1 hp
      obtain ⟨bs', rfl, rfl⟩ := ih.1 hps
      exact ⟨bs', by simp, rfl⟩
    · rintro ⟨bs', rfl, rfl⟩
      refine .cons (Cut.bytes_iff.2 ⟨ps.flatten ++ bs', by simp, rfl⟩) (ih.2 ⟨bs', rfl, rfl⟩)

/-! ## Progress -/

/-- The number of pieces with a byte in them that an element can be cut into. -/
def Wire.weight : Wire → ℕ
  | .byte _ => 1
  | .chunks d => d.length + 1

def weight (pl : List Wire) : ℕ := (pl.map Wire.weight).sum

@[simp] theorem weight_nil : weight [] = 0 := rfl

@[simp] theorem weight_cons (x : Wire) (pl : List Wire) : weight (x :: pl) = x.weight + weight pl :=
  List.sum_cons

theorem weight_bytes (bs : List Byte) : weight (bytes bs) = bs.length := by
  induction bs with
  | nil => rfl
  | cons b bs ih => rw [bytes_cons, weight_cons, ih, List.length_cons, Wire.weight, Nat.add_comm]

section Weight
variable {valid : List Byte → Prop} {frame : List Byte → List Byte} {stop : List Byte}
  {pl pl' : List Wire} {p : List Byte}

theorem Cut.weight_le (h : Cut valid frame stop pl p pl') : weight pl' ≤ weight pl := by
  induction h with
  | nil => exact Nat.le_refl _
  | byte _ ih => rw [weight_cons]; omega
  | chunk _ _ ih =>
    simp only [weight_cons, Wire.weight, List.length_append] at ih ⊢
    omega
  | stop _ ih => rw [weight_cons]; omega

theorem Cut.weight_lt (hvalid : ∀ d, valid d → d ≠ []) (h : Cut valid frame stop pl p pl')
    (hp : p ≠ []) : weight pl' < weight pl := by
  cases h with
  | nil => exact absurd rfl hp
  | byte h =>
    have := h.weight_le
    simp only [weight_cons, Wire.weight]
    omega
  | chunk hd h =>
    have hlen := List.length_pos_iff.2 (hvalid _ hd)
    have := h.weight_le
    simp only [weight_cons, Wire.weight, List.length_append] at this ⊢
    omega
  | stop h =>
    have := h.weight_le
    simp only [weight_cons, Wire.weight]
    omega

end Weight

end SolidFrame
