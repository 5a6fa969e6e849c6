/-
  SolidFrame formalization — the limits of the two ends
  (`solid/serialization/binary.hpp`, `solid/serialization/src/binary.cpp`).

  Each function that stores or loads a size compares it with a limit of its own.
  `store` of a string and `storeBits` let a size pass that reaches the limit,
  `loadBinaryStringCheck` and the functions that load bits refuse it.
-/
import SolidFrame.Serialization.DeserializerBounds
import SolidFrame.Serialization.RoundTrip

namespace SolidFrame

open SerializerBase

/-! ## What the two ends do -/

/-- A serializer with the limits `L` stores the object without an error: whatever the
    buffers, no call of `run` fails, and enough of them end with an empty stack. -/
def Stores (L : Limits) (t : Ty) (o : Obj) : Prop :=
  ∃ enough, ∀ bls : List ℕ, (∀ bl ∈ bls, 0 < bl) →
    ∃ ps s', (storingWith L t o).Calls bls ps s' ∧ s'.err = none ∧
      (enough < bls.length → s'.fstk = [])

/-- A deserializer with the limits `L` accepts the bytes for an object of the kind `t`: however
    they are cut, no call of `run` fails, and the last one ends with an empty stack. -/
def Accepts (tm : TypeMap) (L : Limits) (t : Ty) (out : List Byte) : Prop :=
  ∀ ps : List (List Byte), ps ≠ [] → ps.flatten = out →
    ∃ d', (DeserializerBase.loadingWith L t).Consumes tm ps d' ∧ d'.err = none ∧ d'.fstk = []

/-- No string has exactly `stringlimit` bytes, no bits are exactly `containerlimit` many, and
    elements of containers fit the buffer that they are loaded into. -/
def OffLimit (L : Limits) : Ty → Obj → Prop
  | .str, .str c => c.length ≠ L.stringlimit
  | .bitset _, .bits bs => bs.length ≠ L.containerlimit
  | .bitvec, .bits bs => bs.length ≠ L.containerlimit
  | .container _ size t, .seq os => (os ≠ [] → size ≤ maxGenericSize) ∧ ∀ o ∈ os, OffLimit L t o
  | .array _ _ t, .arr os n => ∀ o ∈ os.take n, OffLimit L t o
  | .pair t u, .pair a b => OffLimit L t a ∧ OffLimit L u b
  | .struct _ t, o => OffLimit L t o
  | _, _ => True

theorem loadable_iff {L : Limits} {t : Ty} {o : Obj} :
    Loadable L t o ↔ StoreWithin L t o ∧ OffLimit L t o := by
  induction t generalizing o with
  | str => cases o with
    | str c => exact Nat.lt_iff_le_and_ne
    | _ => exact iff_of_true trivial ⟨trivial, trivial⟩
  | utf8 => cases o with
    | str c => exact (and_iff_left trivial).symm
    | _ => exact iff_of_true trivial ⟨trivial, trivial⟩
  | bitset v => cases o with
    | bits bs => exact Nat.lt_iff_le_and_ne
    | _ => exact iff_of_true trivial ⟨trivial, trivial⟩
  | bitvec => cases o with
    | bits bs => exact Nat.lt_iff_le_and_ne
    | _ => exact iff_of_true trivial ⟨trivial, trivial⟩
  | container b size t ih => cases o with
    | seq os =>
      simp only [Loadable, StoreWithin, OffLimit, ih]
      grind
    | _ => exact iff_of_true trivial ⟨trivial, trivial⟩
  | array b cap t ih => cases o with
    | arr os n =>
      simp only [Loadable, StoreWithin, OffLimit, ih]
      grind
    | _ => exact iff_of_true trivial ⟨trivial, trivial⟩
  | pair t u iht ihu => cases o with
    | pair a b =>
      simp only [Loadable, StoreWithin, OffLimit, iht, ihu]
      exact and_and_and_comm
    | _ => exact iff_of_true trivial ⟨trivial, trivial⟩
  | struct mv t ih => exact ih
  | _ => cases o <;> exact iff_of_true trivial ⟨trivial, trivial⟩

/-! ## Serializer -/

variable {pl : List Wire} {s' : SerializerBase} {ps : List (List Byte)}

/-- A call of `run` that does not fail leaves a serializer that has the rest to send. -/
theorem Sending.of_runs {K : Quota} {n room : ℕ} {s : SerializerBase}
    {out : List Byte} (h : Sending K n s pl) (hrun : s.Runs room out s') :
    ∃ n' pl', Sending K n' s' pl' := by
  rcases h.runs_or_fails room with
    ⟨out1, s1, n1, pl1, hrun1, -, -, hsend, -⟩ | ⟨-, fuel1, s1, hfail⟩
  · obtain ⟨rfl, rfl⟩ := hrun.unique hrun1
    exact ⟨n1, pl1, hsend⟩
  · obtain ⟨fuel, hrun⟩ := hrun
    have hsame := (runLoop_mono hrun (Nat.le_max_left fuel fuel1)).symm.trans
      (runLoop_mono hfail (Nat.le_max_right fuel fuel1))
    cases hsame

theorem Sending.met_of_calls {K : Quota} {n : ℕ} {s : SerializerBase}
    {bls : List ℕ} (h : Sending K n s pl) (hcalls : s.Calls bls ps s')
    (hf : s'.fstk = []) : K.met := by
  induction hcalls generalizing n pl with
  | nil => exact (h.finished hf).2.2
  | cons hrun _ ih =>
    obtain ⟨n1, pl1, hsend⟩ := h.of_runs hrun
    exact ih hsend hf

variable {L : Limits} {t : Ty} {o : Obj}

/-- **The limits of a serializer.** -/
theorem stores_iff (ht : HasTy t o) (hfit : Fits t o) (hs : Streamless t) :
    Stores L t o ↔ StoreWithin L t o := by
  have hst : Storable ⟨L, StoreWithin L t o⟩ t o := ⟨ht, hfit, id, .inl hs⟩
  obtain ⟨n, hsend⟩ := sending_storingWith hst id
  obtain ⟨out, hout⟩ := exists_wire_eq_bytes hs o
  rw [hout] at hsend
  constructor
  · rintro ⟨enough, hcalls⟩
    obtain ⟨ps, s', hcalls, -, hdone⟩ := hcalls (List.replicate (enough + 1) 1)
      fun bl hbl => (List.eq_of_mem_replicate hbl) ▸ Nat.one_pos
    exact hsend.met_of_calls hcalls (hdone
      (by rw [List.length_replicate]; exact Nat.lt_succ_self _))
  · intro hin
    refine ⟨out.length, fun bls hbls => ?_⟩
    obtain ⟨ps, s', n', pl', hcalls, -, hsend', hdone⟩ :=
      hsend.calls hin fun bl hbl => ⟨hbls bl hbl, .inl ⟨out, rfl⟩⟩
    rw [weight_bytes] at hdone
    exact ⟨ps, s', hcalls, hsend'.err, hdone⟩

/-! ## Deserializer -/

/-- A call of `run` that takes a whole piece leaves a deserializer that expects the rest. -/
theorem Receives.of_runs {tm : TypeMap} {Q : Goal} {d d' : DeserializerBase} {pl' : List Wire}
    {p : List Byte} (h : Receives tm Q d pl) (hcut : Sent pl p pl')
    (hrun : d.Runs tm p p.length d') : Received tm Q d' pl' := by
  have hnil : ([] : List Byte) ≠ [] → pl' = [] := fun hne => absurd rfl hne
  obtain ⟨fuel, hrun⟩ := hrun
  rcases h.runs_or_refused hcut hnil with ⟨d1, ⟨fuel1, hrun1⟩, hrec⟩ | ⟨-, fuel1, r, hrun1, hr⟩
  · rw [List.append_nil] at hrun1
    cases DeserializerBase.runLoop_unique hrun hrun1
    exact hrec
  · rw [List.append_nil] at hrun1
    cases DeserializerBase.runLoop_unique hrun hrun1
    exact hr.elim

/-- Calls that take all that is sent and end with an empty stack have met the limits. -/
theorem Receives.met_of_consumes {tm : TypeMap} {Q : Goal} {d d' : DeserializerBase}
    (h : Receives tm Q d pl) (hne : ps ≠ [])
    (hcuts : Cuts Sendable streamChunk (store16 0) pl ps []) (hcons : d.Consumes tm ps d') :
    Q.met := by
  induction hcons generalizing pl with
  | nil => exact absurd rfl hne
  | cons hrun hrest ih =>
    cases hcuts with
    | cons hcut hcuts =>
      have hrec := h.of_runs hcut hrun
      cases hrest with
      | nil =>
        cases hcuts
        rcases hrec with ⟨-, hmet, -⟩ | ⟨hne, -⟩
        · exact hmet
        · exact absurd rfl hne
      | cons _ _ => exact ih hrec.receives (by simp) hcuts

/-- **The limits of a deserializer.** -/
theorem accepts_iff (tm : TypeMap) (ht : HasTy t o) (hfit : Fits t o) (hs : Streamless t)
    {out : List Byte} (hout : wire t o = bytes out) : Accepts tm L t out ↔ Loadable L t o := by
  have hrec : Receives tm ⟨L, Loadable L t o, False, fun _ => True⟩ (.loadingWith L t) (wire t o) :=
    receives_loadingWith ht hfit Iff.rfl False.elim (.inl hs) fun _ _ => trivial
  have hcuts : ∀ ps : List (List Byte), ps.flatten = out →
      Cuts Sendable streamChunk (store16 0) (bytes out) ps [] := fun ps hps =>
    Cuts.bytes_iff.2 ⟨[], by rw [hps, List.append_nil], rfl⟩
  rw [hout] at hrec
  constructor
  · intro h
    obtain ⟨d', hcons, -, -⟩ := h [out] (by simp) (by simp)
    exact hrec.met_of_consumes (by simp) (hcuts [out] (by simp)) hcons
  · intro hl ps hne hps
    obtain ⟨d', hcons, hclean, hrec'⟩ := hrec.consumes hl (hcuts ps hps)
    rcases hrec' hne with ⟨-, -, hf, -⟩ | ⟨hne', -⟩
    · exact ⟨d', hcons, hclean.err, hf⟩
    · exact absurd rfl hne'

/-! ## Agreement -/

theorem wire_eq_of_calls (ht : HasTy t o) (hfit : Fits t o) (hs : Streamless t) {bls : List ℕ}
    (hcalls : (storing t o).Calls bls ps s') (hf : s'.fstk = []) :
    wire t o = bytes ps.flatten := by
  obtain ⟨out, hout⟩ := exists_wire_eq_bytes hs o
  obtain ⟨n, hsend⟩ := sending_storing ht hfit
  rw [hout] at hsend ⊢
  clear ht hfit hs hout
  generalize storing t o = s at hcalls hsend
  induction hcalls generalizing n out with
  | nil => rw [(hsend.finished hf).1]; rfl
  | @cons s s1 s' bl p bls ps hrun _ ih =>
    obtain ⟨p', s1', n1, pl1, hrun', -, hcut, hsend1, -⟩ := hsend.runs trivial bl
    obtain ⟨rfl, rfl⟩ := hrun.unique hrun'
    obtain ⟨rest, rfl, rfl⟩ := Cut.bytes_iff.1 hcut
    have hrest := ih hf rest n1 hsend1
    rw [bytes_append, hrest, ← bytes_append, List.flatten_cons]

/-- **The limits agree**, on what an unlimited serializer stored for the object, exactly when
    nothing that is within the limits is on one of those that only the deserializer refuses. -/
theorem limits_agree_iff (tm : TypeMap) (L : Limits) (ht : HasTy t o) (hfit : Fits t o)
    (hs : Streamless t) {bls : List ℕ} {ps : List (List Byte)} {s' : SerializerBase}
    (hcalls : (storing t o).Calls bls ps s') (hf : s'.fstk = []) :
    (Stores L t o ↔ Accepts tm L t ps.flatten) ↔ (StoreWithin L t o → OffLimit L t o) := by
  rw [stores_iff ht hfit hs, accepts_iff tm ht hfit hs (wire_eq_of_calls ht hfit hs hcalls hf),
    loadable_iff]
  exact ⟨fun h hin => (h.1 hin).2, fun h => ⟨fun hin => ⟨hin, h hin⟩, And.left⟩⟩

/-- A list of strings, none of which reaches the limit of four bytes. -/
theorem limits_agree_strings : ∃ ps s', (storing (.container false 32 .str)
        (.seq [.str [104, 105], .str []])).Calls [64] ps s' ∧ s'.fstk = [] ∧
      (Stores ⟨4, 2, 0⟩ (.container false 32 .str) (.seq [.str [104, 105], .str []]) ↔
        Accepts (fun _ _ _ => .null) ⟨4, 2, 0⟩ (.container false 32 .str) ps.flatten) := by
  have ht : HasTy (.container false 32 .str) (.seq [.str [104, 105], .str []]) := by
    simp [HasTy]
  have hfit : Fits (.container false 32 .str) (.seq [.str [104, 105], .str []]) := by
    simp [Fits, maxValueWithoutCrc, Width.bits, Width.bytes, Width.crcBits]
  have hcalls : (storing (.container false 32 .str)
      (.seq [.str [104, 105], .str []])).Calls [64] _ _ := .cons ⟨32, rfl⟩ (.nil _)
  refine ⟨_, _, hcalls, rfl, ?_⟩
  exact (limits_agree_iff _ _ ht hfit trivial hcalls rfl).2 fun _ =>
    by simp [OffLimit, maxGenericSize]

/-- **A string on the limit**: two bytes with a `stringlimit` of two are stored, and what
    is stored for them is refused. -/
theorem string_at_limit_disagrees :
    ∃ ps s', (storing .str (.str [104, 105])).Calls [64] ps s' ∧ s'.fstk = [] ∧
      Stores ⟨2, 2, 0⟩ .str (.str [104, 105]) ∧
      ¬ Accepts (fun _ _ _ => .null) ⟨2, 2, 0⟩ .str ps.flatten := by
  have ht : HasTy .str (.str [104, 105]) := trivial
  have hfit : Fits .str (.str [104, 105]) := by
    simp [Fits, maxValueWithoutCrc, Width.bits, Width.bytes, Width.crcBits]
  have hcalls : (storing .str (.str [104, 105])).Calls [64] _ _ :=
    .cons ⟨32, rfl⟩ (.nil _)
  have hwire := wire_eq_of_calls ht hfit trivial hcalls rfl
  refine ⟨_, _, hcalls, rfl, (stores_iff ht hfit trivial).2 (Nat.le_refl 2), ?_⟩
  rw [accepts_iff _ ht hfit trivial hwire]
  exact Nat.lt_irrefl 2

end SolidFrame
