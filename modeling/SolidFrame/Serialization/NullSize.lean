/-
  SolidFrame formalization — the size that stands for a null pointer
  (`loadContainerBegin`, `loadArray` in `solid/serialization/binary.hpp`).

  A sender announces a container or an array that is a null pointer by the size
  `InvalidSize()`, all ones.  The receiver stores a null pointer at the address it
  loads to and only asserts that the address is the one of a pointer.
-/
import SolidFrame.Serialization.Deserializer

namespace SolidFrame

open DeserializerBase

/-- A target whose size is on top of `estk`. -/
inductive Sized where
  | container (byPtr : Bool) (size : ℕ) (t : Ty) (l : Loc)
  | array (byPtr : Bool) (t : Ty) (l : Loc)

namespace Sized
variable (tm : TypeMap) (x : Sized) (v : ℕ) (d : DeserializerBase)

def frame : Sized → DFrame
  | .container b size t l => .loadContainerBegin b size t l
  | .array b t l => .loadArray b t l

def ext : Sized → DExt
  | .container .. => .val v none
  | .array .. => .vals v 0

def byPtr : Sized → Bool
  | .container b .. => b
  | .array b .. => b

def loc : Sized → Loc
  | .container _ _ _ l => l
  | .array _ _ l => l

/-- The deserializer when the size `v` of `x` has arrived, over what is left to
    load in `d`. -/
def received : DeserializerBase :=
  { d with fstk := x.frame :: d.fstk, estk := x.ext v :: d.estk }

/-- The size of a null pointer is an error for a target by reference, and no object
    changes. -/
def RejectsNull (past : ℕ) (avail : List Byte) : Prop :=
  x.byPtr = false → v = invalidSize →
    ∃ n d', (x.received v d).step tm false past avail = some (.failure, n, d') ∧
      d'.err ≠ none ∧ d'.mem = d.mem

@[simp] theorem checkSize_invalidSize (e : SerError) : checkSize invalidSize e = .ok invalidSize :=
  if_pos rfl

/-- However the target was pushed, the size of a null pointer overwrites it with a
    null pointer, and the load goes on. -/
theorem step_null (past : ℕ) (avail : List Byte) :
    (x.received invalidSize d).step tm false past avail = some (.success, 0,
      { d with fstk := x.frame :: d.fstk, mem := d.mem.set x.loc (.ptr none) }) := by
  cases x with
  | container b size t l =>
    simp [received, frame, ext, loc, step, reads, loadContainerBegin, popSuccess, popExt]
  | array b t l =>
    simp [received, frame, ext, loc, step, reads, loadArray, popSuccess, popExt]

/-- **Null sizes.**  For every target, at any depth of the load and on any input: the
    size of a null pointer is rejected where it must be just when it does not arrive
    for a target by reference. -/
theorem rejectsNull_iff (past : ℕ) (avail : List Byte) :
    x.RejectsNull tm v d past avail ↔ (x.byPtr = true ∨ v ≠ invalidSize) := by
  constructor
  · intro h
    by_contra hcon
    obtain ⟨hptr, hv⟩ := not_or.1 hcon
    obtain rfl : v = invalidSize := not_not.1 hv
    obtain ⟨n, d', hstep, -⟩ := h (Bool.not_eq_true _ ▸ hptr) rfl
    -- the size is taken, the function succeeds
    rw [x.step_null tm d past avail] at hstep
    cases hstep
  · rintro (hptr | hv) href hnull
    · rw [hptr] at href
      cases href
    · exact absurd hnull hv

/-- A vector of 8-bit integers, pushed by reference, and the nine bytes of the size
    `2 ^ 64 - 1`: `run` takes all of them, reports no error, and the vector is a null
    pointer. -/
theorem rejectsNull_vector : ∃ n d, Runs (fun _ _ _ => .undefined)
        ((new {} [.seq []]).push (.container false 1 (.int .w8)) ⟨.user 0, []⟩)
        (crossBytes .w64 invalidSize) n d ∧
      n = 9 ∧ d.fstk = [] ∧ d.estk = [] ∧ d.err = none ∧ d.mem.user = [.ptr none] :=
  ⟨_, _, ⟨10, rfl⟩, rfl, rfl, rfl, rfl, rfl⟩

end Sized

end SolidFrame
