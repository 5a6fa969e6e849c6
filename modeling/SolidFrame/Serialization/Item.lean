/-
  SolidFrame formalization — what can be scheduled on a binary serializer
  (`solid/serialization/binary.hpp`).

  A `Ty` says which `push…` calls are made for an object, an `Obj` is the
  object in memory; the same `Ty` drives both sides, as one `serialize`
  function of the source does.
-/
import SolidFrame.Lib.Wire
import SolidFrame.Lib.Overwrite
import SolidFrame.Serialization.BinaryBasic

namespace SolidFrame

/-- `InvalidSize()` and `-1ULL`: no size, no limit. -/
def invalidSize : ℕ := 2 ^ 64 - 1

/-! ## Streams -/

/-- A `std::istream`: its content, the read position, and whether `fail()`
    holds. -/
structure IStream where
  content : List Byte
  pos : ℕ
  fail : Bool

namespace IStream

/-- `seekg(_p)`: a failed stream stays as it is. -/
def seekg (s : IStream) (p : ℕ) : IStream :=
  if s.fail then s
  else if p ≤ s.content.length then { s with pos := p } else { s with fail := true }

/-- `tellg()`; `none` is the result `-1`. -/
def tellg (s : IStream) : Option ℕ := if s.fail then none else some s.pos

/-- `read(_p, _n)` with the bytes counted by `gcount()`: fewer than `n` fail the
    stream. -/
def read (s : IStream) (n : ℕ) : List Byte × IStream :=
  let d := (s.content.drop s.pos).take n
  (d, { s with pos := s.pos + d.length, fail := decide (d.length < n) })

def rest (s : IStream) : List Byte := if s.fail then [] else s.content.drop s.pos

end IStream

/-- A `std::ostream`: what was written, the write position, the size it can grow
    to (`none` when unlimited), and whether `fail()` holds. -/
structure OStream where
  content : List Byte := []
  pos : ℕ := 0
  capacity : Option ℕ := none
  fail : Bool := false
  deriving DecidableEq

namespace OStream

def seekp (s : OStream) (p : ℕ) : OStream :=
  if s.fail then s
  else if p ≤ s.content.length then { s with pos := p } else { s with fail := true }

/-- `tellp()`; `none` is the result `-1`. -/
def tellp (s : OStream) : Option ℕ := if s.fail then none else some s.pos

def write (s : OStream) (d : List Byte) : OStream :=
  if s.fail then s
  else if s.capacity.all (s.pos + d.length ≤ ·) then
    { s with content := overwrite s.content s.pos d, pos := s.pos + d.length }
  else { s with fail := true }

/-- A stream that received the bytes from its start on. -/
def received (d : List Byte) : OStream := { content := d, pos := d.length }

end OStream

/-! ## Objects and types -/

/-- `Base::Errors`, and the errors of the type map. -/
inductive SerError where
  | arrayLimit | arrayMaxLimit | bitsetSize | containerLimit | containerMaxLimit
  | streamLimit | streamChunkMaxLimit | streamSeek | streamRead | streamWrite | streamSender
  | stringLimit | stringMaxLimit | utf8Limit | utf8MaxLimit | pointerUnknown | reinit
  | noTypeMap | deserializeValue | crossValueSmall | noCast | noType
  deriving DecidableEq, Repr

/-- The calls made on a serializer or a deserializer for an object. -/
inductive Ty where
  /-- `push(bool&)` -/
  | bool
  /-- `push(intN_t&)`, `push(uintN_t&)` -/
  | int (w : Width)
  /-- `push(std::string&)` -/
  | str
  /-- `pushUtf8` -/
  | utf8
  /-- `pushCross` -/
  | cross (w : Width)
  /-- `pushBinary`, `push(std::array<uint8_t, V>&)` -/
  | binary (n : ℕ)
  /-- `push(std::bitset<V>&)` -/
  | bitset (v : ℕ)
  /-- `push(std::vector<bool>&)` -/
  | bitvec
  /-- `pushContainer(T&)` or, by pointer, `pushContainer(T*)`, with
      `sizeof(T::value_type)` -/
  | container (byPtr : Bool) (size : ℕ) (t : Ty)
  /-- `pushArray` on an array of `cap` elements or, by pointer,
      `pushDynamicArray` -/
  | array (byPtr : Bool) (cap : ℕ) (t : Ty)
  /-- two pushes, the first of the two executed first: `push(std::pair&)`, or the
      pushes of two fields in the body of a `serialize` function -/
  | pair (first second : Ty)
  /-- no push -/
  | unit
  /-- `push(T&)` of a user structure; `mv` says that moving out of it leaves its
      members moved out of -/
  | struct (mv : Bool) (t : Ty)
  /-- `pushStringLimit`, `pushStreamLimit`, `pushContainerLimit` -/
  | stringLimit (v : ℕ)
  | streamLimit (v : ℕ)
  | containerLimit (v : ℕ)
  /-- `pushStream`; on the storing side possibly with `_rfrom` and `_rlen`, on the
      loading side possibly with `_rat` and `_rlen` -/
  | stream (src dst : Option (ℕ × ℕ))
  /-- `push(T*&)` and `push(std::shared_ptr<T>&)`, with the base type `T` -/
  | ptr (shared : Bool) (base : ℕ)
  /-- `pushCall` of a function that makes the calls of `t` and reports `err`, on a
      serializer with or without a context -/
  | call (ctx : Bool) (t : Ty) (err : Option SerError)
  /-- a push that only schedules an error: no type map, unknown type -/
  | error (err : SerError)

/-- An object in memory. -/
inductive Obj where
  | bool (b : Bool)
  /-- a fixed-width integer or a byte array: its bytes in memory order -/
  | raw (bs : List Byte)
  /-- a `std::string` -/
  | str (c : List Byte)
  /-- a `std::bitset` or a `std::vector<bool>` -/
  | bits (bs : List Bool)
  /-- a standard container -/
  | seq (os : List Obj)
  /-- an array with the variable that holds its size -/
  | arr (os : List Obj) (n : ℕ)
  | pair (a b : Obj)
  | unit
  /-- the stream to be sent -/
  | istream (s : IStream)
  /-- a destination stream -/
  | ostream (s : OStream)
  /-- a plain or shared pointer: the type id, the calls and the object of what it
      points to; a null pointer to a container, an array or a stream -/
  | ptr (o : Option (ℕ × Ty × Obj))

structure Limits where
  stringlimit : ℕ := invalidSize
  containerlimit : ℕ := invalidSize
  streamlimit : ℕ := invalidSize
  deriving DecidableEq

def Limits.unlimited : Limits := {}

inductive Ret where
  | success | wait | failure | cont
  deriving DecidableEq, Repr

/-! ## What is sent for an object -/

/-- The cross integer that announces a size. -/
def sizeBytes (n : ℕ) : List Byte :=
  crossBytes .w64 ((computeValueWithCrc .w64 n).getD 0)

/-- Bits, eight to a byte from the lowest; `off` bits of the current byte are
    already in `cur`. -/
def bitsAcc : List Bool → ℕ → ℕ → List Byte
  | [], off, cur => if off = 0 then [] else [UInt8.ofNat cur]
  | b :: bs, off, cur =>
    let cur := cur ||| if b then 1 <<< off else 0
    if off + 1 = 8 then UInt8.ofNat cur :: bitsAcc bs 0 0 else bitsAcc bs (off + 1) cur

def bitsBytes (bs : List Bool) : List Byte := bitsAcc bs 0 0

/-- The part of the stream that a call of `pushStream` asks for. -/
def requested (s : IStream) : Option (ℕ × ℕ) → List Byte
  | none => s.rest
  | some (off, len) => if len = invalidSize then s.content.drop off
      else (s.content.drop off).take len

/-- What the serializer has to send for an object. -/
def wire : Ty → Obj → List Wire
  | .bool, .bool b => bytes [if b then 1 else 0]
  | .int _, .raw bs => bytes bs
  | .str, .str c => bytes (sizeBytes c.length) ++ bytes c
  | .utf8, .str c => bytes (c ++ [0])
  | .cross w, .raw bs => bytes (crossBytes w (leNat bs))
  | .binary _, .raw bs => bytes bs
  | .bitset _, .bits bs => bytes (sizeBytes bs.length) ++ bytes (bitsBytes bs)
  | .bitvec, .bits bs => bytes (sizeBytes bs.length) ++ bytes (bitsBytes bs)
  | .container _ _ t, .seq os => bytes (sizeBytes os.length) ++ os.flatMap (wire t)
  | .array _ _ t, .arr os n => bytes (sizeBytes n) ++ (os.take n).flatMap (wire t)
  | .pair t u, .pair a b => wire t a ++ wire u b
  | .struct _ t, o => wire t o
  | .stream arg _, .istream s => [.chunks (requested s arg)]
  | _, _ => []

/-! ## Well-formed objects -/

/-- The calls of `t` can be made for the object. -/
def HasTy : Ty → Obj → Prop
  | .bool, .bool _ => True
  | .int w, .raw bs => bs.length = w.bytes
  | .str, .str _ => True
  | .utf8, .str c => 0 ∉ c
  | .cross w, .raw bs => bs.length = w.bytes
  | .binary n, .raw bs => bs.length = n
  | .bitset v, .bits bs => bs.length = v
  | .bitvec, .bits _ => True
  | .container b _ t, .seq os => b = false ∧ ∀ o ∈ os, HasTy t o
  | .array b cap t, .arr os n =>
    b = false ∧ os.length = cap ∧ n ≤ cap ∧ ∀ o ∈ os, HasTy t o
  | .pair t u, .pair a b => HasTy t a ∧ HasTy u b
  | .unit, .unit => True
  | .struct _ t, o => HasTy t o
  | .stream none none, .istream s => s.fail = false
  | .stream (some (off, len)) none, .istream s =>
    s.fail = false ∧ off ≤ s.content.length ∧ off < invalidSize ∧ len ≤ invalidSize
  | _, _ => False

/-- The sizes of the object can be encoded. -/
def Fits : Ty → Obj → Prop
  | .str, .str c => c.length ≤ maxValueWithoutCrc .w64
  | .utf8, .str c => c.length ≤ maxValueWithoutCrc .w32
  | .bitset _, .bits bs => bs.length ≤ maxValueWithoutCrc .w64
  | .bitvec, .bits bs => bs.length ≤ maxValueWithoutCrc .w64
  | .container _ _ t, .seq os => os.length ≤ maxValueWithoutCrc .w64 ∧ ∀ o ∈ os, Fits t o
  | .array _ _ t, .arr os n => n ≤ maxValueWithoutCrc .w64 ∧ ∀ o ∈ os.take n, Fits t o
  | .pair t u, .pair a b => Fits t a ∧ Fits u b
  | .struct _ t, o => Fits t o
  | _, _ => True

/-- The value of an object: array elements beyond the stored size do not count,
    and a sent stream counts as what its destination is to receive. -/
def norm : Ty → Obj → Obj
  | .container _ _ t, .seq os => .seq (os.map (norm t))
  | .array _ _ t, .arr os n => .arr ((os.take n).map (norm t)) n
  | .pair t u, .pair a b => .pair (norm t a) (norm u b)
  | .struct _ t, o => norm t o
  | .stream arg _, .istream s => .ostream (.received (requested s arg))
  | _, o => o

/-! ## Targets -/

/-- A target of the type, whatever it holds. -/
def Shape : Ty → Obj → Prop
  | .bool, .bool _ => True
  | .int w, .raw bs => bs.length = w.bytes
  | .str, .str _ => True
  | .utf8, .str _ => True
  | .cross w, .raw bs => bs.length = w.bytes
  | .binary n, .raw bs => bs.length = n
  | .bitset v, .bits bs => bs.length = v
  | .bitvec, .bits _ => True
  | .container _ _ t, .seq os => ∀ o ∈ os, Shape t o
  | .array _ cap t, .arr os _ => os.length = cap ∧ ∀ o ∈ os, Shape t o
  | .pair t u, .pair a b => Shape t a ∧ Shape u b
  | .unit, .unit => True
  | .struct _ t, o => Shape t o
  | .stream _ _, .ostream _ => True
  | _, _ => False

/-- A target that can be loaded into: its containers and destination streams are
    empty. -/
def Ready : Ty → Obj → Prop
  | .bool, .bool _ => True
  | .int w, .raw bs => bs.length = w.bytes
  | .str, .str _ => True
  | .utf8, .str _ => True
  | .cross w, .raw bs => bs.length = w.bytes
  | .binary n, .raw bs => bs.length = n
  | .bitset v, .bits bs => bs.length = v
  | .bitvec, .bits _ => True
  | .container _ _ _, .seq os => os = []
  | .array _ cap t, .arr os _ => os.length = cap ∧ ∀ o ∈ os, Ready t o
  | .pair t u, .pair a b => Ready t a ∧ Ready u b
  | .unit, .unit => True
  | .struct _ t, o => Ready t o
  | .stream _ _, .ostream s => s = {}
  | _, _ => False

/-- A default-initialised object, as `T()` makes it. -/
def dflt : Ty → Obj
  | .bool => .bool false
  | .int w => .raw (List.replicate w.bytes 0)
  | .str => .str []
  | .utf8 => .str []
  | .cross w => .raw (List.replicate w.bytes 0)
  | .binary n => .raw (List.replicate n 0)
  | .bitset v => .bits (List.replicate v false)
  | .bitvec => .bits []
  | .container b _ _ => if b then .ptr none else .seq []
  | .array b cap t => if b then .ptr none else .arr (List.replicate cap (dflt t)) 0
  | .pair t u => .pair (dflt t) (dflt u)
  | .struct _ t => dflt t
  | .stream _ _ => .ostream {}
  | .ptr _ _ => .ptr none
  | _ => .unit

/-- What `std::move` of an element into a container leaves behind. -/
def moved : Ty → Obj → Obj
  | .str, .str _ => .str []
  | .utf8, .str _ => .str []
  | .bitvec, .bits _ => .bits []
  | .container _ _ _, .seq _ => .seq []
  | .array _ _ t, .arr os n => .arr (os.map (moved t)) n
  | .pair t u, .pair a b => .pair (moved t a) (moved u b)
  | .struct true t, o => moved t o
  | _, o => o

/-- Moving out of an element of the type leaves a target that is ready for the
    next element. -/
def MovesOut : Ty → Prop
  | .array _ _ t => MovesOut t
  | .pair t u => MovesOut t ∧ MovesOut u
  | .struct mv t => MovesOut t ∧ (mv = true ∨ ∀ o, Shape t o → Ready t o)
  | .stream _ _ => False
  | .ptr _ _ => False
  | _ => True

/-- `MAX_GENERIC_SIZE`: larger container elements are allocated apart. -/
def maxGenericSize : ℕ := 256

/-- The elements of every container stay in the buffer of `ExtendedData` and can
    be moved out of. -/
def InBuffer : Ty → Prop
  | .container _ size t => size ≤ maxGenericSize ∧ MovesOut t ∧ InBuffer t
  | .array _ _ t => InBuffer t
  | .pair t u => InBuffer t ∧ InBuffer u
  | .struct _ t => InBuffer t
  | _ => True

def Streamless : Ty → Prop
  | .container _ _ t => Streamless t
  | .array _ _ t => Streamless t
  | .pair t u => Streamless t ∧ Streamless u
  | .struct _ t => Streamless t
  | .stream _ _ => False
  | _ => True

variable {o : Obj} {t : Ty}

/-- **A default-initialised target is ready.** -/
theorem ready_dflt (h : HasTy t o) : Ready t (dflt t) := by
  induction t generalizing o with
  | array b cap t ih =>
    cases o with
    | arr os n =>
      obtain ⟨rfl, hlen, -, hos⟩ := h
      refine ⟨List.length_replicate, fun x hx => ?_⟩
      obtain ⟨hcap, rfl⟩ := List.mem_replicate.1 hx
      obtain ⟨y, hy⟩ := List.exists_mem_of_length_pos (l := os) (by rw [hlen]; omega)
      exact ih (hos y hy)
    | _ => exact h.elim
  | pair t u iht ihu =>
    cases o with
    | pair a b => exact ⟨iht h.1, ihu h.2⟩
    | _ => exact h.elim
  | struct mv t ih => exact ih h
  | stringLimit v => cases o <;> exact h.elim
  | streamLimit v => cases o <;> exact h.elim
  | containerLimit v => cases o <;> exact h.elim
  | ptr sh b => cases o <;> exact h.elim
  | call c t err => cases o <;> exact h.elim
  | error err => cases o <;> exact h.elim
  | stream src dst => rfl
  | container b size t => cases o with
    | seq os => rw [dflt, h.1]; rfl
    | _ => exact h.elim
  | _ => simp [Ready, dflt]

/-- **An element that was moved out of is ready for the next one.** -/
theorem ready_moved (hm : MovesOut t) (h : Shape t o) : Ready t (moved t o) := by
  induction t generalizing o with
  | array b cap t ih =>
    cases o with
    | arr os n =>
      refine ⟨by rw [List.length_map]; exact h.1, fun x hx => ?_⟩
      obtain ⟨y, hy, rfl⟩ := List.mem_map.1 hx
      exact ih hm (h.2 y hy)
    | _ => exact h.elim
  | pair t u iht ihu =>
    cases o with
    | pair a b => exact ⟨iht hm.1 h.1, ihu hm.2 h.2⟩
    | _ => exact h.elim
  | struct mv t ih =>
    cases mv with
    | true => exact ih hm.1 h
    | false =>
      rcases hm.2 with hmv | hready
      · cases hmv
      · exact hready o h
  | stream src dst => exact hm.elim
  | container b size t =>
    cases o with
    | seq os => rfl
    | _ => exact h.elim
  | stringLimit v => cases o <;> exact h.elim
  | streamLimit v => cases o <;> exact h.elim
  | containerLimit v => cases o <;> exact h.elim
  | ptr sh b => exact hm.elim
  | _ => cases o <;> first | exact h.elim | exact h

theorem shape_moved (h : Shape t o) : Shape t (moved t o) := by
  induction t generalizing o with
  | array b cap t ih =>
    cases o with
    | arr os n =>
      refine ⟨by rw [List.length_map]; exact h.1, fun x hx => ?_⟩
      obtain ⟨y, hy, rfl⟩ := List.mem_map.1 hx
      exact ih (h.2 y hy)
    | _ => exact h.elim
  | pair t u iht ihu =>
    cases o with
    | pair a b => exact ⟨iht h.1, ihu h.2⟩
    | _ => exact h.elim
  | struct mv t ih =>
    cases mv with
    | true => exact ih h
    | false => exact h
  | container b size t =>
    cases o with
    | seq os => exact fun o ho => (List.not_mem_nil ho).elim
    | _ => exact h.elim
  | _ => cases o <;> first | exact h.elim | exact h

theorem shape_of_ready (h : Ready t o) : Shape t o := by
  induction t generalizing o with
  | container b size t =>
    cases o with
    | seq os => subst h; exact fun o ho => (List.not_mem_nil ho).elim
    | _ => exact h.elim
  | array b cap t ih =>
    cases o with
    | arr os n => exact ⟨h.1, fun x hx => ih (h.2 x hx)⟩
    | _ => exact h.elim
  | pair t u iht ihu =>
    cases o with
    | pair a b => exact ⟨iht h.1, ihu h.2⟩
    | _ => exact h.elim
  | struct mv t ih => exact ih h
  | stream src dst => cases o <;> first | exact h.elim | exact trivial
  | _ => cases o <;> first | exact h.elim | exact h

end SolidFrame
