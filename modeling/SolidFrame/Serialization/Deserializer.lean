/-
  SolidFrame formalization — the reentrant binary deserializer
  (`DeserializerBase` in `solid/serialization/binary.hpp`, `src/binary.cpp`).

  The mirror image of the serializer: `fstk` holds the scheduled functions with
  the addresses they load into, `estk` the data that outlives one call.

  Allocations succeed; a write to an element beyond the end of an array, and
  what a null pointer overwrites in an object that is no pointer, are not
  represented otherwise than by the object's loss.
-/
import SolidFrame.Serialization.Memory
import SolidFrame.Serialization.Serializer

namespace SolidFrame

/-- The destination of a cross integer: the value on top of `estk`, or an
    integer of the user. -/
inductive Dst where
  | top
  | loc (l : Loc)

/-- A function of `fstk` with its data. -/
inductive DFrame where
  | popExtStack
  | setStringLimit (s : ℕ)
  | setStreamLimit (s : ℕ)
  | setContainerLimit (s : ℕ)
  /-- `loadBinary<k>`, at the offset `off` of the object; `loadBinary<0>` loads `s`
      bytes -/
  | loadBinary (k : ℕ) (l : Loc) (off s : ℕ)
  /-- `load<bool>` -/
  | loadBool (l : Loc)
  /-- `load<intN_t>`, `load<uintN_t>` -/
  | loadInt (w : Width) (l : Loc)
  /-- `load<std::string>` -/
  | loadString (l : Loc)
  | loadBinaryStringCheck (l : Loc)
  | loadBinaryString (l : Loc)
  | loadStreamCheck (s : ℕ)
  | loadStreamBegin (p : Option Loc) (s : ℕ)
  | loadStream (l : Loc) (s : ℕ)
  | loadDummyStream (s : ℕ)
  | loadUtf8 (l : Loc)
  | loadCross (w : Width) (dst : Dst)
  | loadCrossContinue (s : ℕ)
  | loadCrossDone (w : Width) (dst : Dst)
  /-- `loadBitset<V>` (`fixed = some V`), `loadBitvec` -/
  | loadBits (fixed : Option ℕ) (l : Loc)
  | loadBitsBegin (fixed : Option ℕ) (l : Loc)
  | loadBitsContinue (l : Loc) (s : ℕ)
  | loadContainer (byPtr : Bool) (size : ℕ) (t : Ty) (l : Loc)
  | loadContainerBegin (byPtr : Bool) (size : ℕ) (t : Ty) (l : Loc)
  | loadContainerContinue (t : Ty) (l : Loc)
  | loadArray (byPtr : Bool) (t : Ty) (l : Loc)
  | loadArrayContinue (t : Ty) (l : Loc)
  /-- `load<T, Des>`: calls `serialize` -/
  | load (t : Ty) (l : Loc)
  /-- `loadPlainPointerPrepare`, `loadSharedPointerPrepare` -/
  | loadPointerPrepare (shared : Bool) (base : ℕ) (l : Loc)
  /-- `loadPlainPointer`, `loadSharedPointer` -/
  | loadPointer (shared : Bool) (base : ℕ) (l : Loc)
  | loadCall (ctx : Bool) (t : Ty) (l : Loc) (err : Option SerError)
  | loadReturnError (e : SerError)
  | loadReturnSuccess

/-- An `ExtendedData`. -/
inductive DExt where
  /-- a value, and the size of the object that `generic()` made -/
  | val (first : ℕ) (generic : Option ℕ)
  /-- size and index of an array -/
  | vals (size idx : ℕ)
  /-- the function of a call -/
  | call

/-- What `loadPlainPointer<T>` and `loadSharedPointer<T>` of the type map come to:
    the call of a cast function that is not set or not meant for the object, an
    error, a null pointer, or a new object. -/
inductive PtrLoad (α : Type) where
  | undefined
  | error (e : SerError)
  | null
  | object (t : α)

/-- A type map, as a deserializer uses it: shared or plain pointer, base type,
    type id; for a new object, the calls that are made. -/
abbrev TypeMap := Bool → ℕ → ℕ → PtrLoad Ty

structure DeserializerBase where
  fstk : List DFrame
  estk : List DExt
  mem : Mem
  rdefaultlmts : Limits
  lmts : Limits
  err : Option SerError
  streamerr : Option SerError
  streamsz : ℕ
  tmpstr : List Byte

/-! ## Scheduling -/

/-- The functions and data that the calls of `t` push for a target, the ones on
    top first. -/
def DFrame.ofTy (m : Mem) : Ty → Loc → List DFrame × List DExt
  | .bool, l => ([.loadBool l], [])
  | .int w, l => ([.loadInt w l], [])
  | .str, l => ([.loadString l], [])
  | .utf8, l => ([.loadUtf8 l], [])
  | .cross w, l => ([.loadCross w (.loc l)], [])
  | .binary n, l => ([.loadBinary 0 l 0 n], [])
  | .bitset v, l => ([.loadBits (some v) l], [])
  | .bitvec, l => ([.loadBits none l], [])
  | .container b size t, l => ([.loadContainer b size t l], [])
  | .array b _ t, l => ([.loadCross .w64 .top, .loadArray b t l], [.vals 0 0])
  | .pair t u, l =>
    ((DFrame.ofTy m t (l.sub 0)).1 ++ (DFrame.ofTy m u (l.sub 1)).1,
      (DFrame.ofTy m t (l.sub 0)).2 ++ (DFrame.ofTy m u (l.sub 1)).2)
  | .unit, _ => ([], [])
  | .struct _ t, l => ([.load t l], [])
  | .stringLimit v, _ => ([.setStringLimit v], [])
  | .streamLimit v, _ => ([.setStreamLimit v], [])
  | .containerLimit v, _ => ([.setContainerLimit v], [])
  | .stream _ none, l =>
    match m.get l with
    | some (.ptr none) => ([.loadStreamBegin none 0, .loadDummyStream invalidSize], [])
    | _ => ([.loadStreamBegin (some l) 0, .loadStream l invalidSize], [])
  | .stream _ (some (off, len)), l =>
    match m.get l with
    | some (.ptr none) =>
      ([.loadStreamCheck len, .loadStreamBegin none off, .loadDummyStream len], [])
    | _ => ([.loadStreamCheck len, .loadStreamBegin (some l) off, .loadStream l len], [])
  | .ptr sh base, l => ([.loadPointerPrepare sh base l, .popExtStack], [.val 0 none])
  | .call ctx t err, l => ([.loadCall ctx t l err], [.call])
  | .error e, _ => ([.loadReturnError e], [])

/-- Pushing a string clears it. -/
def Mem.clearStrings (m : Mem) : Ty → Loc → Mem
  | .str, l => m.set l (.str [])
  | .utf8, l => m.set l (.str [])
  | .pair t u, l => (m.clearStrings u (l.sub 1)).clearStrings t (l.sub 0)
  | _, _ => m

namespace DeserializerBase

/-- `push`, `pushContainer`, … -/
def push (d : DeserializerBase) (t : Ty) (l : Loc) : DeserializerBase :=
  { d with
    fstk := (DFrame.ofTy d.mem t l).1 ++ d.fstk
    estk := (DFrame.ofTy d.mem t l).2 ++ d.estk
    mem := d.mem.clearStrings t l }

def new (lmts : Limits) (targets : List Obj) : DeserializerBase :=
  { fstk := [], estk := [], mem := ⟨targets, []⟩, rdefaultlmts := lmts, lmts := lmts, err := none,
    streamerr := none, streamsz := 0, tmpstr := [] }

end DeserializerBase

/-! ## The scheduled functions -/

/-- The loop of `loadBitsetContinue<V>` and `loadBitvecContinue` with `k` bits to
    read, `off` of them already read from the first byte: the bits read and the
    bytes passed. -/
def loadBitsLoop : ℕ → List Byte → ℕ → List Bool × ℕ
  | 0, _, off => ([], if off = 0 then 0 else 1)
  | _ + 1, [], _ => ([], 0)
  | k + 1, b :: bs, off =>
    let bit := b.toNat.testBit off
    if off + 1 = 8 then
      let r := loadBitsLoop k bs 0
      (bit :: r.1, r.2 + 1)
    else
      let r := loadBitsLoop k (b :: bs) (off + 1)
      (bit :: r.1, r.2)

/-- `cstring::nlen`: the bytes before the first zero. -/
def beforeNul (p : List Byte) : List Byte := p.takeWhile (· ≠ 0)

/-- The size that `crossSize` announces, as the caller converts it: `-1` when the
    first byte is not valid. -/
def announcedSize (w : Width) (b : Byte) : ℕ :=
  match crossSizePtr b with
  | some n => n
  | none => if w = .w8 then 2 ^ 64 - 1 else 2 ^ 32 - 1

def Obj.writeRaw (off : ℕ) (d : List Byte) : Obj → Obj
  | .raw bs => .raw (overwrite bs off d)
  | o => o

def Obj.appendStr (d : List Byte) : Obj → Obj
  | .str c => .str (c ++ d)
  | o => o

def Obj.strLength : Obj → ℕ
  | .str c => c.length
  | _ => 0

def Obj.writeBits (s : ℕ) (d : List Bool) : Obj → Obj
  | .bits bs => .bits (overwrite bs s d)
  | o => o

def Obj.resizeBits (n : ℕ) : Obj → Obj
  | .bits bs => .bits (resize bs n false)
  | o => o

def Obj.insertEnd (v : Obj) : Obj → Obj
  | .seq os => .seq (os ++ [v])
  | o => o

def Obj.setSize (n : ℕ) : Obj → Obj
  | .arr os _ => .arr os n
  | o => o

def Obj.mapStream (f : OStream → OStream) : Obj → Obj
  | .ostream s => .ostream (f s)
  | o => o

def Obj.stream? : Option Obj → OStream
  | some (.ostream s) => s
  | _ => { fail := true }

/-- What a function returns: the result, by how much it advances `cpb`, and the
    state; `none` stands for undefined behaviour and for exceptions. -/
abbrev DStep := Option (Ret × ℕ × DeserializerBase)

namespace DeserializerBase
variable (d : DeserializerBase)

def resetLimits : DeserializerBase := { d with lmts := d.rdefaultlmts }

def fail (e : SerError) : DStep := some (.failure, 0, { d with err := some e })

/-- `estk.pop()`: the element that `generic()` made goes with the entry, but an
    element that did not fit the buffer is not deleted by its own address. -/
def popExt : Option DeserializerBase :=
  match d.estk with
  | [] => none
  | .val _ (some size) :: es =>
    if size ≤ maxGenericSize then some { d with estk := es, mem := d.mem.popTemp } else none
  | _ :: es => some { d with estk := es }

def popSuccess (used : ℕ) : DStep := d.popExt.map fun d => (.success, used, d)

def storeCrossValue (w : Width) (v : ℕ) : Dst → Option DeserializerBase
  | .loc l => some { d with mem := d.mem.set l (.raw (leBytes w.bytes v)) }
  | .top =>
    match d.estk with
    | .val _ g :: es => some { d with estk := .val v g :: es }
    | .vals _ idx :: es => some { d with estk := .vals v idx :: es }
    | _ => none

/-- The size on top of `estk` after its check, or an error. -/
def checkSize (v : ℕ) (e : SerError) : Except SerError ℕ :=
  if v = invalidSize then .ok v
  else match checkValueWithCrc .w64 v with
    | some n => .ok n
    | none => .error e

/-- `loadBinary<k>`, over the functions `fs`. -/
def loadBinary (k : ℕ) (l : Loc) (off s : ℕ) (fs : List DFrame) (avail : List Byte) : DStep :=
  let write (n : ℕ) : Mem := d.mem.upd l (Obj.writeRaw off (avail.take n))
  if k = 0 then
    let len := min avail.length s
    some (if s - len = 0 then .success else .wait, len,
      { d with mem := write len, fstk := .loadBinary 0 l (off + len) (s - len) :: fs })
  else if k ≤ avail.length then
    some (.success, k, { d with mem := write k, fstk := .loadBinary k l off s :: fs })
  else if 1 ≤ avail.length then
    let len := avail.length
    some (.wait, len,
      { d with mem := write len, fstk := .loadBinary (k - len) l (off + len) s :: fs })
  else some (.wait, 0, { d with fstk := .loadBinary k l off s :: fs })

def loadCross (w : Width) (dst : Dst) (fs : List DFrame) (avail : List Byte) : DStep :=
  match avail with
  | [] => some (.wait, 0, d)
  | b :: _ =>
    let vsz := announcedSize w b
    if vsz ≤ avail.length then
      match crossLoad w avail with
      | some (v, n) => (d.storeCrossValue w v dst).map fun d => (.success, n, d)
      | none => d.fail .crossValueSmall
    -- `resize` throws
    else if vsz = 2 ^ 64 - 1 then none
    else
      let len := if w = .w8 then 1 else avail.length
      some (.cont, len, { d with
        tmpstr := overwrite (resize d.tmpstr vsz 0) 0 (avail.take len)
        fstk := .loadCrossContinue len :: .loadCrossDone w dst :: fs })

def loadCrossContinue (s : ℕ) (fs : List DFrame) (avail : List Byte) : DStep :=
  -- another integer took `tmpstr`: `memcpy` writes outside of it
  if d.tmpstr.length < s then none
  else
  let toread := min (d.tmpstr.length - s) avail.length
  some (if s + toread < d.tmpstr.length then .wait else .success, toread, { d with
    tmpstr := overwrite d.tmpstr s (avail.take toread)
    fstk := .loadCrossContinue (s + toread) :: fs })

def loadBinaryString (l : Loc) (avail : List Byte) : DStep :=
  match d.estk with
  | .val ul g :: es =>
    let len := min avail.length ul
    let d := { d with mem := d.mem.upd l (Obj.appendStr (avail.take len)) }
    if ul - len = 0 then d.popSuccess len
    else some (.wait, len, { d with estk := .val (ul - len) g :: es })
  | _ => none

def loadUtf8 (l : Loc) (avail : List Byte) : DStep :=
  let s := beforeNul avail
  let totlen := ((d.mem.get l).elim 0 Obj.strLength) + s.length
  if d.lmts.stringlimit < totlen then d.fail .utf8Limit
  else if maxValueWithoutCrc .w32 < totlen then d.fail .utf8MaxLimit
  else
    let d := { d with mem := d.mem.upd l (Obj.appendStr s) }
    if s.length = avail.length then some (.wait, s.length, d)
    else some (.success, s.length + 1, d)

/-- Give up a stream: `loadStreamBegin` makes the function below load a dummy
    stream. -/
def dummyBelow (fs : List DFrame) : DStep :=
  match fs with
  | _ :: fs => some (.cont, 0, { d with fstk := .loadDummyStream 0 :: fs })
  | [] => none

def loadStreamBegin (p : Option Loc) (at_ : ℕ) (fs : List DFrame) : DStep :=
  let d := { d with streamerr := none, streamsz := 0 }
  match p with
  | none => d.dummyBelow fs
  | some l =>
    if at_ = invalidSize then some (.success, 0, d)
    else
      let d := { d with mem := d.mem.upd l (Obj.mapStream (·.seekp at_)) }
      if (Obj.stream? (d.mem.get l)).tellp = some at_ then some (.success, 0, d)
      else { d with streamerr := some .streamSeek }.dummyBelow fs

def loadStream (l : Loc) (s : ℕ) (fs : List DFrame) (avail : List Byte) : DStep :=
  if avail.length < 2 then some (.wait, 0, d)
  else
    let sz := load16 avail
    if sz = 0xffff then some (.success, 2, { d with streamerr := some .streamSender })
    else match checkValueWithCrc .w16 sz with
      | none => { d with streamerr := some .streamChunkMaxLimit }.fail .streamChunkMaxLimit
      | some sz =>
        let towrite := min (min (avail.length - 2) s) sz
        if towrite = 0 then some (.success, 2, d)
        else if d.lmts.streamlimit < (d.streamsz + towrite) % 2 ^ 64 then
          { d with streamerr := some .streamLimit }.fail .streamLimit
        else
          let mem := d.mem.upd l (Obj.mapStream (·.write ((avail.drop 2).take towrite)))
          let dummy := DFrame.loadDummyStream ((d.streamsz + sz) % 2 ^ 64)
          let f := if s = invalidSize then DFrame.loadStream l s
            else if s - towrite = 0 then dummy else .loadStream l (s - towrite)
          some (.cont, 2 + sz, if (Obj.stream? (mem.get l)).fail then
              { d with mem := mem, fstk := dummy :: fs, streamerr := some .streamWrite }
            else
              { d with mem := mem, fstk := f :: fs, streamsz := (d.streamsz + towrite) % 2 ^ 64 })

/-- `loadDummyStream`, with `len` the value of `be - cpb`. -/
def loadDummyStream (s : ℕ) (fs : List DFrame) (len : ℤ) (avail : List Byte) : DStep :=
  if len < 2 then some (.wait, 0, d)
  else
    let sz := load16 avail
    if sz = 0xffff then some (.success, 2, { d with streamerr := some .streamSender })
    else if sz = 0 then some (.success, 2, d)
    else match checkValueWithCrc .w16 sz with
      | none => { d with streamerr := some .streamChunkMaxLimit }.fail .streamChunkMaxLimit
      | some sz =>
        let s := (s + sz) % 2 ^ 64
        let d := { d with fstk := .loadDummyStream s :: fs }
        if d.lmts.streamlimit < s then
          { d with streamerr := some .streamLimit }.fail .streamLimit
        else some (.cont, 2 + sz, d)

/-- `loadBitsetBegin<V>`, `loadBitvecBegin`. -/
def loadBitsBegin (fixed : Option ℕ) (l : Loc) (fs : List DFrame) : DStep :=
  match d.estk with
  | .val v g :: es =>
    match checkSize v .stringMaxLimit with
    | .error e => d.fail e
    | .ok len =>
      let d := { d with estk := .val len g :: es }
      if d.lmts.containerlimit ≤ len then d.fail .containerLimit
      else match fixed with
        | some n =>
          if n < len then d.fail .bitsetSize
          else some (.cont, 0, { d with fstk := .loadBitsContinue l 0 :: fs })
        | none => some (.cont, 0, { d with
            mem := d.mem.upd l (Obj.resizeBits len), fstk := .loadBitsContinue l 0 :: fs })
  | _ => none

/-- `loadBitsetContinue<V>`, `loadBitvecContinue`. -/
def loadBitsContinue (l : Loc) (s : ℕ) (fs : List DFrame) (avail : List Byte) : DStep :=
  match d.estk with
  | .val len _ :: _ =>
    let r := loadBitsLoop (len - s) avail 0
    let d := { d with
      mem := d.mem.upd l (Obj.writeBits s r.1), fstk := .loadBitsContinue l (s + r.1.length) :: fs }
    if s + r.1.length < len then some (.wait, r.2, d) else d.popSuccess r.2
  | _ => none

def loadContainerBegin (byPtr : Bool) (size : ℕ) (t : Ty) (l : Loc) (fs : List DFrame) : DStep :=
  match d.estk with
  | .val v g :: es =>
    match checkSize v .containerMaxLimit with
    | .error e => d.fail e
    | .ok i =>
      let d := { d with estk := .val i g :: es }
      if i = invalidSize then { d with mem := d.mem.set l (.ptr none) }.popSuccess 0
      else if d.lmts.containerlimit < i then d.fail .containerLimit
      else
        let d := if byPtr then { d with mem := d.mem.set l (.seq []) } else d
        if i = 0 then d.popSuccess 0
        else
          let mem := d.mem.pushTemp (dflt t)
          let d := { d with
            fstk := .loadContainerContinue t l :: fs, estk := .val i (some size) :: es, mem := mem }
          some (.cont, 0, d.push t mem.topTemp)
  | _ => none

def loadContainerContinue (null : Bool) (t : Ty) (l : Loc) : DStep :=
  match d.estk with
  | .val ri (some size) :: es =>
    let pvt := d.mem.topTemp
    let v := (d.mem.get pvt).getD .unit
    let mem := (d.mem.upd l (Obj.insertEnd v)).upd pvt (moved t)
    let d := { d with estk := .val (ri - 1) (some size) :: es, mem := mem }
    if null = false ∧ ri - 1 ≠ 0 then some (.cont, 0, d.push t pvt) else d.popSuccess 0
  | _ => none

def loadArray (byPtr : Bool) (t : Ty) (l : Loc) (fs : List DFrame) : DStep :=
  match d.estk with
  | .vals v idx :: es =>
    match checkSize v .arrayMaxLimit with
    | .error e => d.fail e
    | .ok rsz =>
      let d := { d with estk := .vals rsz idx :: es }
      if rsz = invalidSize then { d with mem := d.mem.set l (.ptr none) }.popSuccess 0
      else if d.lmts.containerlimit < rsz then d.fail .arrayLimit
      else
        let mem := if byPtr then d.mem.set l (.arr (List.replicate rsz (dflt t)) rsz)
          else d.mem.upd l (Obj.setSize rsz)
        some (.cont, 0, { d with mem := mem, fstk := .loadArrayContinue t l :: fs })
  | _ => none

def loadArrayContinue (t : Ty) (l : Loc) : DStep :=
  match d.estk with
  | .vals rsz ri :: es =>
    if ri < rsz then some (.cont, 0, { d with estk := .vals rsz (ri + 1) :: es }.push t (l.sub ri))
    else d.popSuccess 0
  | _ => none

def loadBinaryStringCheck : DStep :=
  match d.estk with
  | .val v g :: es =>
    match checkSize v .stringMaxLimit with
    | .error e => d.fail e
    | .ok ul =>
      let d := { d with estk := .val ul g :: es }
      if d.lmts.stringlimit ≤ ul then d.fail .stringLimit else some (.success, 0, d)
  | _ => none

/-- `loadPlainPointer`, `loadSharedPointer`. -/
def loadPointer (tm : TypeMap) (shared : Bool) (base : ℕ) (l : Loc) (fs : List DFrame) : DStep :=
  match d.estk with
  | .val id _ :: _ =>
    let d := { d with fstk := fs }
    match tm shared base id with
    | .undefined => none
    | .error e => d.fail e
    | .null => some (.cont, 0, { d with mem := d.mem.set l (.ptr none), err := none })
    | .object t => some (.cont, 0, { d with
        mem := d.mem.set l (.ptr (some (id, t, dflt t)))
        fstk := .load t (l.sub 0) :: fs
        err := none })
  | _ => none

def loadCall (t : Ty) (l : Loc) (err : Option SerError) (fs : List DFrame) : DStep :=
  d.popExt.map fun d =>
    let err := err.or d.err
    let ret := match err with
      | some e => DFrame.loadReturnError e
      | none => DFrame.loadReturnSuccess
    (.cont, 0, { d with fstk := ret :: fs, err := err }.push t l)

/-- The function reads bytes between `cpb` and `be` by their unsigned count. -/
def reads : DFrame → Bool
  | .loadBinary .. | .loadBool .. | .loadInt .. | .loadBinaryString .. | .loadStream ..
  | .loadUtf8 .. | .loadCross .. | .loadCrossContinue .. => true
  | _ => false

/-- Call the function on top of `fstk`.  `null` says that `cpb` is null, as in
    `clear()`; `past` is the number of bytes by which `cpb` is past `be`: a
    function that reads then reads beyond the buffer. -/
def step (tm : TypeMap) (null : Bool) (past : ℕ) (avail : List Byte) : DStep :=
  match d.fstk with
  | [] => none
  | f :: fs =>
    if 0 < past ∧ reads f then none
    else match f with
    | .popExtStack => d.popSuccess 0
    | .setStringLimit v => some (.success, 0, { d with lmts := { d.lmts with stringlimit := v } })
    | .setStreamLimit v => some (.success, 0, { d with lmts := { d.lmts with streamlimit := v } })
    | .setContainerLimit v =>
      some (.success, 0, { d with lmts := { d.lmts with containerlimit := v } })
    | .loadBinary k l off s =>
      if null then some (.success, 0, d) else d.loadBinary k l off s fs avail
    | .loadBool l =>
      if null then some (.success, 0, d)
      else match avail with
        | [] => some (.wait, 0, d)
        | b :: _ => some (.success, 1, { d with mem := d.mem.set l (.bool (b == 1)) })
    | .loadInt w l =>
      if null then some (.success, 0, d) else d.loadBinary w.bytes l 0 w.bytes fs avail
    | .loadString l =>
      if null then some (.success, 0, d)
      else some (.cont, 0, { d with
        fstk := .loadCross .w64 .top :: .loadBinaryStringCheck l :: .loadBinaryString l :: fs
        estk := .val 0 none :: d.estk })
    | .loadBinaryStringCheck _ =>
      if null then some (.success, 0, d) else d.loadBinaryStringCheck
    | .loadBinaryString l => if null then d.popSuccess 0 else d.loadBinaryString l avail
    | .loadStreamCheck v =>
      if null then some (.success, 0, d)
      else if d.lmts.streamlimit < v then d.fail .streamLimit
      else some (.success, 0, d)
    | .loadStreamBegin p at_ =>
      if null then some (.success, 0, d) else d.loadStreamBegin p at_ fs
    | .loadStream l s => if null then some (.success, 0, d) else d.loadStream l s fs avail
    | .loadDummyStream s =>
      if null then some (.success, 0, d)
      else d.loadDummyStream s fs (if 0 < past then -past else toInt32 avail.length) avail
    | .loadUtf8 l => d.loadUtf8 l avail
    | .loadCross w dst => if null then some (.success, 0, d) else d.loadCross w dst fs avail
    | .loadCrossContinue s =>
      if null then some (.success, 0, d) else d.loadCrossContinue s fs avail
    | .loadCrossDone w dst =>
      if null then some (.success, 0, d)
      else match crossLoad w d.tmpstr with
        | some (v, _) => (d.storeCrossValue w v dst).map fun d => (.success, 0, d)
        | none => d.fail .crossValueSmall
    | .loadBits fixed l =>
      if null then some (.success, 0, d)
      else some (.cont, 0, { d with
        fstk := .loadCross .w64 .top :: .loadBitsBegin fixed l :: fs
        estk := .val 0 none :: d.estk })
    | .loadBitsBegin fixed l => if null then d.popSuccess 0 else d.loadBitsBegin fixed l fs
    | .loadBitsContinue l s => if null then d.popSuccess 0 else d.loadBitsContinue l s fs avail
    | .loadContainer b size t l =>
      if null then some (.success, 0, d)
      else some (.cont, 0, { d with
        fstk := .loadCross .w64 .top :: .loadContainerBegin b size t l :: fs
        estk := .val 0 none :: d.estk })
    | .loadContainerBegin b size t l =>
      if null then d.popSuccess 0 else d.loadContainerBegin b size t l fs
    | .loadContainerContinue t l => d.loadContainerContinue null t l
    | .loadArray b t l => if null then d.popSuccess 0 else d.loadArray b t l fs
    | .loadArrayContinue t l => if null then d.popSuccess 0 else d.loadArrayContinue t l
    | .load t l =>
      if null then some (.success, 0, d) else some (.cont, 0, { d with fstk := fs }.push t l)
    | .loadPointerPrepare sh base l =>
      if null then some (.success, 0, d)
      else some (.cont, 0, { d with fstk := .loadCross .w64 .top :: .loadPointer sh base l :: fs })
    | .loadPointer sh base l =>
      if null then some (.success, 0, d) else d.loadPointer tm sh base l fs
    | .loadCall ctx t l err =>
      if null then (if ctx then some (.success, 0, d) else d.popSuccess 0)
      else d.loadCall t l err fs
    | .loadReturnError e => some (.failure, 0, { d with err := d.err.or (some e) })
    | .loadReturnSuccess => some (.success, 0, d)

end DeserializerBase

/-! ## The loop of `run` -/

/-- What a call of `DeserializerBase::run` comes to: the value of `cpb - pb` at the
    end, an error, or undefined behaviour. -/
inductive DRun where
  | done (n : ℕ) (d : DeserializerBase)
  | failure (d : DeserializerBase)
  | undefined

namespace DeserializerBase

/-- The loop of `run` on `input`, from a state with `cpb - pb = pos`; `none` when
    `fuel` calls do not finish it. -/
def runLoop (tm : TypeMap) (null : Bool) (input : List Byte) :
    ℕ → ℕ → DeserializerBase → Option DRun
  | 0, _, _ => none
  | fuel + 1, pos, d =>
    if d.fstk.isEmpty then some (.done pos d.resetLimits)
    else match d.step tm null (pos - input.length) (input.drop pos) with
      | none => some .undefined
      | some (.cont, n, d') => runLoop tm null input fuel (pos + n) d'
      | some (.success, n, d') =>
        runLoop tm null input fuel (pos + n) { d' with fstk := d'.fstk.tail }
      | some (.wait, n, d') => some (.done (pos + n) d')
      | some (.failure, _, d') => some (.failure d'.resetLimits)

/-- `run(_pb, _bl)` on the bytes of `input` ends, with `cpb` advanced by `n`. -/
def Runs (tm : TypeMap) (d : DeserializerBase) (input : List Byte) (n : ℕ)
    (d' : DeserializerBase) : Prop :=
  ∃ fuel, d.runLoop tm false input fuel 0 = some (.done n d')

end DeserializerBase

end SolidFrame
