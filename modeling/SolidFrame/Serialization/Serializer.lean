/-
  SolidFrame formalization — the reentrant binary serializer
  (`SerializerBase` in `solid/serialization/binary.hpp`, `src/binary.cpp`).

  The serializer is a stack machine: `fstk` holds the scheduled functions with
  their data, `estk` the data that outlives one call.  A pair `(p, s)` of
  `FncData` that denotes a range of bytes is the list of these bytes.
-/
import SolidFrame.Serialization.Item

namespace SolidFrame

def minStreamBufferSize : ℕ := 16

def toInt32 (n : ℕ) : ℤ := Int.bmod n (2 ^ 32)

theorem toInt32_of_lt {n : ℕ} (h : n < 2 ^ 31) : toInt32 n = n := by
  refine Int.bmod_eq_of_le ?_ ?_
  · norm_num
  · norm_num
    exact_mod_cast h

/-- The instances of `storeBinary<S>`. -/
inductive BinSize where
  | b0 | b1 | b2 | b4 | b8
  deriving DecidableEq

/-- A function of `fstk` with its data. -/
inductive SFrame where
  | popExtStack
  | setStringLimit (s : ℕ)
  | setStreamLimit (s : ℕ)
  | setContainerLimit (s : ℕ)
  | storeBinary (k : BinSize) (p : List Byte)
  /-- `store<bool>` -/
  | storeBool (b : Bool)
  /-- `store<intN_t>`, `store<uintN_t>` -/
  | storeInt (w : Width) (p : List Byte)
  /-- `store<std::string>` -/
  | storeString (c : List Byte)
  | storeStreamBegin (null : Bool) (s : ℕ)
  | storeStreamCheck (s : ℕ)
  /-- `storeStream`; the stream that `storeStreamBegin` above it seeks in -/
  | storeStream (ris : IStream) (s : ℕ)
  | storeUtf8 (p : List Byte)
  | storeCross (w : Width) (v : ℕ)
  | storeCrossContinue (s : ℕ)
  /-- `storeBitset<V>`, `storeBitvec` -/
  | storeBits (bs : List Bool)
  /-- `storeBitsetContinue<V>`, `storeBitvecContinue` -/
  | storeBitsContinue (bs : List Bool) (s : ℕ)
  | storeContainer (t : Ty) (c : Option (List Obj))
  | storeContainerContinue (t : Ty)
  | storeArray (t : Ty) (c : Option (List Obj))
  | storeArrayContinue (t : Ty) (c : List Obj)
  /-- `store<T, Ser>`: calls `serialize` -/
  | store (t : Ty) (o : Obj)
  | storeCall (ctx : Bool) (t : Ty) (o : Obj) (err : Option SerError)
  | storeReturnError (e : SerError)
  | storeReturnSuccess

/-- An `ExtendedData`. -/
inductive SExt where
  | val (v : ℕ)
  /-- size and index of an array -/
  | vals (size idx : ℕ)
  /-- the iterator of a container: the elements from it to the end -/
  | iter (rest : List Obj)
  /-- the function of a call -/
  | call

structure SerializerBase where
  fstk : List SFrame
  estk : List SExt
  rdefaultlmts : Limits
  lmts : Limits
  err : Option SerError
  streamerr : Option SerError
  streamsz : ℕ
  tmpstr : List Byte

/-! ## Scheduling -/

/-- The functions and data that the calls of `t` push for an object, the ones on
    top first. -/
def SFrame.ofTy : Ty → Obj → List SFrame × List SExt
  | .bool, .bool b => ([.storeBool b], [])
  | .int w, .raw bs => ([.storeInt w bs], [])
  | .str, .str c => ([.storeString c], [])
  | .utf8, .str c => ([.storeUtf8 (c ++ [0])], [])
  | .cross w, .raw bs => ([.storeCross w (leNat bs)], [])
  | .binary _, .raw bs => ([.storeBinary .b0 bs], [])
  | .bitset _, .bits bs => ([.storeBits bs], [])
  | .bitvec, .bits bs => ([.storeBits bs], [])
  | .container _ _ t, .seq os => ([.storeContainer t (some os)], [])
  | .container true _ t, .ptr none => ([.storeContainer t none], [])
  | .array _ _ t, .arr os n => ([.storeArray t (some os)], [.vals n 0])
  | .array true _ t, .ptr none => ([.storeArray t none], [.vals 0 0])
  | .pair t u, .pair a b =>
    ((SFrame.ofTy t a).1 ++ (SFrame.ofTy u b).1, (SFrame.ofTy t a).2 ++ (SFrame.ofTy u b).2)
  | .struct _ t, o => ([.store t o], [])
  | .stringLimit v, _ => ([.setStringLimit v], [])
  | .streamLimit v, _ => ([.setStreamLimit v], [])
  | .containerLimit v, _ => ([.setContainerLimit v], [])
  | .stream none _, .istream s =>
    ([.storeStreamBegin false invalidSize, .storeStream s invalidSize], [])
  | .stream (some (off, len)) _, .istream s =>
    ([.storeStreamCheck len, .storeStreamBegin false off, .storeStream s len], [])
  | .stream none _, .ptr none =>
    ([.storeStreamBegin true invalidSize, .storeStream ⟨[], 0, true⟩ invalidSize], [])
  | .stream (some (off, len)) _, .ptr none =>
    ([.storeStreamCheck len, .storeStreamBegin true off, .storeStream ⟨[], 0, true⟩ len], [])
  | .ptr _ _, .ptr none => ([.storeCross .w32 0], [])
  | .ptr _ _, .ptr (some (id, t, o)) => ([.storeCross .w64 id, .store t o], [])
  | .call ctx t err, o => ([.storeCall ctx t o err], [.call])
  | .error e, _ => ([.storeReturnError e], [])
  | _, _ => ([], [])

/-- `push`, `pushContainer`, … -/
def SerializerBase.push (s : SerializerBase) (t : Ty) (o : Obj) : SerializerBase :=
  { s with fstk := (SFrame.ofTy t o).1 ++ s.fstk, estk := (SFrame.ofTy t o).2 ++ s.estk }

def SerializerBase.new (lmts : Limits) : SerializerBase :=
  { fstk := [], estk := [], rdefaultlmts := lmts, lmts := lmts, err := none, streamerr := none,
    streamsz := 0, tmpstr := [] }

/-! ## The scheduled functions -/

/-- `storeBinary<S>`: the result, the bytes stored, and the function left. -/
def storeBinary (k : BinSize) (p : List Byte) (room : ℕ) : Ret × List Byte × SFrame :=
  match k with
  | .b0 =>
    let len := min room p.length
    (if p.length - len = 0 then .success else .wait, p.take len, .storeBinary .b0 (p.drop len))
  | .b1 =>
    if 1 ≤ room then (.success, p.take 1, .storeBinary .b1 p)
    else (.wait, [], .storeBinary .b1 p)
  | .b2 =>
    if 2 ≤ room then (.success, p.take 2, .storeBinary .b2 p)
    else if 1 ≤ room then (.wait, p.take 1, .storeBinary .b1 (p.drop 1))
    else (.wait, [], .storeBinary .b2 p)
  | .b4 =>
    if 4 ≤ room then (.success, p.take 4, .storeBinary .b4 p)
    else if 3 ≤ room then (.wait, p.take 3, .storeBinary .b1 (p.drop 3))
    else if 2 ≤ room then (.wait, p.take 2, .storeBinary .b2 (p.drop 2))
    else if 1 ≤ room then (.wait, p.take 1, .storeBinary .b0 (p.drop 1))
    else (.wait, [], .storeBinary .b0 p)
  | .b8 =>
    if 8 ≤ room then (.success, p.take 8, .storeBinary .b8 p)
    else if 7 ≤ room then (.wait, p.take 7, .storeBinary .b1 (p.drop 7))
    else if 6 ≤ room then (.wait, p.take 6, .storeBinary .b2 (p.drop 6))
    else if 5 ≤ room then (.wait, p.take 5, .storeBinary .b0 (p.drop 5))
    else if 4 ≤ room then (.wait, p.take 4, .storeBinary .b4 (p.drop 4))
    else if 3 ≤ room then (.wait, p.take 3, .storeBinary .b0 (p.drop 3))
    else if 2 ≤ room then (.wait, p.take 2, .storeBinary .b0 (p.drop 2))
    else if 1 ≤ room then (.wait, p.take 1, .storeBinary .b0 (p.drop 1))
    else (.wait, [], .storeBinary .b0 p)

/-- The instance of `storeBinary` that `store<intN_t>` continues with. -/
def Width.binSize : Width → BinSize
  | .w8 => .b1
  | .w16 => .b2
  | .w32 => .b4
  | .w64 => .b8

/-- The loop of `storeBitsetContinue<V>` and `storeBitvecContinue` over the bits
    left: the bytes stored and the bits left when the buffer is full. -/
def storeBitsLoop : List Bool → ℕ → ℕ → ℕ → List Byte × List Bool
  | [], _, off, cur => (if off = 0 then [] else [UInt8.ofNat cur], [])
  | b :: bs, 0, _, _ => ([], b :: bs)
  | b :: bs, room + 1, off, cur =>
    let cur := (if off = 0 then 0 else cur) ||| if b then 1 <<< off else 0
    if off + 1 = 8 then
      let r := storeBitsLoop bs room 0 0
      (UInt8.ofNat cur :: r.1, r.2)
    else storeBitsLoop bs (room + 1) (off + 1) cur

/-- A chunk of a stream as it is sent: its checked size and its bytes. -/
def streamChunk (d : List Byte) : List Byte :=
  store16 ((computeValueWithCrc .w16 d.length).getD 0) ++ d

namespace SerializerBase
variable (s : SerializerBase)

def resetLimits : SerializerBase := { s with lmts := s.rdefaultlmts }

def fail (e : SerError) : Option (Ret × List Byte × SerializerBase) :=
  some (.failure, [], { s with err := some e })

/-- Replace the function on top, and push the announcement of a size over it. -/
def announce (f : SFrame) (fs : List SFrame) (crcsz : ℕ) (es : List SExt) :
    Option (Ret × List Byte × SerializerBase) :=
  some (.cont, [], { s with
    fstk := .storeCross .w64 crcsz :: .popExtStack :: f :: fs, estk := .val crcsz :: es })

/-- `storeStreamBegin`, over the function `storeStream` below it. -/
def storeStreamBegin (null : Bool) (from_ : ℕ) (fs : List SFrame) (room : ℕ) :
    Option (Ret × List Byte × SerializerBase) :=
  if toInt32 room < minStreamBufferSize then some (.wait, [], s)
  else
    let s := { s with streamerr := none, streamsz := 0 }
    if null then some (.success, store16 0xffff, { s with fstk := fs })
    else if from_ = invalidSize then some (.success, [], s)
    else match fs with
      | .storeStream ris len :: fs' =>
        let ris := ris.seekg from_
        if ris.tellg = some from_ then
          some (.success, [],
            { s with fstk := .storeStreamBegin null from_ :: .storeStream ris len :: fs' })
        else
          some (.success, store16 0xffff,
            { s with fstk := .storeStream ris len :: fs', streamerr := some .streamSeek })
      | _ => none

def storeStream (ris : IStream) (len : ℕ) (fs : List SFrame) (room : ℕ) :
    Option (Ret × List Byte × SerializerBase) :=
  if room < minStreamBufferSize then some (.wait, [], s)
  else
    let toread := min (min (room - 2) len) (maxValueWithoutCrc .w16)
    if toread = 0 then some (.success, store16 0, s)
    else
      let r := if ris.fail then ([], ris) else ris.read toread
      if r.1 = [] then some (.success, store16 0, { s with fstk := .storeStream r.2 len :: fs })
      else
        let streamsz := (s.streamsz + r.1.length) % 2 ^ 64
        if s.lmts.streamlimit < streamsz then
          some (.failure, [], { s with
            fstk := .storeStream r.2 len :: fs
            streamerr := some .streamLimit
            err := some .streamLimit })
        else
          some (.cont, streamChunk r.1, { s with
            fstk := .storeStream r.2 (if len = invalidSize then len else len - r.1.length) :: fs
            streamsz := streamsz })

/-- Call the function on top of `fstk`; `none` stands for undefined behaviour (an
    empty `estk`). -/
def step (null : Bool) (room : ℕ) : Option (Ret × List Byte × SerializerBase) :=
  match s.fstk with
  | [] => none
  | f :: fs =>
    match f with
    | .popExtStack =>
      match s.estk with
      | [] => none
      | _ :: es => some (.success, [], { s with estk := es })
    | .setStringLimit v =>
      some (.success, [], { s with lmts := { s.lmts with stringlimit := v } })
    | .setStreamLimit v =>
      some (.success, [], { s with lmts := { s.lmts with streamlimit := v } })
    | .setContainerLimit v =>
      some (.success, [], { s with lmts := { s.lmts with containerlimit := v } })
    | .storeBinary k p =>
      if null then some (.success, [], s)
      else
        let r := storeBinary k p room
        some (r.1, r.2.1, { s with fstk := r.2.2 :: fs })
    | .storeBool b =>
      if null then some (.success, [], s)
      else if 1 ≤ room then some (.success, [if b then 1 else 0], s) else some (.wait, [], s)
    | .storeInt w p =>
      if null then some (.success, [], s)
      else
        let r := storeBinary w.binSize p room
        some (r.1, r.2.1, { s with fstk := r.2.2 :: fs })
    | .storeString c =>
      if null then some (.success, [], s)
      else if s.lmts.stringlimit < c.length then s.fail .stringLimit
      else match computeValueWithCrc .w64 c.length with
        | none => s.fail .stringMaxLimit
        | some crcsz => s.announce (.storeBinary .b0 c) fs crcsz s.estk
    | .storeStreamBegin np from_ =>
      if null then some (.success, [], s) else s.storeStreamBegin np from_ fs room
    | .storeStreamCheck v =>
      if null then some (.success, [], s)
      else if s.lmts.streamlimit < v then
        some (.failure, [], { s with streamerr := some .streamLimit, err := some .streamLimit })
      else some (.success, [], s)
    | .storeStream ris len =>
      if null then some (.success, [], s) else s.storeStream ris len fs room
    | .storeUtf8 p =>
      if s.lmts.stringlimit < p.length - 1 then s.fail .utf8Limit
      else if maxValueWithoutCrc .w32 < p.length - 1 then s.fail .utf8MaxLimit
      else some (.cont, [], { s with fstk := .storeBinary .b0 p :: fs })
    | .storeCross w v =>
      if null then some (.success, [], s)
      else if crossSize w v ≤ room then (crossStore w v).map fun bs => (.success, bs, s)
      else (crossStore w v).map fun bs =>
        (.wait, bs.take room, { s with fstk := .storeCrossContinue room :: fs, tmpstr := bs })
    | .storeCrossContinue k =>
      if null then some (.success, [], s)
      else
        let towrite := min (s.tmpstr.length - k) room
        let out := (s.tmpstr.drop k).take towrite
        if k + towrite = s.tmpstr.length then some (.success, out, { s with tmpstr := [] })
        else some (.wait, out, { s with fstk := .storeCrossContinue (k + towrite) :: fs })
    | .storeBits bs =>
      if null then some (.success, [], s)
      else if s.lmts.containerlimit < bs.length then s.fail .containerLimit
      else match computeValueWithCrc .w64 bs.length with
        | none => s.fail .containerMaxLimit
        | some crcsz => s.announce (.storeBitsContinue bs 0) fs crcsz s.estk
    | .storeBitsContinue bs k =>
      if null then some (.success, [], s)
      else
        let r := storeBitsLoop (bs.drop k) room 0 0
        some (if r.2 = [] then .success else .wait, r.1,
          { s with fstk := .storeBitsContinue bs (bs.length - r.2.length) :: fs })
    | .storeContainer t (some c) =>
      if null then some (.success, [], s)
      else if s.lmts.containerlimit < c.length then s.fail .containerLimit
      else match computeValueWithCrc .w64 c.length with
        | none => s.fail .containerMaxLimit
        | some crcsz => s.announce (.storeContainerContinue t) fs crcsz (.iter c :: s.estk)
    | .storeContainer _ none =>
      if null then some (.success, [], s)
      else some (.cont, [], { s with
        fstk := .storeCross .w64 invalidSize :: .popExtStack :: fs,
        estk := .val invalidSize :: s.estk })
    | .storeContainerContinue t =>
      match s.estk with
      | .iter (o :: rest) :: es =>
        if null then some (.success, [], { s with estk := es })
        else some (.cont, [], { s with estk := .iter rest :: es }.push t o)
      | .iter [] :: es => some (.success, [], { s with estk := es })
      | _ => none
    | .storeArray t c =>
      match s.estk with
      | .vals size idx :: es =>
        if null then some (.success, [], { s with estk := es })
        else match c with
          | some c =>
            if size = invalidSize then
              some (.cont, [],
                { s with fstk := .storeCross .w64 invalidSize :: .popExtStack :: fs })
            else if s.lmts.containerlimit < size then s.fail .arrayLimit
            else match computeValueWithCrc .w64 size with
              | none => s.fail .arrayMaxLimit
              | some crcsz => s.announce (.storeArrayContinue t c) fs crcsz s.estk
          | none =>
            some (.cont, [], { s with
              fstk := .storeCross .w64 invalidSize :: .popExtStack :: fs,
              estk := .vals invalidSize idx :: es })
      | _ => none
    | .storeArrayContinue t os =>
      match s.estk with
      | .vals size idx :: es =>
        if null = false ∧ idx < size then
          (os[idx]?).map fun o =>
            (.cont, [], { s with estk := .vals size (idx + 1) :: es }.push t o)
        else some (.success, [], { s with estk := es })
      | _ => none
    | .store t o =>
      if null then some (.success, [], s)
      else some (.cont, [], { s with fstk := fs }.push t o)
    | .storeCall ctx t o err =>
      match s.estk with
      | [] => none
      | _ :: es =>
        -- with a context the call is left on `estk`
        if null then some (.success, [], if ctx then s else { s with estk := es })
        else
          let err := err.or s.err
          let ret := match err with
            | some e => SFrame.storeReturnError e
            | none => SFrame.storeReturnSuccess
          some (.cont, [], { s with fstk := ret :: fs, estk := es, err := err }.push t o)
    | .storeReturnError e => some (.failure, [], { s with err := s.err.or (some e) })
    | .storeReturnSuccess => some (.success, [], s)

end SerializerBase

/-! ## The loop of `run` -/

/-- What a call of `SerializerBase::run` comes to: the bytes stored, an error, or
    undefined behaviour. -/
inductive SRun where
  | done (out : List Byte) (s : SerializerBase)
  | failure (s : SerializerBase)
  | undefined

namespace SerializerBase

/-- The loop of `run` from a state with `out` already stored and `room` bytes
    left; `none` when `fuel` calls do not finish it. -/
def runLoop (null : Bool) : ℕ → ℕ → List Byte → SerializerBase → Option SRun
  | 0, _, _, _ => none
  | fuel + 1, room, out, s =>
    if s.fstk = [] then some (.done out s.resetLimits)
    else match s.step null room with
      | none => some .undefined
      | some (.cont, o, s') => runLoop null fuel (room - o.length) (out ++ o) s'
      | some (.success, o, s') =>
        runLoop null fuel (room - o.length) (out ++ o) { s' with fstk := s'.fstk.tail }
      | some (.wait, o, s') => some (.done (out ++ o) s')
      | some (.failure, _, s') => some (.failure s'.resetLimits)

/-- `run(_pb, _bl)` on a buffer of `bl` bytes ends, with `out` stored. -/
def Runs (s : SerializerBase) (bl : ℕ) (out : List Byte) (s' : SerializerBase) : Prop :=
  ∃ fuel, s.runLoop false fuel bl [] = some (.done out s')

def retval (out : List Byte) : ℤ := toInt32 out.length

end SerializerBase

end SolidFrame
