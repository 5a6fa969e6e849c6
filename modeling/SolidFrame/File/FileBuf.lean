/-
  SolidFrame formalization — the buffer of file streams
  (solid/frame/file/filestream.hpp, solid/frame/file/src/filestream.cpp).

  `FileBuf` is a `std::streambuf` over a file of the file store.  One buffer of
  `bufcp` characters is the get area or the put area; `off` is the position in
  the file of the start of the buffer.  Without a buffer every operation goes to
  the device.

  * pointers into the buffer are offsets from its start; `pbase` is the start and
    `epptr` the last character whenever there is a put area;
  * a device call may transfer less than it is asked for: `ks` are the amounts of
    the successive calls (any amount but zero; a call without an amount transfers
    all it can);
  * `StreamOp` are the operations of `std::streambuf` that the streams use, the
    non-virtual ones of the library (`sgetc`, `sbumpc`, `sputc`) included;
  * seeks before the start of the file are not modelled.
-/
import Mathlib.Data.Int.Order.Basic
import SolidFrame.Lib.Overwrite

namespace SolidFrame

variable {α : Type} [Inhabited α]

/-- `dev` is the content of the device. -/
structure FileBuf (α : Type) where
  bufcp : ℕ
  dev : List α
  buf : List α
  off : ℕ
  eback : ℕ
  gptr : ℕ
  egptr : ℕ
  pptr : Option ℕ
  deriving DecidableEq, Repr

inductive SeekDir where
  | beg | cur | fin
  deriving DecidableEq, Repr

inductive StreamOp (α : Type) where
  | sgetc | sbumpc
  | sgetn (n : ℕ)
  | sputc (c : α)
  | sputn (d : List α)
  /-- `seekpos` is `seekoff` from the start -/
  | seekoff (o : ℤ) (way : SeekDir)
  | sync
  deriving DecidableEq, Repr

/-- What an operation returns: a character or end of file, the characters of a
    block, success of a put, the number of characters put, a position or failure. -/
inductive StreamResult (α : Type) where
  | char (c : Option α)
  | chars (d : List α)
  | put (ok : Bool)
  | written (n : ℕ)
  | pos (p : Option ℕ)
  | done
  deriving DecidableEq, Repr

namespace FileBuf

/-! ## Areas -/

def resetGet (s : FileBuf α) : FileBuf α :=
  { s with eback := s.bufcp, gptr := s.bufcp, egptr := s.bufcp }

def resetPut (s : FileBuf α) : FileBuf α := { s with pptr := some 0 }

def resetBoth (s : FileBuf α) : FileBuf α := s.resetGet.resetPut

/-- `setp(nullptr, nullptr)` -/
def noPut (s : FileBuf α) : FileBuf α := { s with pptr := none }

def hasGet (s : FileBuf α) : Bool := s.gptr != s.egptr

/-- The constructor, with what the memory of the buffer held before. -/
def new (dev buf : List α) : FileBuf α :=
  { bufcp := buf.length, dev := dev, buf := buf, off := 0, eback := buf.length,
    gptr := buf.length, egptr := buf.length, pptr := none }

/-! ## The device -/

/-- `dev->read(…, n, off)`: up to `n` characters, none only at the end. -/
def devRead (s : FileBuf α) (ks : List ℕ) (n : ℕ) : List α :=
  (s.dev.drop s.off).take (min (max (ks.headD n) 1) n)

/-- The loop of `writeAll`, which offers the rest of the characters to the device
    at the same position again.  The number of turns is at most the number of
    characters. -/
def writeLoop (off : ℕ) : ℕ → List ℕ → List α → List α → ℕ → List α × ℕ × List ℕ
  | 0, ks, dev, _, wcnt => (dev, wcnt, ks)
  | turns + 1, ks, dev, d, wcnt =>
    let rv := min (max (ks.headD d.length) 1) d.length
    if rv = 0 then (dev, 0, ks.tail)
    else
      let dev' := writeAt dev off (d.take rv)
      if rv = d.length then (dev', wcnt + rv, ks.tail)
      else writeLoop off turns ks.tail dev' (d.drop rv) (wcnt + rv)

def writeAll (s : FileBuf α) (ks : List ℕ) (d : List α) : FileBuf α × ℕ × List ℕ :=
  let r := writeLoop s.off (d.length + 1) ks s.dev d 0
  ({ s with dev := r.1 }, r.2)

/-- `flushPut`: nothing is done when the put area is filled up to `epptr`. -/
def flushPut (s : FileBuf α) (ks : List ℕ) : FileBuf α × Bool × List ℕ :=
  match s.pptr with
  | none => (s, true, ks)
  | some p =>
    if p ≠ s.bufcp - 1 then
      let r := s.writeAll ks (s.buf.take p)
      if r.2.1 = p then (resetBoth { r.1 with off := r.1.off + p }, true, r.2.2)
      else (r.1.noPut, false, r.2.2)
    else (s, true, ks)

/-! ## Reading -/

def underflow (s : FileBuf α) (ks : List ℕ) : FileBuf α × Option α :=
  if s.bufcp ≠ 0 then
    let r := if s.pptr.isSome then s.flushPut ks else (s, true, ks)
    let s := r.1
    if r.2.1 = false then (s, some default)
    else if s.gptr < s.egptr then (s, s.buf[s.gptr]?)
    else
      let d := s.devRead r.2.2 s.bufcp
      if 0 < d.length then
        ({ s with buf := overwrite s.buf 0 d, eback := 0, gptr := 0, egptr := d.length }, d[0]?)
      else (s, none)
  else (s, (s.devRead ks 1)[0]?)

/-- `uflow`; with a buffer it is that of `std::streambuf`. -/
def uflow (s : FileBuf α) (ks : List ℕ) : FileBuf α × Option α :=
  if s.bufcp ≠ 0 then
    let r := s.underflow ks
    match r.2 with
    | none => r
    | some _ => ({ r.1 with gptr := r.1.gptr + 1 }, r.1.buf[r.1.gptr]?)
  else
    match (s.devRead ks 1)[0]? with
    | some c => ({ s with off := s.off + 1 }, some c)
    | none => (s, none)

def sgetc (s : FileBuf α) (ks : List ℕ) : FileBuf α × Option α :=
  if s.gptr < s.egptr then (s, s.buf[s.gptr]?) else s.underflow ks

def sbumpc (s : FileBuf α) (ks : List ℕ) : FileBuf α × Option α :=
  if s.gptr < s.egptr then ({ s with gptr := s.gptr + 1 }, s.buf[s.gptr]?) else s.uflow ks

def xsgetn (s : FileBuf α) (ks : List ℕ) (n : ℕ) : FileBuf α × List α :=
  if s.bufcp ≠ 0 then
    let r := if s.pptr.isSome then
        let f := s.flushPut ks
        if f.2.1 then (f.1.noPut.resetGet, f.2) else f
      else (s, true, ks)
    let s := r.1
    if r.2.1 = false then (s, [])
    else if s.gptr < s.egptr then
      let sz := min (s.egptr - s.gptr) n
      ({ s with gptr := s.gptr + sz }, (s.buf.drop s.gptr).take sz)
    else
      let d := s.devRead r.2.2 n
      if 0 < d.length then (resetGet { s with off := s.off + d.length }, d) else (s, [])
  else
    let d := s.devRead ks n
    ({ s with off := s.off + d.length }, d)

/-! ## Writing -/

/-- The put area is opened; the get area ends at the position reached. -/
def openPut (s : FileBuf α) : FileBuf α :=
  if s.pptr = none then
    (if s.hasGet then resetGet { s with off := s.off + s.gptr } else s).resetPut
  else s

/-- `overflow` of a character; `false` is end of file. -/
def overflow (s : FileBuf α) (ks : List ℕ) (c : α) : FileBuf α × Bool :=
  if s.bufcp ≠ 0 then
    match s.pptr with
    | none => ({ s.openPut with buf := overwrite s.buf 0 [c], pptr := some 1 }, true)
    | some p =>
      let s := { s with buf := overwrite s.buf p [c] }
      let r := s.writeAll ks (s.buf.take (p + 1))
      if r.2.1 = p + 1 then (resetPut { r.1 with off := r.1.off + (p + 1) }, false)
      else (r.1.noPut, false)
  else
    let r := min (max (ks.headD 1) 1) 1
    ({ s with dev := writeAt s.dev s.off [c] }, r == 1)

def sputc (s : FileBuf α) (ks : List ℕ) (c : α) : FileBuf α × Bool :=
  match s.pptr with
  | some p =>
    if p < s.bufcp - 1 then ({ s with buf := overwrite s.buf p [c], pptr := some (p + 1) }, true)
    else s.overflow ks c
  | none => s.overflow ks c

/-- The end of `xsputn`, when the put area was filled: it is flushed, and what is
    left of the block is buffered if it is small, else written. -/
def putRest (s : FileBuf α) (ks : List ℕ) (d : List α) : FileBuf α × Bool :=
  let r := s.flushPut ks
  let s := r.1
  if r.2.1 = false then (s, false)
  else if d ≠ [] ∧ d.length ≤ s.bufcp / 2 then
    let p := s.pptr.getD 0
    ({ s with buf := overwrite s.buf p d, pptr := some (p + d.length) }, true)
  else if d ≠ [] then
    let w := s.writeAll r.2.2 d
    if w.2.1 = d.length then (resetPut { w.1 with off := w.1.off + d.length }, true)
    else (w.1, false)
  else (s.resetPut, true)

def xsputn (s : FileBuf α) (ks : List ℕ) (d : List α) : FileBuf α × ℕ :=
  if s.bufcp ≠ 0 then
    let s := s.openPut
    let p := s.pptr.getD 0
    let wleftsz := s.bufcp - p
    let towrite := min wleftsz d.length
    let s := { s with
      buf := overwrite s.buf p (d.take towrite)
      pptr := some (p + towrite) }
    if d.drop towrite ≠ [] ∨ towrite = wleftsz then
      let r := s.putRest ks (d.drop towrite)
      (r.1, if r.2 then d.length else 0)
    else (s, d.length)
  else
    let rv := min (max (ks.headD d.length) 1) d.length
    ({ s with dev := writeAt s.dev s.off (d.take rv), off := s.off + rv }, rv)

/-! ## Positions -/

/-- The position a seek starts from, once the put area is closed. -/
def seekBase (s : FileBuf α) : SeekDir → ℕ
  | .beg => 0
  | .fin => if s.off ≤ s.dev.length then s.dev.length else s.off
  | .cur => s.off + (s.gptr - s.eback)

def seekoff (s : FileBuf α) (ks : List ℕ) (o : ℤ) (way : SeekDir) : Option (FileBuf α × Option ℕ) :=
  if s.bufcp ≠ 0 then
    let r := if s.pptr.isSome then
        let f := s.flushPut ks
        if f.2.1 then (f.1.noPut.resetGet, f.2) else f
      else (s, true, ks)
    let s := r.1
    if r.2.1 = false then some (s, none)
    else if way = .cur ∧ o = 0 then some (s, some (s.off + (s.gptr - s.eback)))
    else
      let newoff : ℤ := s.seekBase way + o
      if newoff < 0 then none
      else if s.off ≤ newoff.toNat ∧ newoff.toNat < s.off + (s.egptr - s.eback) then
        some ({ s with eback := 0, gptr := newoff.toNat - s.off }, some newoff.toNat)
      else some (resetGet (noPut { s with off := newoff.toNat }), some newoff.toNat)
  else
    let newoff : ℤ := match way with
      | .beg => o
      | .fin => s.dev.length + o
      | .cur => s.off + o
    if newoff < 0 then none else some ({ s with off := newoff.toNat }, some newoff.toNat)

def sync (s : FileBuf α) (ks : List ℕ) : FileBuf α :=
  if s.pptr.isSome then (s.flushPut ks).1 else s

/-- One operation, with the amounts its device calls transfer. -/
def exec (s : FileBuf α) (ks : List ℕ) : StreamOp α → Option (FileBuf α × StreamResult α)
  | .sgetc => some ((s.sgetc ks).1, .char (s.sgetc ks).2)
  | .sbumpc => some ((s.sbumpc ks).1, .char (s.sbumpc ks).2)
  | .sgetn n => some ((s.xsgetn ks n).1, .chars (s.xsgetn ks n).2)
  | .sputc c => some ((s.sputc ks c).1, .put (s.sputc ks c).2)
  | .sputn d => some ((s.xsputn ks d).1, .written (s.xsputn ks d).2)
  | .seekoff o way => (s.seekoff ks o way).map fun r => (r.1, .pos r.2)
  | .sync => some (s.sync ks, .done)

end FileBuf

end SolidFrame
