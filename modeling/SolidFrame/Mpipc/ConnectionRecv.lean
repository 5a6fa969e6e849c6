/-
  SolidFrame formalization — the receive buffer of a connection
  (`solid/frame/mpipc/src/mpipcconnection.cpp`, `solid/frame/aio/aiostream.hpp`).

  A connection receives into one buffer, first for the functions of `RecvRaw`
  requests and then, once it is active or passive, for its `MessageReader`.
-/
import SolidFrame.Lib.Overwrite
import SolidFrame.Mpipc.MessageReaderSafety

namespace SolidFrame

open List MessageReader Nat Option

/-! ## Model -/

/-- What the socket calls when something was received. -/
inductive RecvFnc where
  /-- with the function of the request: how many of the bytes that it is shown it uses -/
  | onRecvSomeRaw (complete : List Byte → ℕ)
  | onRecv

/-- `recv_fnc`, `recv_buf` and `recv_buf_cp` of the socket, `recv_buf` as an offset in the
    buffer of the connection. -/
structure PendingRecv where
  recvFnc : RecvFnc
  recvBuf : ℕ
  recvBufCp : ℕ

/-- The part of `Connection` that receives, with its socket.  The offsets are `uint32_t`,
    and the buffer has at most 255 KiB. -/
structure ConnectionRecv (ω δ : Type) where
  recvBuf : List Byte
  recvBufOff : ℕ
  consBufOff : ℕ
  raw : Bool
  active : Bool
  stopping : Bool
  sock : Option PendingRecv
  msgReader : MessageReader ω δ

namespace ConnectionRecv
variable {ω δ : Type}

/-- What happens to the bytes. -/
inductive Output where
  /-- the socket wrote them to the buffer -/
  | received (bs : List Byte)
  /-- a `RecvRaw` function used them -/
  | rawUsed (bs : List Byte)
  /-- `MessageReader::read` consumed them -/
  | readUsed (bs : List Byte)

def Output.receivedBytes : Output → List Byte
  | .received bs => bs
  | _ => []

def Output.rawBytes : Output → List Byte
  | .rawUsed bs => bs
  | _ => []

def Output.readBytes : Output → List Byte
  | .readUsed bs => bs
  | _ => []

def recvBufferCapacity (c : ConnectionRecv ω δ) : ℕ := c.recvBuf.length

/-- The bytes from `recv_buf + cons_buf_off` to `recv_buf + recv_buf_off`. -/
def unconsumed (c : ConnectionRecv ω δ) : List Byte :=
  window c.recvBuf c.consBufOff c.recvBufOff

def doOptimizeRecvBufferForced (c : ConnectionRecv ω δ) : ConnectionRecv ω δ :=
  { c with
    recvBuf := overwrite c.recvBuf 0 c.unconsumed
    consBufOff := 0
    recvBufOff := c.recvBufOff - c.consBufOff }

def doOptimizeRecvBuffer (c : ConnectionRecv ω δ) : ConnectionRecv ω δ :=
  if c.recvBufOff - c.consBufOff ≤ c.consBufOff then c.doOptimizeRecvBufferForced else c

/-- `postRecvSome`: refused (`error_already`) when a receive is pending. -/
def postRecvSome (fnc : RecvFnc) (buf cp : ℕ) (c : ConnectionRecv ω δ) : ConnectionRecv ω δ :=
  match c.sock with
  | none => { c with sock := some ⟨fnc, buf, cp⟩ }
  | some _ => c

/-- The part of `doStop` that receiving depends on. -/
def doStop (c : ConnectionRecv ω δ) : ConnectionRecv ω δ := { c with stopping := true }

/-- `doHandleEventRecvRaw`: the bytes that the function of the request uses. -/
def doHandleEventRecvRaw (complete : List Byte → ℕ) (c : ConnectionRecv ω δ) :
    List Byte × ConnectionRecv ω δ :=
  if c.raw then
    if c.recvBufOff = c.consBufOff then
      ([], c.postRecvSome (.onRecvSomeRaw complete) 0 c.recvBufferCapacity)
    else
      let usedSize := min (complete c.unconsumed) (c.recvBufOff - c.consBufOff)
      let used := c.unconsumed.take usedSize
      if c.consBufOff + usedSize = c.recvBufOff then
        (used, { c with consBufOff := 0, recvBufOff := 0 })
      else (used, { c with consBufOff := c.consBufOff + usedSize })
  else ([], c)

/-- `onRecvSomeRaw`: the bytes that the function of the request uses. -/
def onRecvSomeRaw (complete : List Byte → ℕ) (sz : ℕ) (c : ConnectionRecv ω δ) :
    List Byte × ConnectionRecv ω δ :=
  let shown := c.recvBuf.take sz
  let usedSize := min (complete shown) sz
  if usedSize < sz then
    (shown.take usedSize, { c with recvBufOff := sz, consBufOff := usedSize })
  else (shown.take usedSize, c)

/-- `doHandleEventEnterActive`; `error` is what `activateConnection` returns. -/
def doHandleEventEnterActive (error : Bool) (c : ConnectionRecv ω δ) : ConnectionRecv ω δ :=
  if c.stopping then c
  else if error then c.doStop
  else postRecvSome .onRecv 0 c.recvBufferCapacity { c with active := true }

def doHandleEventEnterPassive (c : ConnectionRecv ω δ) : ConnectionRecv ω δ :=
  postRecvSome .onRecv 0 c.recvBufferCapacity { c with raw := false }

/-- `recvSome`: what was received, and what later calls find; nothing when the receive is
    left pending.  `more` is what successive calls find at the socket. -/
def recvSome (buf cp : ℕ) (more : List (List Byte)) (c : ConnectionRecv ω δ) :
    Option (List Byte × List (List Byte)) × ConnectionRecv ω δ :=
  match c.sock, more with
  | some _, _ => (some ([], more), c)
  | none, [] => (none, { c with sock := some ⟨.onRecv, buf, cp⟩ })
  | none, avail :: more =>
    (some (avail.take cp, more), { c with recvBuf := overwrite c.recvBuf buf (avail.take cp) })

section Reader
variable (R : ReaderProtocol ω δ) (cfg : ReaderConfiguration)

/-- The call of `read` in `onRecv`: the bytes that are consumed, and whether there was no
    error. -/
def readSome (c : ConnectionRecv ω δ) : Option (List Byte × Bool × ConnectionRecv ω δ) :=
  match MessageReader.read R cfg c.unconsumed c.msgReader with
  | .error _ => none
  | .ok r =>
    let n := c.unconsumed.length - r.rest.length
    some (c.unconsumed.take n, r.st.rerror.isNone,
      { c with consBufOff := c.consBufOff + n, msgReader := ⟨r.state, r.st.messageQ⟩ })

/-- The loop of `onRecv`, with `repeatcnt` turns left; `sz` bytes were received, none when
    there was an error. -/
def onRecvLoop : ℕ → ℕ → List (List Byte) → ConnectionRecv ω δ →
    Option (List Output × ConnectionRecv ω δ)
  | 0, _, _, _ => none
  | repeatcnt + 1, sz, more, c =>
    if sz = 0 then some ([], c.doStop)
    else
      let c := { c with recvBufOff := c.recvBufOff + sz }
      let bufsz := c.recvBufOff - c.consBufOff
      match c.readSome R cfg with
      | none => none
      | some (used, false, c) => some ([.readUsed used], c.doStop)
      | some (used, true, c) =>
        let c := if c.consBufOff < bufsz then c.doOptimizeRecvBufferForced else c
        let c := c.doOptimizeRecvBuffer
        let bufsz := c.recvBufferCapacity - c.recvBufOff
        if repeatcnt = 0 then some ([.readUsed used], c.postRecvSome .onRecv c.recvBufOff bufsz)
        else
          match c.recvSome c.recvBufOff bufsz more with
          | (none, c) => some ([.readUsed used], c)
          | (some (bs, more), c) =>
            (onRecvLoop repeatcnt bs.length more c).map fun r =>
              ([.readUsed used, .received bs] ++ r.1, r.2)

def onRecv (sz : ℕ) (more : List (List Byte)) (c : ConnectionRecv ω δ) :
    Option (List Output × ConnectionRecv ω δ) :=
  onRecvLoop R cfg 4 sz more c

/-- What a connection handles. -/
inductive Event where
  | recvRaw (complete : List Byte → ℕ)
  | enterActive (error : Bool)
  | enterPassive
  /-- `doStop`, for any other reason -/
  | stop
  /-- the socket can receive: `avail` is there, nothing after an error or a shutdown, and
      `more` is what calls of `recvSome` find -/
  | recv (avail : List Byte) (more : List (List Byte))

/-- The event is handled; nothing is returned when what the reader does is not defined. -/
def exec (c : ConnectionRecv ω δ) : Event → Option (List Output × ConnectionRecv ω δ)
  | .recvRaw complete =>
    let r := c.doHandleEventRecvRaw complete
    some ([.rawUsed r.1], r.2)
  | .enterActive error => some ([], c.doHandleEventEnterActive error)
  | .enterPassive => some ([], c.doHandleEventEnterPassive)
  | .stop => some ([], c.doStop)
  | .recv avail more =>
    match c.sock with
    | none => some ([], c)
    | some ⟨fnc, buf, cp⟩ =>
      let bs := avail.take cp
      let c := { c with sock := none, recvBuf := overwrite c.recvBuf buf bs }
      match fnc with
      | .onRecvSomeRaw complete =>
        let r := c.onRecvSomeRaw complete bs.length
        some ([.received bs, .rawUsed r.1], r.2)
      | .onRecv =>
        (onRecv R cfg bs.length more c).map fun r => (.received bs :: r.1, r.2)

end Reader

/-! ## What happens to the bytes -/

def received (os : List Output) : List Byte := os.flatMap Output.receivedBytes

def rawUsed (os : List Output) : List Byte := os.flatMap Output.rawBytes

def readUsed (os : List Output) : List Byte := os.flatMap Output.readBytes

/-- The offsets are in order, and what was used is what was received, less what is in the
    buffer. -/
structure Whole (raw read recvd : List Byte) (c : ConnectionRecv ω δ) : Prop where
  cons_le : c.consBufOff ≤ c.recvBufOff
  recv_le : c.recvBufOff ≤ c.recvBufferCapacity
  bytes : raw ++ read ++ c.unconsumed = recvd

namespace Whole
variable {raw read recvd : List Byte} {c : ConnectionRecv ω δ}

section
variable (h : Whole raw read recvd c)
include h

theorem doOptimizeRecvBufferForced : Whole raw read recvd c.doOptimizeRecvBufferForced := by
  have hlen : c.unconsumed.length = c.recvBufOff - c.consBufOff := window_length h.recv_le
  have hle : c.recvBufOff ≤ c.recvBuf.length := h.recv_le
  refine ⟨zero_le _, ?_, ?_⟩
  · show c.recvBufOff - c.consBufOff ≤ (overwrite c.recvBuf 0 c.unconsumed).length
    rw [overwrite_length (by omega)]
    omega
  · rw [← h.bytes]
    exact congrArg _ (window_move h.recv_le)

theorem doOptimizeRecvBuffer : Whole raw read recvd c.doOptimizeRecvBuffer := by
  rw [ConnectionRecv.doOptimizeRecvBuffer]
  split_ifs
  · exact h.doOptimizeRecvBufferForced
  · exact h

theorem write {bs : List Byte} (hfit : c.recvBufOff + bs.length ≤ c.recvBufferCapacity) :
    Whole raw read (recvd ++ bs) { c with
      recvBuf := overwrite c.recvBuf c.recvBufOff bs
      recvBufOff := c.recvBufOff + bs.length } := by
  refine ⟨le_trans h.cons_le (le_add_right _ _), ?_, ?_⟩
  · show _ ≤ (overwrite c.recvBuf c.recvBufOff bs).length
    rw [overwrite_length hfit]
    exact hfit
  · show raw ++ read ++ window (overwrite c.recvBuf c.recvBufOff bs) c.consBufOff
      (c.recvBufOff + bs.length) = recvd ++ bs
    rw [window_write h.cons_le h.recv_le, ← append_assoc, ← h.bytes]
    rfl

theorem advance {n : ℕ} (hn : n ≤ c.unconsumed.length) : c.consBufOff + n ≤ c.recvBufOff ∧
      c.unconsumed.take n ++ window c.recvBuf (c.consBufOff + n) c.recvBufOff = c.unconsumed := by
  have hlen : c.unconsumed.length = c.recvBufOff - c.consBufOff := window_length h.recv_le
  have hle := h.cons_le
  exact ⟨by omega, window_take_append _ _ _ _⟩

theorem readSome {R : ReaderProtocol ω δ} {cfg : ReaderConfiguration} {used : List Byte} {ok : Bool}
    {c' : ConnectionRecv ω δ}
    (hr : c.readSome R cfg = some (used, ok, c')) : Whole raw (read ++ used) recvd c' := by
  unfold ConnectionRecv.readSome at hr
  split at hr
  · cases hr
  · cases hr
    obtain ⟨hle, hbytes⟩ := h.advance (sub_le _ _)
    refine ⟨hle, h.recv_le, ?_⟩
    rw [← h.bytes, ← append_assoc raw, append_assoc (raw ++ read)]
    exact congrArg _ hbytes

end

end Whole

/-- The receive that is pending, if any, leaves the bytes in order.  One for a `RecvRaw`
    request writes to an empty buffer, before the reader has consumed anything; one for
    the reader writes behind what was received. -/
def Posted (read : List Byte) (c : ConnectionRecv ω δ) : Prop :=
  match c.sock with
  | none => True
  | some ⟨.onRecvSomeRaw _, buf, cp⟩ =>
    buf = 0 ∧ cp ≤ c.recvBufferCapacity ∧ c.consBufOff = c.recvBufOff ∧ read = []
  | some ⟨.onRecv, buf, cp⟩ =>
    buf = c.recvBufOff ∧ buf + cp ≤ c.recvBufferCapacity ∧ (c.active = true ∨ c.raw = false)

structure Inv (os : List Output) (c : ConnectionRecv ω δ) : Prop
    extends Whole (rawUsed os) (readUsed os) (received os) c where
  posted : Posted (readUsed os) c
  order : readUsed os ≠ [] → c.active = true ∨ c.raw = false

/-! ## Receiving for the reader -/

section Loop
variable {R : ReaderProtocol ω δ} {cfg : ReaderConfiguration} {raw read recvd : List Byte}
  {c c' : ConnectionRecv ω δ}

/-- The flags and the pending receive are as before. -/
structure SameMode (c c' : ConnectionRecv ω δ) : Prop where
  active : c'.active = c.active
  raw : c'.raw = c.raw
  sock : c'.sock = c.sock

theorem SameMode.trans {c1 c2 c3 : ConnectionRecv ω δ} (h : SameMode c1 c2) (h' : SameMode c2 c3) :
    SameMode c1 c3 :=
  ⟨h'.active.trans h.active, h'.raw.trans h.raw, h'.sock.trans h.sock⟩

theorem sameMode_optimize (c : ConnectionRecv ω δ) : SameMode c c.doOptimizeRecvBuffer := by
  rw [doOptimizeRecvBuffer]
  split_ifs <;> exact ⟨rfl, rfl, rfl⟩

theorem sameMode_readSome {used : List Byte} {ok : Bool}
    (h : c.readSome R cfg = some (used, ok, c')) : SameMode c c' := by
  unfold readSome at h
  split at h
  · cases h
  · cases h
    exact ⟨rfl, rfl, rfl⟩

theorem Whole.compact (h : Whole raw read recvd c) (bufsz : ℕ) :
    ∃ c', c' =
      (if c.consBufOff < bufsz then c.doOptimizeRecvBufferForced else c).doOptimizeRecvBuffer ∧
      Whole raw read recvd c' ∧ SameMode c c' := by
  refine ⟨_, rfl, ?_, ?_⟩
  · split_ifs
    · exact h.doOptimizeRecvBufferForced.doOptimizeRecvBuffer
    · exact h.doOptimizeRecvBuffer
  · split_ifs
    · have hsame : SameMode c c.doOptimizeRecvBufferForced := ⟨rfl, rfl, rfl⟩
      exact hsame.trans (sameMode_optimize _)
    · exact sameMode_optimize c

theorem recvSome_cons (h : c.sock = none) (buf cp : ℕ) (avail : List Byte)
    (more : List (List Byte)) : c.recvSome buf cp (avail :: more) = (some (avail.take cp, more),
      { c with recvBuf := overwrite c.recvBuf buf (avail.take cp) }) := by
  cases c
  cases h
  rfl

/-- A receive for the reader is pending, behind what was received. -/
def awaiting (c : ConnectionRecv ω δ) : ConnectionRecv ω δ :=
  { c with sock := some ⟨.onRecv, c.recvBufOff, c.recvBufferCapacity - c.recvBufOff⟩ }

theorem Whole.posted_awaiting (h : Whole raw read recvd c) (hmode : c.active ∨ c.raw = false)
    (read' : List Byte) : Posted read' c.awaiting :=
  ⟨rfl, Nat.le_of_eq (Nat.add_sub_cancel' h.recv_le), hmode⟩

/-- The outcome of the loop of `onRecv`: what it received and what the reader consumed, in
    order. -/
def Ends (raw read recvd : List Byte) (c : ConnectionRecv ω δ) (os : List Output)
    (c' : ConnectionRecv ω δ) : Prop :=
  Whole raw (read ++ readUsed os) (recvd ++ received os) c' ∧ rawUsed os = [] ∧
    c'.active = c.active ∧ c'.raw = c.raw ∧ ∀ read', Posted read' c'

theorem Whole.ends {used : List Byte} {c1 : ConnectionRecv ω δ}
    (h : Whole raw (read ++ used) recvd c') (hsame : SameMode c1 c') {c2 : ConnectionRecv ω δ}
    (hactive : c2.active = c'.active) (hraw : c2.raw = c'.raw)
    (hoff : c2.recvBufOff = c'.recvBufOff)
    (hcons : c2.consBufOff = c'.consBufOff) (hbuf : c2.recvBuf = c'.recvBuf)
    (hposted : ∀ read', Posted read' c2) : Ends raw read recvd c1 [.readUsed used] c2 := by
  refine ⟨⟨?_, ?_, ?_⟩, rfl, hactive.trans hsame.active, hraw.trans hsame.raw, hposted⟩
  · rw [hcons, hoff]; exact h.cons_le
  · rw [recvBufferCapacity, hbuf, hoff]; exact h.recv_le
  · rw [unconsumed, hbuf, hcons, hoff, received, readUsed]
    simp only [flatMap_cons, flatMap_nil, Output.readBytes, Output.receivedBytes, append_nil]
    exact h.bytes

theorem Ends.cons {used bs : List Byte} {c1 c2 : ConnectionRecv ω δ} {os : List Output}
    (h : Ends raw (read ++ used) (recvd ++ bs) c2 os c') (hsame : SameMode c1 c2) :
    Ends raw read recvd c1 ([.readUsed used, .received bs] ++ os) c' := by
  obtain ⟨hwhole, hraw, hactive, hraw', hposted⟩ := h
  refine ⟨?_, hraw, hactive.trans hsame.active, hraw'.trans hsame.raw, hposted⟩
  simpa only [readUsed, received, flatMap_cons, flatMap_append, flatMap_nil,
    Output.readBytes, Output.receivedBytes, append_nil, nil_append,
    append_assoc] using hwhole

theorem onRecvLoop_ends {n sz : ℕ} {more : List (List Byte)} {os : List Output}
    (h : Whole raw read recvd { c with recvBufOff := c.recvBufOff + sz }) (hsock : c.sock = none)
    (hmode : c.active ∨ c.raw = false)
    (hrun : onRecvLoop R cfg n sz more c = some (os, c')) : Ends raw read recvd c os c' := by
  induction n generalizing sz more c read recvd os with
  | zero => cases hrun
  | succ n ih =>
    rw [onRecvLoop] at hrun
    by_cases hsz : sz = 0
    · -- an error: nothing was received
      rw [if_pos hsz] at hrun
      cases hrun
      subst hsz
      refine ⟨?_, rfl, rfl, rfl, fun _ => by simp only [Posted, doStop, hsock]⟩
      simp only [readUsed, received, flatMap_nil, append_nil]
      exact ⟨h.cons_le, h.recv_le, h.bytes⟩
    rw [if_neg hsz] at hrun
    cases hread : readSome R cfg { c with recvBufOff := c.recvBufOff + sz } with
    | none => simp only [hread] at hrun; cases hrun
    | some res =>
      obtain ⟨used, ok, c1⟩ := res
      have h1 := h.readSome hread
      have hsame1 := sameMode_readSome hread
      cases ok with
      | false =>
        simp only [hread] at hrun
        cases hrun
        exact h1.ends hsame1 rfl rfl rfl rfl rfl
          fun _ => by simp only [Posted, doStop, hsame1.sock, hsock]
      | true =>
        obtain ⟨c2, hc2, h2, hsame2⟩ := h1.compact (c.recvBufOff + sz - c.consBufOff)
        simp only [hread, ← hc2] at hrun
        have hsame := hsame1.trans hsame2
        have hsock2 : c2.sock = none := hsame.sock.trans hsock
        have hmode2 : c2.active ∨ c2.raw = false := by
          rw [hsame.active, hsame.raw]
          exact hmode
        by_cases hn : n = 0
        · -- the last turn posts the receive
          simp only [if_pos hn, postRecvSome, hsock2] at hrun
          cases hrun
          exact h2.ends hsame rfl rfl rfl rfl rfl (h2.posted_awaiting hmode2)
        rw [if_neg hn] at hrun
        cases more with
        | nil =>
          simp only [recvSome, hsock2] at hrun
          cases hrun
          exact h2.ends hsame rfl rfl rfl rfl rfl (h2.posted_awaiting hmode2)
        | cons avail more =>
          simp only [recvSome_cons hsock2, map_eq_some_iff] at hrun
          obtain ⟨⟨os', c3⟩, hrun, hos⟩ := hrun
          cases hos
          set bs := avail.take (c2.recvBufferCapacity - c2.recvBufOff) with hbs
          have hfit : c2.recvBufOff + bs.length ≤ c2.recvBufferCapacity := by
            have hle := h2.recv_le
            rw [hbs, length_take]
            omega
          have hends := ih (c := { c2 with recvBuf := overwrite c2.recvBuf c2.recvBufOff bs })
            (h2.write hfit) hsock2 hmode2 hrun
          exact hends.cons ⟨hsame.active, hsame.raw, hsame.sock⟩

end Loop

/-! ## Runs -/

section Reads
variable (R : ReaderProtocol ω δ) (cfg : ReaderConfiguration)

/-- Every call of `read` in the loop of `onRecv` meets its condition. -/
def ReadsMeet : ℕ → ℕ → List (List Byte) → ConnectionRecv ω δ → Prop
  | 0, _, _, _ => True
  | repeatcnt + 1, sz, more, c =>
    sz ≠ 0 →
      let c := { c with recvBufOff := c.recvBufOff + sz }
      let bufsz := c.recvBufOff - c.consBufOff
      ReadMeets R cfg ⟨c.unconsumed, c.msgReader.state, ⟨c.msgReader.messageQ, [], none⟩⟩ ∧
        ∀ used c', c.readSome R cfg = some (used, true, c') →
          let c' := if c'.consBufOff < bufsz then c'.doOptimizeRecvBufferForced else c'
          let c' := c'.doOptimizeRecvBuffer
          ∀ bs more' c'', c'.recvSome c'.recvBufOff (c'.recvBufferCapacity - c'.recvBufOff) more =
            (some (bs, more'), c'') → ReadsMeet repeatcnt bs.length more' c''

/-- The event leaves the bytes in order.  A request for raw bytes that an active connection
    handles finds nothing in the buffer and the receive for the reader pending; when the
    first receive for the reader is posted, no bytes are left from the requests; and the
    reader can read what is received for it. -/
def KeepsBytes (c : ConnectionRecv ω δ) : Event → Prop
  | .recvRaw _ =>
    c.raw = true → c.active = true → c.recvBufOff = c.consBufOff ∧ c.sock.isSome = true
  | .enterActive error => c.stopping = false → error = false → c.sock = none → c.recvBufOff = 0
  | .enterPassive => c.sock = none → c.recvBufOff = 0
  | .stop => True
  | .recv avail more => ∀ buf cp, c.sock = some ⟨.onRecv, buf, cp⟩ →
    ReadsMeet R cfg 4 (avail.take cp).length more
      { c with sock := none, recvBuf := overwrite c.recvBuf buf (avail.take cp) }

end Reads

section Steps
variable {R : ReaderProtocol ω δ} {cfg : ReaderConfiguration} {os : List Output}
  {c c' : ConnectionRecv ω δ}

theorem received_append (os os' : List Output) :
    received (os ++ os') = received os ++ received os' :=
  flatMap_append

theorem rawUsed_append (os os' : List Output) : rawUsed (os ++ os') = rawUsed os ++ rawUsed os' :=
  flatMap_append

theorem readUsed_append (os os' : List Output) :
    readUsed (os ++ os') = readUsed os ++ readUsed os' :=
  flatMap_append

section
variable (h : Inv os c)
include h

theorem Inv.setMode {active raw : Bool} (hmode : active ∨ raw = false) :
    Inv os { c with active := active, raw := raw } := by
  refine ⟨⟨h.cons_le, h.recv_le, h.bytes⟩, ?_, fun _ => hmode⟩
  have hposted := h.posted
  obtain ⟨_, _, _, _, _, _, sock, _⟩ := c
  rcases sock with _ | ⟨fnc, buf, cp⟩
  · trivial
  · cases fnc with
    | onRecvSomeRaw complete => exact hposted
    | onRecv => exact ⟨hposted.1, hposted.2.1, hmode⟩

theorem Inv.postRecvSome (hzero : c.sock = none → c.recvBufOff = 0)
    (hmode : c.active ∨ c.raw = false) :
    Inv os (c.postRecvSome .onRecv 0 c.recvBufferCapacity) := by
  cases hsock : c.sock with
  | some p => simpa only [ConnectionRecv.postRecvSome, hsock] using h
  | none =>
    simp only [ConnectionRecv.postRecvSome, hsock]
    exact ⟨⟨h.cons_le, h.recv_le, h.bytes⟩,
      ⟨(hzero hsock).symm, le_of_eq (zero_add _), hmode⟩, fun _ => hmode⟩

theorem Inv.readUsed_eq_nil (hraw : c.raw) (hactive : c.active = false) : readUsed os = [] := by
  by_contra hne
  rcases h.order hne with hon | hoff
  · rw [hactive] at hon; cases hon
  · rw [hraw] at hoff; cases hoff

theorem Inv.sock_eq_none (hraw : c.raw) (hactive : c.active = false)
    (hne : c.recvBufOff ≠ c.consBufOff) : c.sock = none := by
  have hposted := h.posted
  cases hsock : c.sock with
  | none => rfl
  | some p =>
    obtain ⟨fnc, buf, cp⟩ := p
    rw [Posted, hsock] at hposted
    cases fnc with
    | onRecvSomeRaw complete => exact absurd hposted.2.2.1.symm hne
    | onRecv =>
      rcases hposted.2.2 with hon | hoff
      · rw [hactive] at hon; cases hon
      · rw [hraw] at hoff; cases hoff

theorem Inv.rawUsed {used : List Byte} (hread : readUsed os = [])
    (hused : used ++ c'.unconsumed = c.unconsumed) (hcons : c'.consBufOff ≤ c'.recvBufOff)
    (hrecv : c'.recvBufOff ≤ c'.recvBufferCapacity) (hposted : Posted [] c') :
    Inv (os ++ [.rawUsed used]) c' := by
  have hread' : readUsed (os ++ [.rawUsed used]) = [] := by
    rw [readUsed_append, hread]
    rfl
  refine ⟨⟨hcons, hrecv, ?_⟩, hread' ▸ hposted, fun hne => absurd hread' hne⟩
  have hraw : ConnectionRecv.rawUsed (os ++ [.rawUsed used]) =
      ConnectionRecv.rawUsed os ++ used := by
    rw [rawUsed_append]
    simp [ConnectionRecv.rawUsed, Output.rawBytes]
  have hrecvd : received (os ++ [.rawUsed used]) = received os := by
    rw [received_append]
    simp [received, Output.receivedBytes]
  rw [hread', hraw, hrecvd, ← h.bytes, hread, append_nil, append_nil, append_assoc, hused]

theorem Inv.rawUsed_nil : Inv (os ++ [.rawUsed []]) c := by
  obtain ⟨⟨hcons, hrecv, hbytes⟩, hposted, horder⟩ := h
  have hread : readUsed (os ++ [.rawUsed []]) = readUsed os := by
    rw [readUsed_append]
    exact append_nil _
  refine ⟨⟨hcons, hrecv, ?_⟩, hread ▸ hposted, fun hne => horder (hread ▸ hne)⟩
  rw [rawUsed_append, readUsed_append, received_append]
  simpa [ConnectionRecv.rawUsed, readUsed, received, Output.rawBytes, Output.readBytes,
    Output.receivedBytes] using hbytes

theorem Inv.doHandleEventRecvRaw (complete : List Byte → ℕ)
    (hkeep : KeepsBytes R cfg c (.recvRaw complete)) :
    Inv (os ++ [.rawUsed (c.doHandleEventRecvRaw complete).1])
    (c.doHandleEventRecvRaw complete).2 := by
  rw [ConnectionRecv.doHandleEventRecvRaw]
  by_cases hraw : c.raw
  · rw [if_pos hraw]
    by_cases hempty : c.recvBufOff = c.consBufOff
    · rw [if_pos hempty]
      refine Inv.rawUsed_nil ?_
      cases hsock : c.sock with
      | some p => simpa only [ConnectionRecv.postRecvSome, hsock] using h
      | none =>
        -- the receive is posted: the connection is not active yet
        have hactive : c.active = false := by
          by_contra hon
          have hsome := (hkeep hraw (by simpa using hon)).2
          rw [hsock] at hsome
          cases hsome
        have hread := h.readUsed_eq_nil hraw hactive
        simp only [ConnectionRecv.postRecvSome, hsock]
        exact ⟨⟨h.cons_le, h.recv_le, h.bytes⟩, ⟨rfl, le_refl _, hempty.symm, hread⟩, h.order⟩
    · rw [if_neg hempty]
      have hactive : c.active = false := by
        by_contra hon
        exact hempty (hkeep hraw (by simpa using hon)).1
      have hread := h.readUsed_eq_nil hraw hactive
      have hsock := h.sock_eq_none hraw hactive hempty
      have hlen : c.unconsumed.length = c.recvBufOff - c.consBufOff := window_length h.recv_le
      set n := min (complete c.unconsumed) (c.recvBufOff - c.consBufOff) with hn
      obtain ⟨hle, hbytes⟩ := h.toWhole.advance (n := n) (by omega)
      by_cases hall : c.consBufOff + n = c.recvBufOff
      · simp only [if_pos hall]
        refine h.rawUsed hread ?_ (le_refl 0) (zero_le _) (by simp only [Posted, hsock])
        rw [hall, window_self] at hbytes
        exact hbytes
      · simp only [if_neg hall]
        exact h.rawUsed hread hbytes hle h.recv_le (by simp only [Posted, hsock])
  · rw [if_neg hraw]
    exact h.rawUsed_nil

theorem Inv.received_front (hempty : c.consBufOff = c.recvBufOff)
    (hread : readUsed os = []) {bs : List Byte} (hfit : bs.length ≤ c.recvBufferCapacity) :
    Inv (os ++ [.received bs]) { c with
      sock := none
      recvBuf := overwrite c.recvBuf 0 bs
      recvBufOff := bs.length
      consBufOff := 0 } := by
  have hread' : readUsed (os ++ [.received bs]) = [] := by
    rw [readUsed_append, hread]
    rfl
  refine ⟨⟨zero_le _, ?_, ?_⟩, trivial, fun hne => absurd hread' hne⟩
  · show _ ≤ (overwrite c.recvBuf 0 bs).length
    rw [overwrite_length (by rw [zero_add]; exact hfit)]
    exact hfit
  · have hwin : window (overwrite c.recvBuf 0 bs) 0 bs.length = bs := by
      have hw := window_write (le_refl 0) (zero_le c.recvBuf.length) bs
      rwa [zero_add, window_self, nil_append] at hw
    have hraw : ConnectionRecv.rawUsed (os ++ [.received bs]) = ConnectionRecv.rawUsed os := by
      rw [rawUsed_append]
      exact append_nil _
    have hrecvd : received (os ++ [.received bs]) = received os ++ bs := by
      rw [received_append]
      simp [received, Output.receivedBytes]
    have hbytes := h.bytes
    rw [unconsumed, hempty, window_self, hread, append_nil, append_nil] at hbytes
    rw [hread', hraw, hrecvd, hbytes, unconsumed, hwin, append_nil]

theorem Inv.onRecvSomeRaw {buf cp : ℕ} {complete : List Byte → ℕ}
    (hsock : c.sock = some ⟨.onRecvSomeRaw complete, buf, cp⟩) {bs : List Byte}
    (hbs : bs.length ≤ cp) {r : List Byte × ConnectionRecv ω δ}
    (hr : r = ConnectionRecv.onRecvSomeRaw complete bs.length
      { c with sock := none, recvBuf := overwrite c.recvBuf buf bs }) :
    Inv (os ++ [.received bs, .rawUsed r.1]) r.2 := by
  have hposted := h.posted
  rw [Posted, hsock] at hposted
  obtain ⟨rfl, hcp, hempty, hread⟩ := hposted
  have hfront := h.received_front hempty hread (le_trans hbs hcp)
  have hread' : readUsed (os ++ [.received bs]) = [] := by
    rw [readUsed_append, hread]
    rfl
  have hshown : (overwrite c.recvBuf 0 bs).take bs.length = bs := by
    have htake := overwrite_take c.recvBuf bs (zero_le _)
    rwa [zero_add, take_zero, nil_append] at htake
  have hwin : window (overwrite c.recvBuf 0 bs) 0 bs.length = bs := hshown
  rw [append_cons]
  simp only [ConnectionRecv.onRecvSomeRaw, hshown] at hr
  set n := min (complete bs) bs.length with hn
  obtain ⟨hle, hbytes⟩ := hfront.toWhole.advance (n := n) (by simp only [unconsumed, hwin]; omega)
  by_cases hlt : n < bs.length
  · rw [if_pos hlt] at hr
    subst hr
    refine hfront.rawUsed hread' ?_ (le_of_lt hlt) hfront.recv_le trivial
    simp only [unconsumed, hwin, zero_add] at hbytes ⊢
    exact hbytes
  · -- all is used, and the offsets stay as they were
    rw [if_neg hlt] at hr
    subst hr
    refine hfront.rawUsed hread' ?_ h.cons_le ?_ trivial
    · simp only [unconsumed, hempty, window_self, hwin, append_nil]
      exact take_of_length_le (by omega)
    · show c.recvBufOff ≤ (overwrite c.recvBuf 0 bs).length
      rw [overwrite_length (by rw [zero_add]; exact le_trans hbs hcp)]
      exact h.recv_le

theorem Inv.onRecv {buf cp : ℕ} (hsock : c.sock = some ⟨.onRecv, buf, cp⟩)
    {bs : List Byte} (hbs : bs.length ≤ cp) {more : List (List Byte)} {os' : List Output}
    (hrun : ConnectionRecv.onRecv R cfg bs.length more
      { c with sock := none, recvBuf := overwrite c.recvBuf buf bs } = some (os', c')) :
    Inv (os ++ .received bs :: os') c' := by
  have hposted := h.posted
  rw [Posted, hsock] at hposted
  obtain ⟨rfl, hcp, hmode⟩ := hposted
  have hfit : c.recvBufOff + bs.length ≤ c.recvBufferCapacity := by omega
  have hwritten := h.toWhole.write hfit
  obtain ⟨hwhole, hraw, hactive, hraw', hposted⟩ := onRecvLoop_ends
    (c := { c with sock := none, recvBuf := overwrite c.recvBuf c.recvBufOff bs })
    ⟨hwritten.cons_le, hwritten.recv_le, hwritten.bytes⟩ rfl hmode hrun
  have hmode' : c'.active ∨ c'.raw = false := by
    rw [hactive, hraw']
    exact hmode
  refine ⟨?_, hposted _, fun _ => hmode'⟩
  have hrecvd : received (os ++ .received bs :: os') = received os ++ bs ++ received os' := by
    rw [append_cons, received_append, received_append]
    simp [received, Output.receivedBytes]
  have hread : readUsed (os ++ .received bs :: os') = readUsed os ++ readUsed os' := by
    rw [append_cons, readUsed_append, readUsed_append]
    simp [readUsed, Output.readBytes]
  have hrawUsed : ConnectionRecv.rawUsed (os ++ .received bs :: os') =
      ConnectionRecv.rawUsed os := by
    rw [append_cons, rawUsed_append, rawUsed_append, hraw]
    simp [ConnectionRecv.rawUsed, Output.rawBytes]
  rw [hrecvd, hread, hrawUsed]
  exact hwhole

/-- **Every event keeps the invariant.** -/
theorem Inv.exec {e : Event} {os' : List Output} (hkeep : KeepsBytes R cfg c e)
    (hexec : exec R cfg c e = some (os', c')) : Inv (os ++ os') c' := by
  cases e with
  | recvRaw complete =>
    cases hexec
    exact h.doHandleEventRecvRaw complete hkeep
  | enterActive error =>
    cases hexec
    rw [append_nil, doHandleEventEnterActive]
    by_cases hstop : c.stopping
    · rw [if_pos hstop]
      exact h
    rw [if_neg hstop]
    cases error with
    | true => exact ⟨⟨h.cons_le, h.recv_le, h.bytes⟩, h.posted, h.order⟩
    | false =>
      -- the flag is set before the receive is posted
      have hon : Inv os { c with active := true } := h.setMode (.inl rfl)
      exact hon.postRecvSome (hkeep (by simpa using hstop) rfl) (.inl rfl)
  | enterPassive =>
    cases hexec
    rw [append_nil, doHandleEventEnterPassive]
    have hoff : Inv os { c with raw := false } := h.setMode (.inr rfl)
    exact hoff.postRecvSome hkeep (.inr rfl)
  | stop =>
    cases hexec
    rw [append_nil]
    exact ⟨⟨h.cons_le, h.recv_le, h.bytes⟩, h.posted, h.order⟩
  | recv avail more =>
    cases hsock : c.sock with
    | none =>
      simp only [ConnectionRecv.exec, hsock] at hexec
      cases hexec
      rw [append_nil]
      exact h
    | some p =>
      obtain ⟨fnc, buf, cp⟩ := p
      have hbs : (avail.take cp).length ≤ cp := length_take_le _ _
      simp only [ConnectionRecv.exec, hsock] at hexec
      cases fnc with
      | onRecvSomeRaw complete =>
        cases hexec
        exact h.onRecvSomeRaw hsock hbs rfl
      | onRecv =>
        simp only [map_eq_some_iff] at hexec
        obtain ⟨⟨os1, c1⟩, hrun, hos⟩ := hexec
        cases hos
        exact h.onRecv hsock hbs hrun

end

/-! ## Events are handled -/

@[simp] theorem msgReader_optimize (c : ConnectionRecv ω δ) :
    c.doOptimizeRecvBuffer.msgReader = c.msgReader := by
  rw [doOptimizeRecvBuffer]
  split_ifs <;> rfl

@[simp] theorem msgReader_postRecvSome (fnc : RecvFnc) (buf cp : ℕ) (c : ConnectionRecv ω δ) :
    (c.postRecvSome fnc buf cp).msgReader = c.msgReader := by
  rw [postRecvSome]
  split <;> rfl

theorem msgReader_recvSome {buf cp : ℕ} {more : List (List Byte)}
    {found : Option (List Byte × List (List Byte))} (h : c.recvSome buf cp more = (found, c')) :
    c'.msgReader = c.msgReader := by
  unfold recvSome at h
  split at h <;> cases h <;> rfl

@[simp] theorem msgReader_recvRaw (complete : List Byte → ℕ) (c : ConnectionRecv ω δ) :
    (c.doHandleEventRecvRaw complete).2.msgReader = c.msgReader := by
  unfold doHandleEventRecvRaw
  simp only
  split_ifs <;> simp

theorem readSome_returns (hmeets : ReadMeets R cfg
      ⟨c.unconsumed, c.msgReader.state, ⟨c.msgReader.messageQ, [], none⟩⟩)
    (hs : Served c.msgReader.messageQ) :
    ∃ used ok c', c.readSome R cfg = some (used, ok, c') ∧ Served c'.msgReader.messageQ := by
  obtain ⟨r, hread, hr⟩ := readLoop_served hmeets hs c.unconsumed.length
  simp only [readSome, MessageReader.read, hread]
  exact ⟨_, _, _, rfl, hr⟩

theorem onRecvLoop_returns {n sz : ℕ} {more : List (List Byte)} (hn : n ≠ 0)
    (hmeets : ReadsMeet R cfg n sz more c) (hs : Served c.msgReader.messageQ) :
    ∃ os c', onRecvLoop R cfg n sz more c = some (os, c') ∧ Served c'.msgReader.messageQ := by
  induction n generalizing sz more c with
  | zero => exact absurd rfl hn
  | succ n ih =>
    rw [onRecvLoop]
    by_cases hsz : sz = 0
    · rw [if_pos hsz]
      exact ⟨_, _, rfl, hs⟩
    obtain ⟨hread, hrest⟩ := hmeets hsz
    obtain ⟨used, ok, c1, hread, hs1⟩ := readSome_returns hread hs
    have hrest := hrest used c1
    simp only [if_neg hsz, hread] at hrest ⊢
    cases ok with
    | false => exact ⟨_, _, rfl, hs1⟩
    | true =>
      have hrest := hrest rfl
      obtain ⟨c2, hc2⟩ : ∃ c2, c2 = (if c1.consBufOff < c.recvBufOff + sz - c.consBufOff then
        c1.doOptimizeRecvBufferForced else c1).doOptimizeRecvBuffer := ⟨_, rfl⟩
      simp only [← hc2] at hrest ⊢
      have hs2 : Served c2.msgReader.messageQ := by
        rw [hc2, msgReader_optimize]
        split_ifs <;> exact hs1
      by_cases hn0 : n = 0
      · simp only [if_pos hn0]
        exact ⟨_, _, rfl, by simpa using hs2⟩
      simp only [if_neg hn0]
      cases hrecv : c2.recvSome c2.recvBufOff (c2.recvBufferCapacity - c2.recvBufOff) more with
      | mk found c3 =>
        have hs3 : Served c3.msgReader.messageQ := msgReader_recvSome hrecv ▸ hs2
        cases found with
        | none => exact ⟨_, _, rfl, hs3⟩
        | some found =>
          obtain ⟨os, c4, hrun, hs4⟩ := ih hn0 (hrest found.1 found.2 c3 hrecv) hs3
          simp only [hrun]
          exact ⟨_, _, rfl, hs4⟩

/-- **Every event that keeps the bytes is handled.** -/
theorem exec_returns {e : Event} (hkeep : KeepsBytes R cfg c e)
    (hs : Served c.msgReader.messageQ) :
    ∃ os' c', exec R cfg c e = some (os', c') ∧ Served c'.msgReader.messageQ := by
  cases e with
  | recvRaw complete => exact ⟨_, _, rfl, by simpa using hs⟩
  | enterActive error =>
    refine ⟨_, _, rfl, ?_⟩
    unfold doHandleEventEnterActive
    split_ifs
    · exact hs
    · exact hs
    · simpa using hs
  | enterPassive => exact ⟨_, _, rfl, by simpa [doHandleEventEnterPassive] using hs⟩
  | stop => exact ⟨_, _, rfl, hs⟩
  | recv avail more =>
    unfold ConnectionRecv.exec
    cases hsock : c.sock with
    | none => exact ⟨_, _, rfl, hs⟩
    | some p =>
      obtain ⟨fnc, buf, cp⟩ := p
      cases fnc with
      | onRecvSomeRaw complete =>
        refine ⟨_, _, rfl, ?_⟩
        unfold ConnectionRecv.onRecvSomeRaw
        simp only
        split_ifs <;> exact hs
      | onRecv =>
        obtain ⟨os', c', hrun, hs'⟩ := onRecvLoop_returns (by decide) (hkeep buf cp hsock) hs
        exact ⟨_, c', by simp only [ConnectionRecv.onRecv, hrun]; rfl, hs'⟩

variable (R cfg) in
/-- The runs of a connection whose events all keep the bytes, with what happened. -/
inductive Run (c₀ : ConnectionRecv ω δ) : List Output → ConnectionRecv ω δ → Prop where
  | nil : Run c₀ [] c₀
  | exec {os os' c c' e} :
      Run c₀ os c →
      KeepsBytes R cfg c e →
      exec R cfg c e = some (os', c') →
      Run c₀ (os ++ os') c'

/-- A connection that was started: nothing was received, and nothing is to be received. -/
def start (buf : List Byte) (raw : Bool) : ConnectionRecv ω δ where
  recvBuf := buf
  recvBufOff := 0
  consBufOff := 0
  raw := raw
  active := false
  stopping := false
  sock := none
  msgReader := MessageReader.prepared

theorem inv_start (buf : List Byte) (raw : Bool) : Inv [] (start buf raw : ConnectionRecv ω δ) :=
  ⟨⟨le_refl 0, zero_le _, rfl⟩, trivial, fun hne => absurd rfl hne⟩

theorem Run.inv {c₀ : ConnectionRecv ω δ} (hrun : Run R cfg c₀ os c) (h : Inv [] c₀) :
    Inv os c := by
  induction hrun with
  | nil => exact h
  | exec _ hkeep hexec ih => exact ih.exec hkeep hexec

theorem Run.served {c₀ : ConnectionRecv ω δ} (hrun : Run R cfg c₀ os c)
    (h : Served c₀.msgReader.messageQ) : Served c.msgReader.messageQ := by
  induction hrun with
  | nil => exact h
  | exec _ hkeep hexec ih =>
    obtain ⟨os', c', hexec', hs⟩ := exec_returns hkeep ih
    cases hexec.symm.trans hexec'
    exact hs

/-- **Received bytes are preserved.**  At every moment the bytes that `RecvRaw` functions
    used, followed by those that the reader consumed and those that are in the buffer, are
    the bytes that were received, and the offsets are within the buffer; and every event that
    keeps the bytes is handled. -/
theorem bytes_preserved {buf : List Byte} {raw : Bool} (hrun : Run R cfg (start buf raw) os c) :
    rawUsed os ++ readUsed os ++ c.unconsumed = received os ∧
      c.consBufOff ≤ c.recvBufOff ∧ c.recvBufOff ≤ c.recvBufferCapacity ∧
      ∀ e, KeepsBytes R cfg c e → (ConnectionRecv.exec R cfg c e).isSome := by
  have hinv := hrun.inv (inv_start buf raw)
  have hserved : Served c.msgReader.messageQ := hrun.served ⟨by rintro ⟨⟩, by simp⟩
  refine ⟨hinv.bytes, hinv.cons_le, hinv.recv_le, fun e hkeep => ?_⟩
  obtain ⟨os', c', hexec, -⟩ := exec_returns hkeep hserved
  exact isSome_iff_exists.2 ⟨_, hexec⟩

end Steps

/-- A connection of twelve bytes that has handled a request, with bytes for its reader. -/
def receiving (buf : List Byte) (off : ℕ) (state : MessageReader.States)
    (q : List (MessageStub Unit Bool)) : ConnectionRecv Unit Bool where
  recvBuf := buf
  recvBufOff := off
  consBufOff := 0
  raw := true
  active := true
  stopping := false
  sock := some ⟨.onRecv, off, 12 - off⟩
  msgReader := ⟨state, q⟩

def firstReceiving : ConnectionRecv Unit Bool :=
  receiving [1, 2, 0, 0, 0, 0, 0, 0, 0, 0, 0, 0] 0 .headerRead [{}]

def secondReceiving : ConnectionRecv Unit Bool :=
  receiving [1, 0, 0, 1, 1, 0, 0, 1, 0, 0, 0, 0] 4 .dataRead [{}]

theorem run_firstReceiving : Run oneByte fourMessages (start (List.replicate 12 0) true)
    [.rawUsed [], .received [1, 2], .rawUsed [1, 2]] firstReceiving := by
  have hraw : Run oneByte fourMessages (start (List.replicate 12 0) true) [.rawUsed []]
      { start (List.replicate 12 0) true with sock := some ⟨.onRecvSomeRaw List.length, 0, 12⟩ } :=
    .exec (e := .recvRaw List.length) .nil nofun rfl
  have hused : Run oneByte fourMessages (start (List.replicate 12 0) true)
      [.rawUsed [], .received [1, 2], .rawUsed [1, 2]]
      (start [1, 2, 0, 0, 0, 0, 0, 0, 0, 0, 0, 0] true) :=
    .exec (e := .recv [1, 2] []) hraw nofun rfl
  exact .exec (e := .enterActive false) hused (fun _ _ _ => rfl) rfl

theorem keepsBytes_keepAlive :
    KeepsBytes oneByte fourMessages firstReceiving (.recv [6, 0, 0, 0, 1, 0, 0, 1] []) := by
  rintro buf cp ⟨⟩ -
  refine ⟨.turn (by decide) ?_ ?_, ?_⟩
  · rintro h ⟨⟩ - - ⟨⟩
  · rintro r' ⟨⟩
    refine .turn (fun _ => by decide) ?_ ?_
    · rintro h ⟨⟩ hlen
      exact absurd hlen (by decide)
    · rintro r' ⟨⟩
  · rintro used c' ⟨⟩ _ _ bs more' c'' ⟨⟩

theorem keepsBytes_message :
    KeepsBytes oneByte fourMessages secondReceiving (.recv [7, 1] []) := by
  have hmessage : MessageReader.Meets oneByte fourMessages 1 [7] ⟨[{}], [], none⟩ := by
    refine .turn (by decide) ⟨trivial, ?_⟩ ?_
    · rintro f q' d ⟨⟩ ⟨⟩
      exact ⟨1, false, rfl, .inl (by decide)⟩
    · rintro t' data' st' ⟨⟩
  rintro buf cp ⟨⟩ -
  refine ⟨.turn (fun _ => by decide) ?_ ?_, ?_⟩
  · rintro h ⟨⟩ - - -
    exact hmessage
  · rintro r' ⟨⟩
    refine .turn nofun ?_ ?_
    · rintro h ⟨⟩
    · rintro r' ⟨⟩
  · rintro used c' ⟨⟩ _ _ bs more' c'' ⟨⟩

/-- A request uses two bytes; the reader then gets a keep-alive packet and, in two pieces, a
    packet of one message and the beginning of another one. -/
theorem bytes_preserved_raw_active : ∃ os c, Run oneByte fourMessages
      (start (List.replicate 12 0) true) os c ∧
      rawUsed os = [1, 2] ∧ readUsed os = [6, 0, 0, 0, 1, 0, 0, 1, 7] ∧ c.unconsumed = [1] ∧
      rawUsed os ++ readUsed os ++ c.unconsumed = received os := by
  have hkeep : Run oneByte fourMessages (start (List.replicate 12 0) true) _ secondReceiving :=
    run_firstReceiving.exec keepsBytes_keepAlive rfl
  have hrun := hkeep.exec keepsBytes_message rfl
  exact ⟨_, _, hrun, rfl, rfl, rfl, (bytes_preserved hrun).1⟩

def execAll (R : ReaderProtocol ω δ) (cfg : ReaderConfiguration) :
    ConnectionRecv ω δ → List Event → Option (List Output × ConnectionRecv ω δ)
  | c, [] => some ([], c)
  | c, e :: es => (exec R cfg c e).bind fun r =>
    (execAll R cfg r.2 es).map fun r' => (r.1 ++ r'.1, r'.2)

/-- **Bytes that are left are overwritten.**  A request uses the first of two bytes; the
    connection becomes active and receives a third one, which is written over the first:
    the reader is shown the second byte and one that was never received, and the third
    one is lost. -/
theorem enterActive_overwrites :
    (execAll MessageReader.oneByte MessageReader.fourMessages (start (List.replicate 1024 0) true)
      [.recvRaw fun _ => 1, .recv [1, 2] [], .enterActive false, .recv [9] []]).map
        (fun r => (rawUsed r.1, readUsed r.1, r.2.unconsumed, received r.1)) =
      some ([1], [], [2, 0], [1, 2, 9]) := by
  decide +kernel

end ConnectionRecv

end SolidFrame
