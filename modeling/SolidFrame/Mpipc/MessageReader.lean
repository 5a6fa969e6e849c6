/-
  SolidFrame formalization — the message reader of a connection
  (`solid/frame/mpipc/src/mpipcmessagereader.hpp`, `mpipcmessagereader.cpp`).

  The reader takes packets from a buffer and the parts of a packet to the
  deserializers of the messages they belong to.  The messages that are being
  received are in `message_q`; the message of the last part is at its front.

  A call whose behaviour is not defined ends with a `ReaderFault`.
-/
import SolidFrame.Mpipc.Message

namespace SolidFrame

open List PacketHeader

/-! ## What the reader calls -/

/-- The virtual functions of `Protocol` and of its deserializers, whose states are `δ`;
    `ω` are the messages.  A deserializer that was pushed a message pointer loads through
    that pointer: `message` is what it points to. -/
structure ReaderProtocol (ω δ : Type) where
  createDeserializer : δ
  reset : δ → δ
  push : δ → δ
  run : δ → List Byte → Option (ℤ × δ)
  message : δ → Option ω
  empty : δ → Bool
  error : δ → Option MpipcError
  clear : δ → δ
  typeIndex : ω → Option ℕ

structure ReaderConfiguration where
  maxMessageCountMultiplex : ℕ
  decompressFnc : List Byte → Except MpipcError (List Byte)

/-- The calls of the completion function. -/
inductive ReaderEvent (ω : Type) where
  | messageComplete (m : Option ω) (messageTypeId : Option ℕ)
  | keepaliveComplete
  deriving DecidableEq

/-- Why the behaviour of a call is not defined. -/
inductive ReaderFault where
  /-- `front()` of an empty `message_q` -/
  | emptyQueue
  /-- `run` of a deserializer that was not created -/
  | noDeserializer
  /-- in a call of a deserializer -/
  | deserializer
  /-- a read beyond the end of the buffer -/
  | pastEnd
  deriving DecidableEq

namespace MessageReader

inductive States where
  | headerRead
  | dataRead
  deriving DecidableEq

structure MessageStub (ω δ : Type) where
  messagePtr : Option ω := none
  deserializerPtr : Option δ := none
  packetCount : ℕ := 0
  deriving DecidableEq

def MessageStub.clear {ω δ : Type} (s : MessageStub ω δ) : MessageStub ω δ :=
  { s with deserializerPtr := none, messagePtr := none }

end MessageReader

/-- `MessageReader`: its state and `message_q`, the front first. -/
structure MessageReader (ω δ : Type) where
  state : MessageReader.States
  messageQ : List (MessageReader.MessageStub ω δ)

namespace MessageReader
variable {ω δ : Type}

/-- A reader after `prepare`: it starts with an empty message. -/
def prepared : MessageReader ω δ where
  state := .headerRead
  messageQ := [{}]

/-- What `doConsumePacket` changes: `message_q`, the calls of the completion function so
    far, and `_rerror`. -/
structure ReadState (ω δ : Type) where
  messageQ : List (MessageStub ω δ)
  events : List (ReaderEvent ω)
  rerror : Option MpipcError

section Consume
variable (R : ReaderProtocol ω δ) (cfg : ReaderConfiguration)

/-! ## A packet -/

/-- The front stub gets a message pointer to load. -/
def beginMessage (f : MessageStub ω δ) : MessageStub ω δ :=
  { f with
    deserializerPtr := some (R.push (R.reset (f.deserializerPtr.getD R.createDeserializer))) }

/-- `SwitchToOldMessageTypeE`: an unfinished message goes to the back, and the front is
    popped. -/
def switchToOld : List (MessageStub ω δ) → Except ReaderFault (List (MessageStub ω δ))
  | [] => .error .emptyQueue
  | f :: q => .ok (if f.messagePtr.isSome then q ++ [f] else q)

def clearFront : List (MessageStub ω δ) → Except ReaderFault (List (MessageStub ω δ))
  | [] => .error .emptyQueue
  | f :: q => .ok (f.clear :: q)

def switchToNew : List (MessageStub ω δ) →
    Except ReaderFault (Except MpipcError (List (MessageStub ω δ)))
  | [] => .error .emptyQueue
  | f :: q =>
    if f.messagePtr.isSome then
      if q.length + 1 = cfg.maxMessageCountMultiplex then .ok (.error .readerTooManyMultiplex)
      -- the moved stub leaves an empty one at the front
      else .ok (.ok (beginMessage R {} :: (q ++ [{ f with packetCount := 0 }])))
    else .ok (.ok (beginMessage R f :: q))

def countPacket : List (MessageStub ω δ) → Except ReaderFault (List (MessageStub ω δ))
  | [] => .error .emptyQueue
  | f :: q => .ok ({ f with packetCount := f.packetCount + 1 } :: q)

/-- The `switch` over the type of a part: an error, or `canceled_message` and the
    queue. -/
def doSwitch (t : Option PacketType) (q : List (MessageStub ω δ)) :
    Except ReaderFault (Except MpipcError (Bool × List (MessageStub ω δ))) :=
  match t with
  | some .switchToNewMessage => (switchToNew R cfg q).map fun r => r.map fun q => (false, q)
  | some .switchToOldMessage => (switchToOld q).map fun q => .ok (false, q)
  | some .continuedMessage => (countPacket q).map fun q => .ok (false, q)
  | some .switchToOldCanceledMessage =>
    ((switchToOld q).bind clearFront).map fun q => .ok (true, q)
  | some .continuedCanceledMessage => (clearFront q).map fun q => .ok (true, q)
  | _ => .ok (.error .readerInvalidMessageSwitch)

/-- The front stub after a call of `run`; the message pointer is what the deserializer
    made of it. -/
def ranFront (f : MessageStub ω δ) (d : δ) : MessageStub ω δ :=
  { f with messagePtr := R.message d, deserializerPtr := some d }

/-- The front stub after its message is completed. -/
def completedFront (f : MessageStub ω δ) (d : δ) : MessageStub ω δ :=
  { f with messagePtr := none, deserializerPtr := some (R.clear d) }

/-- The deserializer at the front runs on the rest of the packet: whether the loop goes
    on, the bytes that are left, and the state. -/
def deserialize (data : List Byte) (st : ReadState ω δ) :
    Except ReaderFault (Bool × List Byte × ReadState ω δ) :=
  match st.messageQ with
  | [] => .error .emptyQueue
  | f :: q =>
    match f.deserializerPtr with
    | none => .error .noDeserializer
    | some d =>
      match R.run d data with
      | none => .error .deserializer
      | some (rv, d') =>
        if 0 < rv then
          .ok (true, data.drop rv.toNat, if R.empty d' then
              { st with
                messageQ := completedFront R f d' :: q
                events := st.events ++
                  [.messageComplete (R.message d') ((R.message d').bind R.typeIndex)] }
            else { st with messageQ := ranFront R f d' :: q })
        else .ok (false, data, { st with messageQ := ranFront R f d' :: q, rerror := R.error d' })

/-- A turn of the loop of `doConsumePacket` on a part of type `t`. -/
def consumeTurn (t : Byte) (data : List Byte) (st : ReadState ω δ) :
    Except ReaderFault (Bool × List Byte × ReadState ω δ) :=
  match doSwitch R cfg (PacketType.ofByte? t) st.messageQ with
  | .error fault => .error fault
  | .ok (.error e) => .ok (false, data, { st with rerror := some e })
  | .ok (.ok (true, q)) => .ok (true, data, { st with messageQ := q })
  | .ok (.ok (false, q)) => deserialize R data { st with messageQ := q }

/-- The loop of `doConsumePacket`: the bytes that are left when it ends, and the state.
    A turn takes at least the byte of the next type, so that as many turns as there are
    bytes are enough. -/
def consumeLoop : ℕ → Byte → List Byte → ReadState ω δ →
    Except ReaderFault (List Byte × ReadState ω δ)
  | 0, _, data, st => .ok (data, st)
  | n + 1, t, data, st =>
    if data = [] then .ok (data, st)
    else
      match consumeTurn R cfg t data st with
      | .error fault => .error fault
      | .ok (false, rest, st') => .ok (rest, st')
      | .ok (true, [], st') => .ok ([], st')
      | .ok (true, t' :: data', st') => consumeLoop n t' data' st'

def consume (t : Byte) (data : List Byte) (st : ReadState ω δ) :
    Except ReaderFault (List Byte × ReadState ω δ) :=
  consumeLoop R cfg data.length t data st

def doConsumePacket (h : PacketHeader) (data : List Byte) (st : ReadState ω δ) :
    Except ReaderFault (List Byte × ReadState ω δ) :=
  if h.isCompressed then
    match cfg.decompressFnc data with
    | .ok data' => consume R cfg h.type data' st
    | .error e => .ok (data, { st with rerror := some e })
  else consume R cfg h.type data st

/-! ## Read -/

/-- How a call of `read` ends: the bytes that are not consumed, and the state. -/
structure ReadResult (ω δ : Type) where
  rest : List Byte
  state : States
  st : ReadState ω δ

/-- A turn of the loop of `read`, and whether the loop goes on. -/
def readTurn (r : ReadResult ω δ) : Except ReaderFault (Bool × ReadResult ω δ) :=
  if r.state = .headerRead ∧ r.rest.length < sizeOf then .ok (false, r)
  else
    match load r.rest with
    | none => .error .pastEnd
    | some h =>
      if (r.rest.drop sizeOf).length < h.size then
        .ok (false, { r with state := .dataRead })
      else if h.isOk = false then
        .ok (false, ⟨r.rest.drop sizeOf, .dataRead,
          { r.st with rerror := some .readerInvalidPacketHeader }⟩)
      else if h.isTypeKeepAlive then
        -- the state stays `DataReadStateE`
        .ok (true, ⟨r.rest.drop sizeOf, .dataRead,
          { r.st with events := r.st.events ++ [.keepaliveComplete] }⟩)
      else
        match doConsumePacket R cfg h ((r.rest.drop sizeOf).take h.size) r.st with
        | .error fault => .error fault
        | .ok (_, st) =>
          if st.rerror.isSome then .ok (false, ⟨r.rest.drop sizeOf, .dataRead, st⟩)
          else .ok (true, ⟨(r.rest.drop sizeOf).drop h.size, .headerRead, st⟩)

/-- The loop of `read`.  Every turn that does not end it takes a header, so that as many
    turns as there are bytes are enough. -/
def readLoop : ℕ → ReadResult ω δ → Except ReaderFault (ReadResult ω δ)
  | 0, r => .ok r
  | n + 1, r =>
    if r.rest = [] then .ok r
    else
      match readTurn R cfg r with
      | .error fault => .error fault
      | .ok (false, r') => .ok r'
      | .ok (true, r') => readLoop n r'

/-- `read`: the bytes that are not consumed, the reader, the calls of the completion
    function and `_rerror`. -/
def read (input : List Byte) (r : MessageReader ω δ) : Except ReaderFault (ReadResult ω δ) :=
  readLoop R cfg input.length ⟨input, r.state, ⟨r.messageQ, [], none⟩⟩

end Consume

/-! ## The loops, a turn at a time -/

section Loops
variable {R : ReaderProtocol ω δ} {cfg : ReaderConfiguration}
variable {r : ReadResult ω δ} {data : List Byte} {st st' : ReadState ω δ}

theorem deserialize_suffix {rest : List Byte} {go : Bool}
    (h : deserialize R data st = .ok (go, rest, st')) : rest <:+ data := by
  unfold deserialize at h
  split at h
  · cases h
  · split at h
    · cases h
    · split at h
      · cases h
      · split_ifs at h
        · cases h
          exact drop_suffix _ _
        · cases h
          exact drop_suffix _ _
        · cases h
          exact suffix_refl _

theorem consumeTurn_suffix {t : Byte} {rest : List Byte} {go : Bool}
    (h : consumeTurn R cfg t data st = .ok (go, rest, st')) : rest <:+ data := by
  unfold consumeTurn at h
  split at h
  · cases h
  · cases h
    exact suffix_refl _
  · cases h
    exact suffix_refl _
  · exact deserialize_suffix h

theorem consumeLoop_nil (n : ℕ) (t : Byte) (st : ReadState ω δ) :
    consumeLoop R cfg n t [] st = .ok ([], st) := by
  cases n with
  | zero => rfl
  | succ n => rw [consumeLoop, if_pos rfl]

theorem consumeLoop_congr {n m : ℕ} {t : Byte}
    (hn : data.length ≤ n) (hm : data.length ≤ m) :
    consumeLoop R cfg n t data st = consumeLoop R cfg m t data st := by
  induction n generalizing m t data st with
  | zero =>
    obtain rfl : data = [] := length_eq_zero_iff.1 (by omega)
    rw [consumeLoop_nil, consumeLoop_nil]
  | succ n ih =>
    cases data with
    | nil => rw [consumeLoop_nil, consumeLoop_nil]
    | cons b data =>
      obtain ⟨m, rfl⟩ := Nat.exists_eq_add_of_le' (Nat.le_trans (by simp) hm : 1 ≤ m)
      rw [consumeLoop, consumeLoop, if_neg (by simp), if_neg (by simp)]
      cases hturn : consumeTurn R cfg t (b :: data) st with
      | error fault => rfl
      | ok r =>
        obtain ⟨go, rest, st'⟩ := r
        have hlen := (consumeTurn_suffix hturn).length_le
        rcases go with _ | _
        · rfl
        · rcases rest with _ | ⟨t', data'⟩
          · rfl
          · rw [length_cons] at hlen hn hm
            rw [length_cons] at hlen
            exact ih (by omega) (by omega)

/-- How `consume` goes on after a turn. -/
def consumeRest (R : ReaderProtocol ω δ) (cfg : ReaderConfiguration) :
    Except ReaderFault (Bool × List Byte × ReadState ω δ) →
    Except ReaderFault (List Byte × ReadState ω δ)
  | .error fault => .error fault
  | .ok (false, rest, st) => .ok (rest, st)
  | .ok (true, [], st) => .ok ([], st)
  | .ok (true, t :: data, st) => consume R cfg t data st

@[simp] theorem consume_nil (t : Byte) (st : ReadState ω δ) :
    consume R cfg t [] st = .ok ([], st) := rfl

theorem consume_turn (t : Byte) (hne : data ≠ []) (st : ReadState ω δ) :
    consume R cfg t data st = consumeRest R cfg (consumeTurn R cfg t data st) := by
  obtain ⟨b, data, rfl⟩ := exists_cons_of_ne_nil hne
  rw [consume, length_cons, consumeLoop, if_neg hne]
  cases hturn : consumeTurn R cfg t (b :: data) st with
  | error fault => rfl
  | ok r =>
    obtain ⟨go, rest, st'⟩ := r
    have hlen := (consumeTurn_suffix hturn).length_le
    rcases go with _ | _
    · rfl
    · rcases rest with _ | ⟨t', data'⟩
      · rfl
      · rw [length_cons, length_cons] at hlen
        exact consumeLoop_congr (by omega) (Nat.le_refl _)

theorem readTurn_lt {r' : ReadResult ω δ} (h : readTurn R cfg r = .ok (true, r'))
    (hne : r.rest ≠ []) : r'.rest.length < r.rest.length := by
  have hpos : 0 < r.rest.length := List.length_pos_iff.2 hne
  unfold readTurn at h
  split_ifs at h
  · cases h
  · split at h
    · cases h
    · split_ifs at h
      · cases h
      · cases h
      · cases h
        simp only [List.length_drop, PacketHeader.sizeOf]
        omega
      · split at h
        · cases h
        · split_ifs at h
          · cases h
          · cases h
            simp only [List.length_drop, PacketHeader.sizeOf]
            omega

theorem readLoop_nil (n : ℕ) (h : r.rest = []) :
    readLoop R cfg n r = .ok r := by
  cases n with
  | zero => rfl
  | succ n => rw [readLoop, if_pos h]

theorem readLoop_congr {n m : ℕ} (hn : r.rest.length ≤ n)
    (hm : r.rest.length ≤ m) : readLoop R cfg n r = readLoop R cfg m r := by
  induction n generalizing m r with
  | zero =>
    have hrest : r.rest = [] := length_eq_zero_iff.1 (by omega)
    rw [readLoop_nil 0 hrest, readLoop_nil m hrest]
  | succ n ih =>
    by_cases hrest : r.rest = []
    · rw [readLoop_nil _ hrest, readLoop_nil _ hrest]
    · have hpos : 0 < r.rest.length := length_pos_iff.2 hrest
      obtain ⟨m, rfl⟩ := Nat.exists_eq_add_of_le' (by omega : 1 ≤ m)
      rw [readLoop, readLoop, if_neg hrest, if_neg hrest]
      cases hturn : readTurn R cfg r with
      | error fault => rfl
      | ok p =>
        obtain ⟨go, r'⟩ := p
        rcases go with _ | _
        · rfl
        · have hlt := readTurn_lt hturn hrest
          exact ih (by omega) (by omega)

def readAll (R : ReaderProtocol ω δ) (cfg : ReaderConfiguration) (r : ReadResult ω δ) :
    Except ReaderFault (ReadResult ω δ) :=
  readLoop R cfg r.rest.length r

theorem readAll_nil (h : r.rest = []) : readAll R cfg r = .ok r :=
  readLoop_nil _ h

/-- How the loop of `read` goes on after a turn. -/
def readNext (R : ReaderProtocol ω δ) (cfg : ReaderConfiguration) :
    Except ReaderFault (Bool × ReadResult ω δ) → Except ReaderFault (ReadResult ω δ)
  | .error fault => .error fault
  | .ok (false, r) => .ok r
  | .ok (true, r) => readAll R cfg r

theorem readAll_turn (h : r.rest ≠ []) :
    readAll R cfg r = readNext R cfg (readTurn R cfg r) := by
  have hpos : 0 < r.rest.length := length_pos_iff.2 h
  obtain ⟨n, hn⟩ := Nat.exists_eq_add_of_le' (by omega : 1 ≤ r.rest.length)
  rw [readAll, hn, readLoop, if_neg h]
  cases hturn : readTurn R cfg r with
  | error fault => rfl
  | ok p =>
    obtain ⟨go, r'⟩ := p
    rcases go with _ | _
    · rfl
    · have hlt := readTurn_lt hturn h
      exact readLoop_congr (by omega) (Nat.le_refl _)

end Loops

end MessageReader

end SolidFrame
