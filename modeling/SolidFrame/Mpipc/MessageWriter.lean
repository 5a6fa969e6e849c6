/-
  SolidFrame formalization — the message writer of a connection
  (`solid/frame/mpipc/src/mpipcmessagewriter.hpp`, `mpipcmessagewriter.cpp`).

  The writer multiplexes messages on a connection: each message that is being
  sent has its own serializer, a packet takes from the messages in turn, and a
  byte before each part of a packet says which message it belongs to.  The
  stubs of the messages are linked in `write_inner_list`, `cache_inner_list`
  (both through the status link) and `order_inner_list`.

  `none` stands for a call that does not return or that leaves its buffer or the
  vector.
-/
import SolidFrame.Mpipc.Message
import SolidFrame.Utility.InnerList

namespace SolidFrame

/-! ## What the writer calls -/

/-- What serialization reads of `ConnectionContext`. -/
structure ConnectionContext where
  requestId : MessageId
  messageState : ℕ
  deriving DecidableEq, Repr

/-- The outcome of a call of `Serializer::run`: its return value, the bytes that were
    written when that is positive, and the serializer after the call. -/
structure SerializerRun (σ : Type) where
  retval : ℤ
  out : List Byte
  serializer : σ

/-- The virtual functions of `Protocol` and of its serializers, whose states are `σ`. -/
structure Protocol (β σ : Type) where
  createSerializer : σ
  reset : σ → σ
  push : σ → Option (Message β) → Option ℕ → σ
  run : ConnectionContext → σ → ℕ → Option (SerializerRun σ)
  empty : σ → Bool
  error : σ → Option MpipcError
  clear : σ → σ
  minimumFreePacketDataSize : ℕ

/-- `WriterConfiguration`.  `inplaceCompressFnc` gives the compressed data, nothing when
    it returns 0 and leaves the buffer as it was, or an error. -/
structure WriterConfiguration where
  maxMessageCountMultiplex : ℕ
  maxMessageCountResponseWait : ℕ
  maxMessageContinuousPacketCount : ℕ
  inplaceCompressFnc : List Byte → Except MpipcError (List Byte)

/-- What happens in a call: a bundle is taken in, a message is sent to its end, a bundle
    goes out. -/
inductive WriterEvent (β F : Type) where
  /-- `enqueue` has accepted the bundle and returned the id -/
  | enqueued (b : MessageBundle β F) (poolMsgId : MessageId) (connMsgId : MessageId)
  /-- the serializer of the message, synchronous or not, is empty -/
  | sent (m : Message β) (messageTypeId : Option ℕ) (synchronous : Bool) (ctx : ConnectionContext)
  /-- the completion callback is called with the bundle -/
  | completed (b : MessageBundle β F) (poolMsgId : MessageId)
  /-- `cancel` or `cancelOldest` gives the bundle back -/
  | canceled (b : MessageBundle β F) (poolMsgId : MessageId)
  /-- the visitor takes the bundle -/
  | taken (b : MessageBundle β F) (poolMsgId : MessageId)

/-- The completion callback: the messages that its `n`th call enqueues, and what it
    returns. -/
abbrev CompleteFunction (β F : Type) :=
  ℕ → MessageBundle β F → MessageId → List (MessageBundle β F × MessageId) × Option MpipcError

/-! ## The state -/

namespace MessageWriter

/-- `MessageWriter::MessageStub`, without its links. -/
structure MessageStub (β F σ : Type) where
  msgbundle : MessageBundle β F := {}
  unique : ℕ := 0
  packetCount : ℕ := 0
  serializerPtr : Option σ := none
  poolMsgId : MessageId := {}

namespace MessageStub
variable {β F σ : Type}

def clear (s : MessageStub β F σ) : MessageStub β F σ where
  unique := (s.unique + 1) % 2 ^ 32

/-- The stub of a message whose serializer is empty. -/
def doneSending (s : MessageStub β F σ) : MessageStub β F σ :=
  { s with
    serializerPtr := none
    msgbundle := { s.msgbundle with messageFlags :=
      { s.msgbundle.messageFlags with startedSend := false, doneSend := true } } }

def isCanceled (s : MessageStub β F σ) : Bool := s.msgbundle.messageFlags.canceled

end MessageStub

end MessageWriter

/-- `MessageWriter`: the vector of stubs (the first `vecSize` of them) with its two
    link fields, the lists, and the synchronous message that is being sent. -/
structure MessageWriter (β F σ : Type) where
  messageVec : ℕ → MessageWriter.MessageStub β F σ
  vecSize : ℕ
  statusLinks : Links
  orderLinks : Links
  currentSynchronousMessageIdx : Option ℕ
  orderInnerList : InnerList
  writeInnerList : InnerList
  cacheInnerList : InnerList

namespace MessageWriter
variable {β F σ : Type}

def new : MessageWriter β F σ where
  messageVec _ := {}
  vecSize := 0
  statusLinks _ := ⟨none, none⟩
  orderLinks _ := ⟨none, none⟩
  currentSynchronousMessageIdx := none
  orderInnerList := .empty
  writeInnerList := .empty
  cacheInnerList := .empty

variable (w : MessageWriter β F σ)

/-! ## Stubs and lists -/

def modifyStub (i : ℕ) (f : MessageStub β F σ → MessageStub β F σ) : MessageWriter β F σ :=
  { w with messageVec := Function.update w.messageVec i (f (w.messageVec i)) }

def withWrite (l : InnerList × Links) : MessageWriter β F σ :=
  { w with writeInnerList := l.1, statusLinks := l.2 }

def withCache (l : InnerList × Links) : MessageWriter β F σ :=
  { w with cacheInnerList := l.1, statusLinks := l.2 }

def withOrder (l : InnerList × Links) : MessageWriter β F σ :=
  { w with orderInnerList := l.1, orderLinks := l.2 }

def writePushBack (i : ℕ) : MessageWriter β F σ :=
  w.withWrite (w.writeInnerList.pushBack w.statusLinks i)

def writeErase (i : ℕ) : MessageWriter β F σ :=
  w.withWrite (w.writeInnerList.erase w.statusLinks i)

def writePopFront : Option (MessageWriter β F σ) :=
  (w.writeInnerList.popFront w.statusLinks).map fun p => w.withWrite p.2

def cachePushFront (i : ℕ) : MessageWriter β F σ :=
  w.withCache (w.cacheInnerList.pushFront w.statusLinks i)

def orderPushBack (i : ℕ) : MessageWriter β F σ :=
  w.withOrder (w.orderInnerList.pushBack w.orderLinks i)

def orderErase (i : ℕ) : MessageWriter β F σ :=
  w.withOrder (w.orderInnerList.erase w.orderLinks i)

/-- `if(current_synchronous_message_idx == _msgidx) current_… = InvalidIndex()`. -/
def resetCurrentSynchronous (i : ℕ) : MessageWriter β F σ :=
  if w.currentSynchronousMessageIdx = some i then { w with currentSynchronousMessageIdx := none }
  else w

def doUnprepareMessageStub (i : ℕ) : MessageWriter β F σ :=
  (w.modifyStub i MessageStub.clear).cachePushFront i

/-! ## Enqueue and cancel -/

/-- The stub that `enqueue` uses: the first of the cache, or a new one. -/
def allocateStub : Option (ℕ × MessageWriter β F σ) :=
  if w.cacheInnerList.size ≠ 0 then
    (w.cacheInnerList.popFront w.statusLinks).map fun p => (p.1, w.withCache p.2)
  else
    some (w.vecSize, { w with
      vecSize := w.vecSize + 1
      messageVec := Function.update w.messageVec w.vecSize {}
      statusLinks := Function.update w.statusLinks w.vecSize ⟨none, none⟩
      orderLinks := Function.update w.orderLinks w.vecSize ⟨none, none⟩ })

/-- A bundle as `enqueue` keeps it: the flags of an earlier connection are cleared, all
    but `Canceled`. -/
def clearDisruptingFlags (b : MessageBundle β F) : MessageBundle β F :=
  { b with messageFlags := { b.messageFlags with startedSend := false, doneSend := false } }

/-- `enqueue`; the id is `none` when the message is refused. -/
def enqueue (cfg : WriterConfiguration) (b : MessageBundle β F) (poolMsgId : MessageId) :
    Option (Option MessageId × MessageWriter β F σ) :=
  if cfg.maxMessageCountMultiplex ≤ w.writeInnerList.size then some (none, w)
  else if b.messageFlags.waitResponse ∧
      cfg.maxMessageCountMultiplex + cfg.maxMessageCountResponseWait ≤ w.orderInnerList.size then
    some (none, w)
  else
    w.allocateStub.map fun p =>
      (some ⟨some p.1, (p.2.messageVec p.1).unique⟩, ((p.2.modifyStub p.1 fun s => { s with
          msgbundle := clearDisruptingFlags b, poolMsgId := poolMsgId }).orderPushBack
            p.1).writePushBack p.1)

/-- The bundle is moved out of a stub, which leaves the order list. -/
def release (i : ℕ) (b : MessageBundle β F) : MessageWriter β F σ :=
  (w.modifyStub i fun s => { s with msgbundle := b.movedFrom }).orderErase i

/-- `doCancel`; `none` in the first place is `false`. -/
def doCancel (P : Protocol β σ) (i : ℕ) :
    Option (MessageBundle β F × MessageId) × MessageWriter β F σ :=
  if (w.messageVec i).isCanceled then (none, w)
  else
    let b := (w.messageVec i).msgbundle.setCanceled
    (some (b, (w.messageVec i).poolMsgId), match (w.messageVec i).serializerPtr with
      | some ser =>
        -- the message is being sent
        (w.release i b).modifyStub i fun s => { s with serializerPtr := some (P.clear ser) }
      | none =>
        if b.messageFlags.waitResponse then
          -- taken for a message that waits for its response
          (w.release i b).doUnprepareMessageStub i
        else ((w.release i b).writeErase i).doUnprepareMessageStub i)

def cancel (P : Protocol β σ) (id : MessageId) :
    Option (MessageBundle β F × MessageId) × MessageWriter β F σ :=
  match id.index with
  | none => (none, w)
  | some i =>
    if i < w.vecSize ∧ id.unique = (w.messageVec i).unique then w.doCancel P i else (none, w)

def cancelOldest (P : Protocol β σ) :
    Option (Option (MessageBundle β F × MessageId) × MessageWriter β F σ) :=
  if w.orderInnerList.size ≠ 0 then w.orderInnerList.front.map fun i => w.doCancel P i
  else some (none, w)

/-! ## The visitor -/

/-- The loop of `forEveryMessagesNewerToOlder` from an index on, for at most `n` turns,
    when the visitor takes the bundles of the stubs that `takes` says and leaves the
    others.  It ends with the taken bundles and the writer, also when it throws
    because a stub of the order list has no message. -/
def visitFrom (takes : ℕ → Bool) : ℕ → Option ℕ → MessageWriter β F σ →
    Option (List (MessageBundle β F × MessageId) × MessageWriter β F σ)
  | _, none, w => some ([], w)
  | 0, some _, _ => none
  | n + 1, some i, w =>
    let stub := w.messageVec i
    if stub.msgbundle.messagePtr.isNone then some ([], w)
    else if takes i then
      let w₁ := w.modifyStub i fun s => { s with msgbundle := s.msgbundle.movedFrom }
      -- where the message is, is told by its flags
      let w₂ := if stub.msgbundle.messageFlags.waitResponse then w₁ else w₁.writeErase i
      let prev := InnerList.previousIndex w₂.orderLinks i
      (visitFrom takes n prev ((w₂.orderErase i).doUnprepareMessageStub i)).map fun p =>
        ((stub.msgbundle, stub.poolMsgId) :: p.1, p.2)
    else visitFrom takes n (InnerList.previousIndex w.orderLinks i) w

def forEveryMessagesNewerToOlder (takes : ℕ → Bool) (fuel : ℕ) :
    Option (List (MessageBundle β F × MessageId) × MessageWriter β F σ) :=
  visitFrom takes fuel w.orderInnerList.front w

/-! ## A packet -/

/-- `doPrepareMessageForSending`, with the serializer that is kept for reuse. -/
def doPrepareMessageForSending (P : Protocol β σ) (i : ℕ) (tmp : Option σ) :
    PacketType × MessageWriter β F σ × Option σ :=
  match (w.messageVec i).serializerPtr with
  | none =>
    (.switchToNewMessage, w.modifyStub i fun s => { s with
      serializerPtr := some (P.push (P.reset (tmp.getD P.createSerializer)) s.msgbundle.messagePtr
        s.msgbundle.messageTypeId)
      msgbundle := { s.msgbundle with messageFlags :=
        { s.msgbundle.messageFlags with startedSend := true } } }, none)
  | some _ =>
    if (w.messageVec i).isCanceled then
      (if (w.messageVec i).packetCount = 0 then .switchToOldCanceledMessage
        else .continuedCanceledMessage, w, tmp)
    else
      (if (w.messageVec i).packetCount = 0 then .switchToOldMessage else .continuedMessage, w, tmp)

/-- The locals of `doFillPacket`: `out` is what is between `_pbufbeg` and `pbufpos`. -/
structure FillState (β F σ : Type) where
  writer : MessageWriter β F σ
  out : List Byte
  freesz : ℕ
  tmpSerializer : Option σ
  packetMessageCount : ℕ
  packetType : PacketType
  rerror : Option MpipcError
  events : List (WriterEvent β F)

/-- How a turn of the loop of `doFillPacket` ends. -/
inductive FillTurn (β F σ : Type) where
  | next (st : FillState β F σ)
  /-- `pbufpos` is returned -/
  | done (st : FillState β F σ)
  /-- the null pointer is returned -/
  | failed (st : FillState β F σ)

def completions (events : List (WriterEvent β F)) : ℕ :=
  events.countP fun e => match e with
    | .completed .. => true
    | _ => false

/-- The messages that a completion callback enqueues. -/
def enqueueAll (cfg : WriterConfiguration) :
    List (MessageBundle β F × MessageId) → MessageWriter β F σ →
    Option (List (WriterEvent β F) × MessageWriter β F σ)
  | [], w => some ([], w)
  | (b, id) :: reqs, w => do
    let (conn, w₁) ← w.enqueue cfg b id
    let (events, w₂) ← enqueueAll cfg reqs w₁
    match conn with
    | some connMsgId => pure (.enqueued b id connMsgId :: events, w₂)
    | none => pure (events, w₂)

section Fill
variable (P : Protocol β σ) (cfg : WriterConfiguration) (complete : CompleteFunction β F)

/-- A message that was sent to its end is completed, unless it waits for a response;
    `w` is the writer without the message in its write list, and `ctx` the context of
    the last `run`. -/
def completeMessage (i : ℕ) (ctx : ConnectionContext) (st : FillState β F σ)
    (w : MessageWriter β F σ) : Option (FillState β F σ) := do
  let stub := w.messageVec i
  let m ← stub.msgbundle.messagePtr
  let events := st.events ++ [.sent m stub.msgbundle.messageTypeId
    stub.msgbundle.messageFlags.synchronous ctx]
  if stub.msgbundle.messageFlags.waitResponse then
    pure { st with writer := w, events := events }
  else
    let ret := complete (completions events) stub.msgbundle stub.poolMsgId
    let (enqueued, w') ← enqueueAll cfg ret.1 ((w.orderErase i).doUnprepareMessageStub i)
    pure { st with
      writer := w'
      rerror := ret.2
      events := events ++ .completed stub.msgbundle stub.poolMsgId :: enqueued }

def doTryCompleteMessageAfterSerialization (i : ℕ) (ctx : ConnectionContext)
    (st : FillState β F σ) : Option (FillState β F σ) := do
  let ser ← (st.writer.messageVec i).serializerPtr
  if P.empty ser then
    let w₁ ← st.writer.writePopFront
    completeMessage cfg complete i ctx { st with tmpSerializer := some ser }
      ((w₁.resetCurrentSynchronous i).modifyStub i MessageStub.doneSending)
  else
    let w₁ := st.writer.modifyStub i fun s => { s with packetCount := s.packetCount + 1 }
    if cfg.maxMessageContinuousPacketCount ≤ (w₁.messageVec i).packetCount then
      let w₂ ← (w₁.modifyStub i fun s => { s with packetCount := 0 }).writePopFront
      pure { st with writer := w₂.writePushBack i }
    else pure { st with writer := w₁ }

def contextOf (i : ℕ) (unique : ℕ) (m : Message β) : ConnectionContext where
  requestId := if m.isOnPeer then m.requid else ⟨some i, unique⟩
  messageState := (m.stt + 1) % 256

/-- The part of a turn that serializes, with `cap` the room from `_pbufbeg` to
    `_pbufend`.  At and past `_pbufend` there is no room. -/
def doSerialize (cap i : ℕ) (st : FillState β F σ) : Option (FillTurn β F σ) := do
  let stub := st.writer.messageVec i
  let m ← stub.msgbundle.messagePtr
  let ser ← stub.serializerPtr
  let ctx := contextOf i stub.unique m
  let r ← P.run ctx ser (cap - st.out.length)
  let w := st.writer.modifyStub i fun s => { s with serializerPtr := some r.serializer }
  if 0 < r.retval then
    let st' ← doTryCompleteMessageAfterSerialization P cfg complete i ctx { st with
      writer := w
      out := st.out ++ r.out
      freesz := st.freesz - r.retval.toNat }
    if st'.rerror.isSome then pure (.done st') else pure (.next st')
  else pure (.failed { st with writer := w, rerror := P.error r.serializer })

/-- The part of a turn that says which message comes next.  The byte is stored without a
    look at `_pbufend`. -/
def doSwitch (i : ℕ) (st : FillState β F σ) : FillState β F σ :=
  let (msgswitch, w, tmp) := st.writer.doPrepareMessageForSending P i st.tmpSerializer
  if st.packetMessageCount = 0 then
    { st with
      writer := w, tmpSerializer := tmp, packetType := msgswitch, packetMessageCount := 1 }
  else
    { st with
      writer := w, tmpSerializer := tmp, out := st.out ++ [msgswitch.toByte]
      packetMessageCount := st.packetMessageCount + 1 }

def fillTurn (cap : ℕ) (st : FillState β F σ) : Option (FillTurn β F σ) :=
  if st.writer.writeInnerList.size ≠ 0 ∧ P.minimumFreePacketDataSize ≤ st.freesz then do
    let i ← st.writer.writeInnerList.front
    let cur := st.writer.currentSynchronousMessageIdx
    let synchronous := (st.writer.messageVec i).msgbundle.messageFlags.synchronous
    if synchronous ∧ cur ≠ none ∧ cur ≠ some i then
      -- another synchronous message is being sent
      let w ← st.writer.writePopFront
      pure (.next { st with writer := w.writePushBack i })
    else
      let w := if synchronous then { st.writer with currentSynchronousMessageIdx := some i }
        else st.writer
      let st' := doSwitch P i { st with writer := w }
      if (st'.writer.messageVec i).isCanceled then
        pure (.next { st' with writer :=
          ((st'.writer.writeErase i).doUnprepareMessageStub i).resetCurrentSynchronous i })
      else doSerialize P cfg complete cap i st'
  else some (.done st)

/-- The loop of `doFillPacket`, for at most `fuel` turns. -/
def fillLoop (cap : ℕ) : ℕ → FillState β F σ → Option (FillTurn β F σ)
  | 0, _ => none
  | fuel + 1, st => do
    match ← fillTurn P cfg complete cap st with
    | .next st' => fillLoop cap fuel st'
    | turn => pure turn

/-! ## Write -/

/-- The locals of `write`: `out` is what is between `_pbuf` and `pbufpos`. -/
structure WriteState (β F σ : Type) where
  writer : MessageWriter β F σ
  out : List Byte
  more : Bool
  rerror : Option MpipcError
  events : List (WriterEvent β F)

/-- A packet: the data, compressed or not, after its header. -/
def packet (t : PacketType) (data compressed : List Byte) : List Byte :=
  if compressed = [] then (PacketHeader.make t false data.length).store ++ data
  else (PacketHeader.make t true compressed.length).store ++ compressed

def doFillPacket (fuel cap : ℕ) (st : WriteState β F σ) : Option (FillTurn β F σ) :=
  fillLoop P cfg complete cap fuel {
    writer := st.writer, out := [], freesz := cap, tmpSerializer := none, packetMessageCount := 0
    packetType := .switchToNewMessage, rerror := st.rerror, events := st.events }

/-- A turn of the loop of `write`, once there is room for a packet. -/
def writeTurn (fuel bufsz : ℕ) (st : WriteState β F σ) : Option (WriteState β F σ) := do
  match ← doFillPacket P cfg complete fuel (bufsz - st.out.length - PacketHeader.sizeOf) st with
  | .done fs =>
    let st' : WriteState β F σ :=
      { st with writer := fs.writer, rerror := fs.rerror, events := fs.events }
    if fs.out = [] then pure { st' with more := false }
    else match cfg.inplaceCompressFnc fs.out with
      | .ok compressed => pure { st' with out := st.out ++ packet fs.packetType fs.out compressed }
      | .error e => pure { st' with more := false, rerror := some e }
  -- a null position is taken for the end of the packet
  | _ => none

def writeLoop (fuel bufsz : ℕ) : ℕ → WriteState β F σ → Option (WriteState β F σ)
  | 0, _ => none
  | n + 1, st =>
    if PacketHeader.sizeOf + P.minimumFreePacketDataSize ≤ bufsz - st.out.length ∧ st.more then do
      writeLoop fuel bufsz n (← writeTurn P cfg complete fuel bufsz st)
    else some st

/-- `write` into a buffer of `bufsz` bytes: the bytes that are written, and `_rerror`. -/
def write (fuel bufsz : ℕ) (keepAlive : Bool) (w : MessageWriter β F σ) :
    Option (WriteState β F σ) := do
  let st ← writeLoop P cfg complete fuel bufsz fuel
    { writer := w, out := [], more := true, rerror := none, events := [] }
  if st.rerror.isNone ∧ st.out = [] ∧ keepAlive then
    if PacketHeader.sizeOf ≤ bufsz then
      pure { st with out := (PacketHeader.make .keepAlive false 0).store }
    else none
  else pure st

end Fill

end MessageWriter

end SolidFrame
