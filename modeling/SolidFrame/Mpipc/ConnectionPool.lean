/-
  SolidFrame formalization — a connection pool and its connections
  (`ConnectionPoolStub` and `Service` in `solid/frame/mpipc/src/mpipcservice.cpp`,
  `Connection` in `mpipcconnection.cpp`).

  The service keeps one pool for each recipient.  All functions of a pool run under its
  mutex, so that one pool and its connections are modelled, and each function is one step.
-/
import SolidFrame.Mpipc.MessageWriter
import SolidFrame.Mpipc.PoolMessages

namespace SolidFrame

/-! ## The writer of a connection -/

/-- A message in the order list of a writer. -/
structure WriterMessage (β F : Type) where
  msgbundle : MessageBundle β F
  connMsgId : MessageId
  poolMsgId : MessageId
  /-- the message is in the write list -/
  writing : Bool := true
  /-- the message has a serializer -/
  started : Bool := false

/-- What is seen of a `MessageWriter`: the messages of its order list, the oldest one first,
    and the number of stubs in the write list whose message was canceled.  The
    ids of its messages differ; here they are counted. -/
structure ConnectionWriter (β F : Type) where
  messages : List (WriterMessage β F) := []
  canceled : ℕ := 0
  nextMsgId : ℕ := 0

namespace ConnectionWriter
variable {β F : Type} (v : ConnectionWriter β F)

def writeSize : ℕ := (v.messages.filter WriterMessage.writing).length + v.canceled

def empty : Bool := v.messages.isEmpty

def full (cfg : WriterConfiguration) : Bool := decide (cfg.maxMessageCountMultiplex ≤ v.writeSize)

/-- `enqueue`; `none` when the message is refused. -/
def enqueue (cfg : WriterConfiguration) (b : MessageBundle β F) (poolMsgId : MessageId) :
    Option (MessageId × ConnectionWriter β F) :=
  if cfg.maxMessageCountMultiplex ≤ v.writeSize then none
  else if b.messageFlags.waitResponse ∧
      cfg.maxMessageCountMultiplex + cfg.maxMessageCountResponseWait ≤ v.messages.length then none
  else
    let id : MessageId := ⟨some v.nextMsgId, 0⟩
    some (id, { v with
      messages := v.messages ++ [⟨MessageWriter.clearDisruptingFlags b, id, poolMsgId, true, false⟩]
      nextMsgId := v.nextMsgId + 1 })

def startSend (k : ℕ) : ConnectionWriter β F :=
  { v with messages := v.messages.modify k fun m => { m with
      started := true
      msgbundle := { m.msgbundle with
        messageFlags := { m.msgbundle.messageFlags with startedSend := true } } } }

/-- A message that waits for its response was sent to its end. -/
def sent (k : ℕ) : ConnectionWriter β F :=
  { v with messages := v.messages.modify k fun m => { m with
      writing := false
      msgbundle := { m.msgbundle with
        messageFlags :=
          { m.msgbundle.messageFlags with startedSend := false, doneSend := true } } } }

def erase (k : ℕ) : ConnectionWriter β F := { v with messages := v.messages.eraseIdx k }

/-- `cancel` of the message at place `k`; `none` when its stub stays in the write list and
    is cached, so that the lists of the writer are broken. -/
def cancelAt (k : ℕ) : Option (Option (WriterMessage β F) × ConnectionWriter β F) :=
  match v.messages[k]? with
  | none => some (none, v)
  | some m =>
    if m.writing then
      if m.started then some (some m, { v.erase k with canceled := v.canceled + 1 })
      else if m.msgbundle.messageFlags.waitResponse then none
      else some (some m, v.erase k)
    else some (some m, v.erase k)

end ConnectionWriter

/-! ## State -/

abbrev Address := ℕ

/-- The events of a connection that the service sends. -/
inductive ConnectionEvent where
  | newPoolMessage
  | newConnMessage (id : MessageId)
  | cancelConnMessage (id : MessageId)
  | cancelPoolMessage (id : MessageId)
  | resolve (addrvec : List Address)
  | stopping
  deriving DecidableEq, Repr

/-- `Connection`; `alive` tells that the manager knows the object. -/
structure Connection (β F : Type) where
  alive : Bool := false
  active : Bool := false
  raw : Bool := false
  connected : Bool := false
  stopping : Bool := false
  pollPool : Bool := false
  inPoolWaitQueue : Bool := false
  /-- the events that were not delivered yet, the oldest one first -/
  events : List ConnectionEvent := []
  pendingMessageVec : List MessageId := []
  writer : ConnectionWriter β F := {}
  /-- what the event context of the stop procedure holds: a place in the order list -/
  stopContext : Option (Option ℕ) := none
  /-- `connectionStopping` has returned `true` -/
  canStop : Bool := false

/-- The members of `ConnectionPoolStub` that say what becomes of its connections, with
    `serverSide` for an empty name. -/
structure PoolState where
  pendingConnectionCount : UInt16 := 0
  activeConnectionCount : UInt16 := 0
  stoppingConnectionCount : UInt16 := 0
  serverSide : Bool := false
  mainConnectionId : Option ObjectId := none
  closing : Bool := false
  fastClosing : Bool := false
  mainConnectionStopping : Bool := false
  cleanOneShotMessages : Bool := false
  cleanAllMessages : Bool := false
  restart : Bool := false
  retryConnectCount : UInt8 := 0
  deriving DecidableEq

namespace PoolState
variable (p : PoolState)

def isLastConnection : Bool :=
  p.pendingConnectionCount.toNat + p.activeConnectionCount.toNat == 1

def hasNoConnection : Bool :=
  p.pendingConnectionCount == 0 && p.activeConnectionCount == 0 && p.stoppingConnectionCount == 0

def countActive : PoolState :=
  { p with
    pendingConnectionCount := p.pendingConnectionCount - 1
    activeConnectionCount := p.activeConnectionCount + 1 }

/-- An active or a pending connection is counted as a stopping one. -/
def countStopping (active : Bool) : PoolState :=
  if active then
    { p with activeConnectionCount := p.activeConnectionCount - 1
             stoppingConnectionCount := p.stoppingConnectionCount + 1 }
  else
    { p with pendingConnectionCount := p.pendingConnectionCount - 1
             stoppingConnectionCount := p.stoppingConnectionCount + 1 }

def uncountStopping (active : Bool) : PoolState :=
  if active then
    { p with activeConnectionCount := p.activeConnectionCount + 1
             stoppingConnectionCount := p.stoppingConnectionCount - 1 }
  else
    { p with pendingConnectionCount := p.pendingConnectionCount + 1
             stoppingConnectionCount := p.stoppingConnectionCount - 1 }

end PoolState

/-- `ConnectionPoolStub`. -/
structure ConnectionPool (β F : Type) extends PoolState where
  msgs : PoolMessages β F := .new
  connWaitingq : List ObjectId := []
  mainConnectionActive : Bool := false
  connectAddrVec : List Address := []

namespace ConnectionPool
variable {β F : Type} (p : ConnectionPool β F)

def hasAnyMessage : Bool := !p.msgs.hasNoMessage

def shouldClose : Bool := p.closing && p.msgs.hasNoMessage

end ConnectionPool

/-- The members of `Configuration` that are used for a pool. -/
structure PoolConfiguration where
  writer : WriterConfiguration
  poolMaxActiveConnectionCount : ℕ
  poolMaxPendingConnectionCount : ℕ
  poolMaxMessageQueueSize : ℕ

/-- A pool of the service with its connections, of which the first `nextId` were started. -/
structure Service (β F : Type) where
  pool : ConnectionPool β F
  conns : ObjectId → Connection β F
  nextId : ObjectId
  running : Bool

/-! ## A connection takes messages -/

namespace PoolMessages
variable {β F : Type} (cfg : PoolConfiguration) (c : ObjectId)

/-- What `tryPushMessage` leaves in a stub that can be canceled. -/
def handOver (m : PoolMessages β F) (i : ℕ) (connMsgId : MessageId) : PoolMessages β F :=
  m.modifyStub i fun s =>
    { s with msgbundle := s.msgbundle.movedFrom, msgid := connMsgId, objid := some c }

/-- `doTryPushMessageToConnection` for a message of the lists; `none` is `false`. -/
def doTryPushMessageToConnection (m : PoolMessages β F) (v : ConnectionWriter β F) (i : ℕ) :
    Option (PoolMessages β F × ConnectionWriter β F) :=
  let stub := m.msgvec i
  if stub.msgbundle.messagePtr.isNone then none
  else if stub.cancelable then
    (v.enqueue cfg.writer stub.msgbundle (m.messageId i)).map fun r =>
      ((m.handOver c i r.1).unlink i stub.isAsynchronous, r.2)
  else
    (v.enqueue cfg.writer stub.msgbundle {}).map fun r => (m.clearPopAndCacheMessage i, r.2)

/-- `doTryPushMessageToConnection` for a message that was sent to the connection. -/
def doTryPushMessageIdToConnection (m : PoolMessages β F) (v : ConnectionWriter β F) (i : ℕ)
    (id : MessageId) : Option (PoolMessages β F × ConnectionWriter β F) :=
  let stub := m.msgvec i
  if stub.cancelable then
    (v.enqueue cfg.writer stub.msgbundle id).map fun r => (m.handOver c i r.1, r.2)
  else
    (v.enqueue cfg.writer stub.msgbundle {}).map fun r =>
      ((m.cachePushBack i).modifyStub i MessageStub.clear, r.2)

/-- The stub that an id names, which is checked against its counter. -/
def find (m : PoolMessages β F) (id : MessageId) : Option ℕ :=
  id.index.filter fun i => decide (i < m.vecSize ∧ (m.msgvec i).unique = id.unique)

/-- The loop over `pendingMessageVector()`: the ids that are left, and whether the
    connection may handle more messages. -/
def pushPending : List MessageId → PoolMessages β F → ConnectionWriter β F → Bool →
    PoolMessages β F × ConnectionWriter β F × List MessageId × Bool
  | [], m, v, more => (m, v, [], more)
  | id :: ids, m, v, more =>
    match m.find id with
    | none => pushPending ids m v more
    | some i =>
      match m.doTryPushMessageIdToConnection cfg c v i id with
      | none => (m, v, id :: ids, false)
      | some r => pushPending ids r.1 r.2 true

/-- The loop over a list of the pool, which has `n` messages. -/
def pushList (list : PoolMessages β F → InnerList) :
    ℕ → PoolMessages β F → ConnectionWriter β F → PoolMessages β F × ConnectionWriter β F
  | 0, m, v => (m, v)
  | n + 1, m, v =>
    match (list m).front with
    | none => (m, v)
    | some i =>
      match m.doTryPushMessageToConnection cfg c v i with
      | none => (m, v)
      | some r => pushList list n r.1 r.2

/-- The messages that a connection takes: those that were sent to it, and those of the order
    list for the main connection, of the asynchronous list for another one. -/
def fetch (isMain : Bool) (m : PoolMessages β F) (con : Connection β F) :
    PoolMessages β F × Connection β F :=
  let r := pushPending cfg c con.pendingMessageVec m con.writer (!con.writer.full cfg.writer)
  let list : PoolMessages β F → InnerList :=
    if isMain then msgorderInnerList else msgasyncInnerList
  let q := if r.2.2.2 then pushList cfg c list (list r.1).size r.1 r.2.1 else (r.1, r.2.1)
  (q.1, { con with writer := q.2, pendingMessageVec := r.2.2.1 })

end PoolMessages

namespace Service
variable {β F : Type} (cfg : PoolConfiguration) (s : Service β F)

def withPool (f : ConnectionPool β F → ConnectionPool β F) : Service β F :=
  { s with pool := f s.pool }

def withMsgs (m : PoolMessages β F) : Service β F := s.withPool fun p => { p with msgs := m }

def modifyConn (c : ObjectId) (f : Connection β F → Connection β F) : Service β F :=
  { s with conns := Function.update s.conns c (f (s.conns c)) }

/-- `Manager::notify`; it fails when there is no such object. -/
def notify (id : Option ObjectId) (e : ConnectionEvent) : Service β F × Bool :=
  match id with
  | none => (s, false)
  | some c =>
    if (s.conns c).alive then
      (s.modifyConn c fun con => { con with events := con.events ++ [e] }, true)
    else (s, false)

/-- The first `if` of `pollPoolForUpdates`: another connection replaces a main connection that
    is stopping. -/
def switchMainConnection (c : ObjectId) : Service β F :=
  if s.pool.mainConnectionStopping ∧ s.pool.mainConnectionId ≠ some c then
    (s.notify s.pool.mainConnectionId .stopping).1.withPool fun p => { p with
      mainConnectionId := some c, mainConnectionStopping := false, mainConnectionActive := true }
  else s

def setInPoolWaitingQueue (c : ObjectId) : Service β F :=
  if (s.conns c).inPoolWaitQueue then s
  else
    (s.withPool fun p => { p with connWaitingq := p.connWaitingq ++ [c] }).modifyConn c
      fun con => { con with inPoolWaitQueue := true }

/-- The end of `pollPoolForUpdates`: the connection takes messages, and waits for more. -/
def takeMessages (c : ObjectId) : Service β F :=
  let r := s.pool.msgs.fetch cfg c (s.pool.mainConnectionId == some c) (s.conns c)
  ((s.withMsgs r.1).modifyConn c fun _ => r.2).setInPoolWaitingQueue c

/-- `pollPoolForUpdates`; `true` is the error that the pool is stopping. -/
def pollPoolForUpdates (c : ObjectId) (completedMsgId : MessageId) : Service β F × Bool :=
  let s₁ := s.switchMainConnection c
  let s₂ := s₁.withMsgs (s₁.pool.msgs.cacheMessageId completedMsgId)
  if s₂.pool.fastClosing then (s₂, true)
  else if (s₂.conns c).writer.empty ∧ s₂.pool.shouldClose then (s₂, true)
  else (s₂.takeMessages cfg c, false)

/-! ## Connections are started -/

/-- A connection object that was started with an event, and is known to the pool as pending. -/
def startConnection (events : List ConnectionEvent) : Service β F :=
  { s with
    conns := Function.update s.conns s.nextId { alive := true, events := events }
    nextId := s.nextId + 1
    pool := { s.pool with pendingConnectionCount := s.pool.pendingConnectionCount + 1 } }

/-- `doTryCreateNewConnectionForPool`; `started` tells that `startObject` succeeds.  Without
    addresses the name is resolved, and the event comes later. -/
def doTryCreateNewConnectionForPool (started : Bool) : Service β F × Bool :=
  if s.pool.activeConnectionCount.toNat < cfg.poolMaxActiveConnectionCount ∧
      s.pool.pendingConnectionCount = 0 ∧ s.pool.hasAnyMessage ∧
      s.pool.connWaitingq.length < s.pool.msgs.msgorderInnerList.size ∧ s.running ∧ started then
    let events :=
      if s.pool.connectAddrVec.isEmpty then [] else [.resolve s.pool.connectAddrVec]
    ((s.startConnection events).withPool fun p => { p with
      mainConnectionId := p.mainConnectionId.or (some s.nextId)
      connectAddrVec := [] }, true)
  else (s, false)

def forwardResolveMessage (addrvec : List Address) (started : Bool) : Service β F :=
  if addrvec.isEmpty then (s.doTryCreateNewConnectionForPool cfg started).1
  else if s.pool.pendingConnectionCount.toNat < cfg.poolMaxPendingConnectionCount then
    if started then s.startConnection [.resolve addrvec] else s
  else s.withPool fun p => { p with connectAddrVec := addrvec.dropLast }

def countActive : Service β F :=
  s.withPool fun p => { p with toPoolState := p.toPoolState.countActive }

/-- `activateConnection`; `false` is the error of too many active connections. -/
def activateConnection (c : ObjectId) (started : Bool) : Service β F × Bool :=
  if s.pool.mainConnectionStopping then
    ((s.notify s.pool.mainConnectionId .stopping).1.countActive.withPool fun p => { p with
      mainConnectionId := some c, mainConnectionStopping := false, mainConnectionActive := true },
      true)
  else if cfg.poolMaxActiveConnectionCount < s.pool.activeConnectionCount.toNat + 1 then (s, false)
  else ((s.countActive.doTryCreateNewConnectionForPool cfg started).1, true)

/-! ## Requests -/

def notifyWaiting : List ObjectId → Service β F → Service β F × Bool
  | [], s => (s.withPool fun p => { p with connWaitingq := [] }, false)
  | c :: q, s =>
    if (s.notify (some c) .newPoolMessage).2 then
      ((s.notify (some c) .newPoolMessage).1.withPool fun p => { p with connWaitingq := q }, true)
    else notifyWaiting q s

def doTryNotifyPoolWaitingConnection : Service β F × Bool :=
  notifyWaiting s.pool.connWaitingq s

def notifyAllWaiting : Service β F :=
  (s.pool.connWaitingq.foldl (fun s c => (s.notify (some c) .newPoolMessage).1) s).withPool
    fun p => { p with connWaitingq := [] }

/-- The part of `doSendMessage` after the message is in the pool. -/
def notifySent (flags : MessageFlags) (id : MessageId) (started : Bool) : Service β F :=
  let r₁ :=
    if s.pool.cleanOneShotMessages ∧ flags.oneShotSend then
      s.notify s.pool.mainConnectionId (.newConnMessage id)
    else (s, false)
  let r₂ :=
    if ¬ r₁.2 ∧ flags.synchronous ∧ r₁.1.pool.mainConnectionActive then
      r₁.1.notify r₁.1.pool.mainConnectionId .newPoolMessage
    else r₁
  let r₃ := if ¬ r₂.2 ∧ ¬ flags.synchronous then r₂.1.doTryNotifyPoolWaitingConnection else r₂
  if r₃.2 then r₃.1 else (r₃.1.doTryCreateNewConnectionForPool cfg started).1

/-- `makeCancelable`, when the id of the message was asked for. -/
def makeCancelable (m : PoolMessages β F) (i : ℕ) (cancelable : Bool) : PoolMessages β F :=
  if cancelable then m.modifyStub i fun stub => { stub with cancelable := true } else m

/-- `doSendMessage` to a pool; `false` when the message is not accepted. -/
def doSendMessage (b : MessageBundle β F) (cancelable started : Bool) :
    Option (Service β F × Bool) :=
  if ¬ s.running ∨ b.messagePtr.isNone ∨ s.pool.closing ∨
      s.pool.msgs.isFull cfg.poolMaxMessageQueueSize then some (s, false)
  else
    (s.pool.msgs.pushBackMessage b).map fun r =>
      let m := makeCancelable r.2 r.1 cancelable
      ((s.withMsgs m).notifySent cfg b.messageFlags (m.messageId r.1) started, true)

def initial (running : Bool) : Service β F := ⟨{}, fun _ => {}, 0, running⟩

/-- `doSendMessageToNewPool`; `none` when no connection is started. -/
def doSendMessageToNewPool (b : MessageBundle β F) (cancelable started : Bool) :
    Option (Service β F) :=
  (s.pool.msgs.pushBackMessage b).bind fun r =>
    let q := (s.withMsgs r.2).doTryCreateNewConnectionForPool cfg started
    if q.2 then some (q.1.withMsgs (makeCancelable q.1.pool.msgs r.1 cancelable)) else none

/-- `doSendMessageToConnection`; `false` when the connection is not known. -/
def doSendMessageToConnection (c : ObjectId) (b : MessageBundle β F) (cancelable : Bool) :
    Option (Service β F × Bool) :=
  let b := { b with messageFlags := { b.messageFlags with oneShotSend := true } }
  if s.pool.serverSide then
    (s.pool.msgs.pushBackMessage b).map fun r =>
      let q := (s.withMsgs r.2).notify (some c) .newPoolMessage
      if q.2 then (q.1.withMsgs (makeCancelable r.2 r.1 cancelable), true)
      else (s.withMsgs (r.2.clearPopAndCacheMessage r.1), false)
  else
    (s.pool.msgs.insertMessage b).map fun r =>
      let q := (s.withMsgs r.2).notify (some c) (.newConnMessage (r.2.messageId r.1))
      if q.2 then (q.1.withMsgs (makeCancelable r.2 r.1 cancelable), true)
      else (s.withMsgs (r.2.clearAndCacheMessage r.1), false)

/-- The second half of `cancelMessage`, for a message that no connection handles; an exception
    is thrown when there is no main connection. -/
def cancelPoolMessage (i : ℕ) (id : MessageId) : Service β F :=
  let m := s.pool.msgs.modifyStub i fun stub =>
    { stub with msgbundle := stub.msgbundle.setCanceled }
  let r := (s.withMsgs m).notify s.pool.mainConnectionId (.cancelPoolMessage id)
  if r.2 ∧ m.msgorderInnerList.contains m.orderLinks i then
    r.1.withMsgs (m.unlink i (m.msgvec i).isAsynchronous)
  else r.1

def cancelMessage (id : MessageId) : Service β F :=
  match s.pool.msgs.find id with
  | none => s
  | some i =>
    let stub := s.pool.msgs.msgvec i
    if stub.msgbundle.messageFlags.canceled then s
    else if stub.objid.isSome then
      let r := s.notify stub.objid (.cancelConnMessage stub.msgid)
      if r.2 then r.1.withMsgs (s.pool.msgs.clearAndCacheMessage i)
      else
        s.withMsgs (s.pool.msgs.modifyStub i fun stub =>
          { stub with msgbundle := stub.msgbundle.setCanceled, msgid := {}, objid := none })
    else if stub.msgbundle.messagePtr.isSome then s.cancelPoolMessage i id
    else s

def fetchCanceledMessage (id : MessageId) : Service β F × Option (MessageBundle β F) :=
  match s.pool.msgs.find id with
  | none => (s, none)
  | some i =>
    (s.withMsgs (s.pool.msgs.clearAndCacheMessage i), some (s.pool.msgs.msgvec i).msgbundle)

/-- A close request is a message without content.  A forced one is synchronous. -/
def closeRequest (force : Bool) (f : Option F) : MessageBundle β F where
  messageTypeId := some 0
  messageFlags := { synchronous := force }
  completeFnc := f

def closeConnectionPool (force : Bool) (f : Option F) : Option (Service β F) :=
  (s.pool.msgs.pushBackMessage (closeRequest force f)).map fun r =>
    (s.withPool fun p => { p with
      msgs := r.2, closing := true, fastClosing := p.fastClosing || force }).notifyAllWaiting

def doDelayCloseConnectionPool (f : Option F) : Option (Service β F) :=
  s.closeConnectionPool false f

def doForceCloseConnectionPool (f : Option F) : Option (Service β F) :=
  s.closeConnectionPool true f

end Service

end SolidFrame
