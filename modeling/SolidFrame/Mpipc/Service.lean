/-
  SolidFrame formalization — connections that stop, and the steps of a pool
  (`solid/frame/mpipc/src/mpipcservice.cpp`, `mpipcconnection.cpp`).

  A connection that stops calls `connectionStopping` again and again, until it may call
  `connectionStop`.  What a call does depends on whether the connection is the main one of
  its pool, whether it is the last one, and on the flags of the pool.  The service is not
  stopped: no step changes `running`, so the runs are those of a running service.
-/
import SolidFrame.Mpipc.ConnectionPool
import SolidFrame.Mpipc.PoolResend

namespace SolidFrame

open Option

namespace Service
variable {β F : Type} (cfg : PoolConfiguration) (s : Service β F)

/-! ## A connection stops -/

/-- What `connectionStopping` tells the connection. -/
structure Stopping (β F : Type) where
  service : Service β F
  canStop : Bool
  msgBundle : Option (MessageBundle β F × MessageId) := none

/-- The messages of the writer that can be sent again go to the front of the pool. -/
def doFetchResendableMessagesFromConnection (c : ObjectId) : Option (Service β F) :=
  let resend := fun m : WriterMessage β F => m.msgbundle.messageFlags.isResendable
  let messages := (s.conns c).writer.messages
  ((messages.filter resend).foldlM (fun m t =>
      PoolMessages.doPushFrontMessageToPool m t.msgbundle t.poolMsgId) s.pool.msgs).map fun m =>
    (s.withMsgs m).modifyConn c fun con =>
      { con with writer := { con.writer with messages := messages.filter fun t => !resend t } }

def countStopping (c : ObjectId) : Service β F :=
  s.withPool fun p => { p with toPoolState := p.toPoolState.countStopping (s.conns c).active }

def doNonMainConnectionStopping (c : ObjectId) (started : Bool) : Option (Stopping β F) := do
  let s₁ := s.countStopping c
  let s₂ :=
    if s₁.pool.isLastConnection ∧ s₁.pool.mainConnectionStopping then
      (s₁.notify s₁.pool.mainConnectionId .stopping).1
    else s₁
  if s₂.pool.fastClosing then pure ⟨s₂, true, none⟩
  else
    let s₃ ← s₂.doFetchResendableMessagesFromConnection c
    pure ⟨(s₃.doTryCreateNewConnectionForPool cfg started).1, true, none⟩

def doMainConnectionStoppingNotLast (c : ObjectId) : Option (Stopping β F) := do
  let s₁ := s.withPool fun p =>
    { p with mainConnectionStopping := true, mainConnectionActive := false }
  if s₁.pool.fastClosing then pure ⟨s₁, false, none⟩
  else pure ⟨← s₁.doFetchResendableMessagesFromConnection c, false, none⟩

/-- The message at index `i` goes out, and leaves the lists of the pool. -/
def popMessage (i : ℕ) : Stopping β F where
  service := s.withMsgs (s.pool.msgs.clearPopAndCacheMessage i)
  canStop := false
  msgBundle := some ((s.pool.msgs.msgvec i).msgbundle, s.pool.msgs.messageId i)

/-- `none` when the event context holds no index. -/
def doMainConnectionStoppingCleanOneShot (c : ObjectId) : Option (Stopping β F) :=
  (s.conns c).stopContext.map fun crtmsgidx =>
    match crtmsgidx with
    | some i =>
      let s₁ := s.modifyConn c fun con =>
        { con with stopContext := some (InnerList.previousIndex s.pool.msgs.orderLinks i) }
      let b := (s.pool.msgs.msgvec i).msgbundle
      if b.messagePtr.isSome ∧ b.messageFlags.oneShotSend then s₁.popMessage i
      else if b.messagePtr.isNone ∧ s.pool.msgs.msgorderInnerList.size = 1 then s₁.popMessage i
      else ⟨s₁, false, none⟩
    | none =>
      ⟨s.withPool fun p => { p with cleanOneShotMessages := false, restart := true }, false, none⟩

def doMainConnectionStoppingCleanAll (c : ObjectId) : Option (Stopping β F) :=
  if s.pool.msgs.msgorderInnerList.size ≠ 0 then
    s.pool.msgs.msgorderInnerList.front.map s.popMessage
  else
    some ⟨(s.countStopping c).withPool fun p => { p with cleanAllMessages := false }, true, none⟩

def doMainConnectionStoppingPrepareCleanOneShot (c : ObjectId) : Option (Stopping β F) := do
  let s₁ ← s.doFetchResendableMessagesFromConnection c
  let s₂ := s₁.withPool fun p => { p with mainConnectionActive := false }
  if s₂.pool.msgs.msgorderInnerList.size ≠ 0 then
    pure ⟨(s₂.withPool fun p => { p with cleanOneShotMessages := true }).modifyConn c fun con =>
      { con with stopContext := some s₂.pool.msgs.msgorderInnerList.front }, false, none⟩
  else pure ⟨s₂.countStopping c, true, none⟩

def doMainConnectionStoppingPrepareCleanAll : Stopping β F :=
  ⟨s.withPool fun p => { p with
    cleanAllMessages := true, mainConnectionActive := false, fastClosing := true, closing := true },
    false, none⟩

/-- A pool that has messages gets another connection, or the old one tries again later. -/
def doMainConnectionRestarting (c : ObjectId) (started : Bool) : Stopping β F :=
  let s₁ := (s.countStopping c).withPool fun p => { p with
    mainConnectionId := none
    retryConnectCount := if (s.conns c).connected then 0 else s.pool.retryConnectCount }
  if s₁.pool.hasAnyMessage then
    let s₂ := s₁.withPool fun p => { p with connWaitingq := [] }
    let r :=
      if s₂.pool.retryConnectCount &&& 1 = 0 then s₂.doTryCreateNewConnectionForPool cfg started
      else (s₂, false)
    let s₃ := r.1.withPool fun p => { p with retryConnectCount := p.retryConnectCount + 1 }
    if r.2 then ⟨s₃, true, none⟩
    else
      -- the connection stays a counted one, and the main one
      ⟨s₃.withPool fun p => { p with
        toPoolState := { p.toPoolState.uncountStopping (s.conns c).active with
          mainConnectionId := some c } }, false, none⟩
  else ⟨s₁, true, none⟩

/-- `connectionStopping`; `resolveError` tells that the connection stops because its name was
    not resolved. -/
def connectionStopping (c : ObjectId) (resolveError started : Bool) : Option (Stopping β F) :=
  if s.pool.mainConnectionId ≠ some c then s.doNonMainConnectionStopping cfg c started
  else if ¬ s.pool.isLastConnection then s.doMainConnectionStoppingNotLast c
  else if s.pool.cleanOneShotMessages then s.doMainConnectionStoppingCleanOneShot c
  else if s.pool.cleanAllMessages then s.doMainConnectionStoppingCleanAll c
  else if s.pool.restart ∧ s.running then some (s.doMainConnectionRestarting cfg c started)
  else if ¬ s.pool.fastClosing ∧ ¬ s.pool.serverSide ∧ s.running ∧ ¬ resolveError then
    s.doMainConnectionStoppingPrepareCleanOneShot c
  else some s.doMainConnectionStoppingPrepareCleanAll

/-- `connectionStop`; a pool without connections is cleared. -/
def connectionStop : Service β F :=
  let s₁ := s.withPool fun p => { p with
    stoppingConnectionCount := p.stoppingConnectionCount - 1, restart := false }
  if s₁.pool.hasNoConnection then s₁.withPool fun _ => {} else s₁

/-! ## A connection and its pool -/

/-- `doStop`, up to the first call of `connectionStopping`. -/
def doStop (c : ObjectId) : Service β F := s.modifyConn c fun con => { con with stopping := true }

/-- The part of `doSend` that looks at the pool. -/
def doSend (c : ObjectId) : Service β F :=
  if ¬ (s.conns c).stopping ∧ (s.conns c).pollPool then
    let r := (s.modifyConn c fun con => { con with pollPool := false }).pollPoolForUpdates cfg c {}
    if r.2 then r.1.doStop c else r.1
  else s

/-- The pool is polled in the next `doSend`, which follows. -/
def pollNow (c : ObjectId) : Service β F :=
  (s.modifyConn c fun con => { con with pollPool := true }).doSend cfg c

/-- The completion callback of the writer, and the poll after it. -/
def completeMessage (c : ObjectId) (poolMsgId : MessageId) : Service β F :=
  let r := s.pollPoolForUpdates cfg c poolMsgId
  if r.2 then r.1.doStop c else r.1

/-- A message at place `k` of the writer is canceled, and completed. -/
def cancelInWriter (c : ObjectId) (k : ℕ) :
    Option (Service β F × List (MessageBundle β F × MessageId)) :=
  ((s.conns c).writer.cancelAt k).map fun r =>
    (s.modifyConn c fun con => { con with writer := r.2 },
      (r.1.map fun m => (m.msgbundle.setCanceled, m.poolMsgId)).toList)

/-- `doCompleteMessage` for a received message. -/
def settleRequest (c : ObjectId) :
    Option ℕ → Option (Service β F × List (MessageBundle β F × MessageId))
  | none => some (s, [])
  | some k => s.cancelInWriter c k

/-- A message is taken from the pool in order to be completed. -/
def completeFetched (id : MessageId) : Service β F × List (MessageBundle β F × MessageId) :=
  ((s.fetchCanceledMessage id).1, ((s.fetchCanceledMessage id).2.map fun b => (b, id)).toList)

def handleEvent (c : ObjectId) (started : Bool) :
    ConnectionEvent → Option (Service β F × List (MessageBundle β F × MessageId))
  | .newPoolMessage =>
    let s₁ := s.modifyConn c fun con => { con with inPoolWaitQueue := false }
    if (s.conns c).stopping then some (s₁.doTryNotifyPoolWaitingConnection.1, [])
    else some (s₁.pollNow cfg c, [])
  | .newConnMessage id =>
    if (s.conns c).stopping then some (s.completeFetched id)
    else
      let s₁ := s.modifyConn c fun con =>
        { con with pendingMessageVec := con.pendingMessageVec ++ [id] }
      if (s.conns c).raw then some (s₁, []) else some (s₁.pollNow cfg c, [])
  | .cancelConnMessage id =>
    s.cancelInWriter c ((s.conns c).writer.messages.findIdx fun m => m.connMsgId == id)
  | .cancelPoolMessage id => some (s.completeFetched id)
  | .resolve addrvec =>
    if addrvec.isEmpty then some (s.doStop c, [])
    else some (s.forwardResolveMessage cfg addrvec started, [])
  | .stopping => some (s, [])

def enterActive (c : ObjectId) (started : Bool) : Service β F :=
  if (s.conns c).stopping then s
  else
    let r := s.activateConnection cfg c started
    if r.2 then r.1.modifyConn c fun con => { con with active := true, pollPool := true }
    else r.1.doStop c

def enterPassive (c : ObjectId) : Service β F :=
  if (s.conns c).raw then
    let s₁ := s.modifyConn c fun con => { con with raw := false }
    if (s.conns c).pendingMessageVec.isEmpty then s₁ else s₁.pollNow cfg c
  else s

end Service

/-! ## Steps -/

/-- `doSend` calls the writer. -/
def Connection.isWriting {β F : Type} (con : Connection β F) : Bool := con.alive && !con.stopping

/-- The steps of a pool.  `started` is the outcome of `startObject`, when it is called. -/
inductive Action (β F : Type) where
  | sendMessage (b : MessageBundle β F) (cancelable started : Bool)
  | sendMessageToConnection (c : ObjectId) (b : MessageBundle β F) (cancelable : Bool)
  | cancelMessage (id : MessageId)
  | delayClose (f : Option F)
  | forceClose (f : Option F)
  /-- the name was resolved -/
  | resolved (c : ObjectId) (addrvec : List Address)
  /-- the oldest event of a connection is delivered -/
  | deliver (c : ObjectId) (started : Bool)
  /-- `onConnect` -/
  | connected (c : ObjectId) (raw : Bool)
  | enterActive (c : ObjectId) (started : Bool)
  | enterPassive (c : ObjectId)
  | doSend (c : ObjectId)
  /-- the writer begins a message, has sent a request, has sent and completed a message -/
  | startSend (c : ObjectId) (k : ℕ)
  | sent (c : ObjectId) (k : ℕ)
  | completed (c : ObjectId) (k : ℕ)
  /-- the writer has told the peer about a canceled message -/
  | sentCanceled (c : ObjectId)
  /-- a message is received, for `some k` the response to the message at place `k` -/
  | received (c : ObjectId) (request : Option ℕ)
  /-- `doStop` -/
  | stop (c : ObjectId)
  /-- a call of `connectionStopping` -/
  | stopping (c : ObjectId) (resolveError started : Bool)
  /-- `doCompleteAllMessages` for a message of the writer, and for one sent to the connection -/
  | completeOldest (c : ObjectId)
  | completePending (c : ObjectId)
  /-- `onStopped` -/
  | stopped (c : ObjectId)

namespace Service
variable {β F : Type} (cfg : PoolConfiguration)

/-- A step; `none` when it cannot be made. -/
def exec (s : Service β F) :
    Action β F → Option (Service β F × List (MessageBundle β F × MessageId))
  | .sendMessage b cancelable started =>
    (s.doSendMessage cfg b cancelable started).map fun r => (r.1, [])
  | .sendMessageToConnection c b cancelable =>
    if ¬ s.running ∨ b.messagePtr.isNone then some (s, [])
    else (s.doSendMessageToConnection c b cancelable).map fun r => (r.1, [])
  | .cancelMessage id => some (s.cancelMessage id, [])
  | .delayClose f => (s.doDelayCloseConnectionPool f).map fun s' => (s', [])
  | .forceClose f => (s.doForceCloseConnectionPool f).map fun s' => (s', [])
  | .resolved c addrvec => some ((s.notify (some c) (.resolve addrvec)).1, [])
  | .deliver c started =>
    if ¬ (s.conns c).alive then none
    else
      match (s.conns c).events with
      | [] => none
      | e :: es =>
        (s.modifyConn c fun con => { con with events := es }).handleEvent cfg c started e
  | .connected c raw =>
    if (s.conns c).alive then
      some (s.modifyConn c fun con => { con with connected := true, raw := raw }, [])
    else none
  | .enterActive c started =>
    if (s.conns c).alive then some (s.enterActive cfg c started, []) else none
  | .enterPassive c => if (s.conns c).alive then some (s.enterPassive cfg c, []) else none
  | .doSend c => if (s.conns c).alive then some (s.doSend cfg c, []) else none
  | .startSend c k =>
    if (s.conns c).isWriting then
      some (s.modifyConn c fun con => { con with writer := con.writer.startSend k }, [])
    else none
  | .sent c k =>
    match (s.conns c).writer.messages[k]? with
    | none => none
    | some m =>
      if (s.conns c).isWriting ∧ m.writing ∧ m.msgbundle.messageFlags.waitResponse then
        some (s.modifyConn c fun con => { con with writer := con.writer.sent k }, [])
      else none
  | .completed c k =>
    match (s.conns c).writer.messages[k]? with
    | none => none
    | some m =>
      if (s.conns c).isWriting ∧ m.writing ∧ ¬ m.msgbundle.messageFlags.waitResponse then
        some ((s.modifyConn c fun con => { con with writer := con.writer.erase k }).completeMessage
          cfg c m.poolMsgId, [(m.msgbundle, m.poolMsgId)])
      else none
  | .sentCanceled c =>
    if (s.conns c).isWriting then
      some (s.modifyConn c fun con =>
        { con with writer := { con.writer with canceled := con.writer.canceled - 1 } }, [])
    else none
  | .received c request =>
    if ¬ (s.conns c).alive then none
    else
      (s.settleRequest c request).map fun r =>
        (r.1.modifyConn c fun con => { con with pollPool := true }, r.2)
  | .stop c => if (s.conns c).alive then some (s.doStop c, []) else none
  | .stopping c resolveError started =>
    if ¬ ((s.conns c).alive ∧ (s.conns c).stopping ∧ ¬ (s.conns c).canStop) then none
    else
      (s.connectionStopping cfg c resolveError started).map fun r =>
        (r.service.modifyConn c fun con => { con with canStop := r.canStop }, r.msgBundle.toList)
  | .completeOldest c =>
    match (s.conns c).writer.messages with
    | [] => none
    | m :: messages =>
      if ¬ (s.conns c).stopping then none
      else
        some (s.modifyConn c fun con =>
          { con with writer := { con.writer with messages := messages } },
          [(m.msgbundle.setCanceled, m.poolMsgId)])
  | .completePending c =>
    match (s.conns c).pendingMessageVec with
    | [] => none
    | id :: ids =>
      if ¬ (s.conns c).stopping then none
      else
        some ((s.modifyConn c fun con => { con with pendingMessageVec := ids }).completeFetched id)
  | .stopped c =>
    if (s.conns c).alive ∧ (s.conns c).canStop then
      some (s.connectionStop.modifyConn c fun con => { con with alive := false }, [])
    else none

/-- What the actions do, one case for each outcome. -/
inductive Step (s : Service β F) :
    Action β F → Service β F → List (MessageBundle β F × MessageId) → Prop where
  | sendMessage {b cancelable started} {r : Service β F × Bool} :
      s.doSendMessage cfg b cancelable started = some r →
      Step s (.sendMessage b cancelable started) r.1 []
  | refused {c b cancelable} : Step s (.sendMessageToConnection c b cancelable) s []
  | sendMessageToConnection {c} {b : MessageBundle β F} {cancelable} {r : Service β F × Bool} :
      b.messagePtr.isSome = true →
      s.doSendMessageToConnection c b cancelable = some r →
      Step s (.sendMessageToConnection c b cancelable) r.1 []
  | cancelMessage (id : MessageId) : Step s (.cancelMessage id) (s.cancelMessage id) []
  | delayClose {f s'} (h : s.doDelayCloseConnectionPool f = some s') : Step s (.delayClose f) s' []
  | forceClose {f s'} (h : s.doForceCloseConnectionPool f = some s') : Step s (.forceClose f) s' []
  | resolved (c : ObjectId) (addrvec : List Address) :
      Step s (.resolved c addrvec) (s.notify (some c) (.resolve addrvec)).1 []
  | deliver {c started e es} {r : Service β F × List (MessageBundle β F × MessageId)} :
      (s.conns c).alive = true →
      (s.conns c).events = e :: es →
      (s.modifyConn c fun con => { con with events := es }).handleEvent cfg c started e = some r →
      Step s (.deliver c started) r.1 r.2
  | connected {c raw} :
      (s.conns c).alive = true →
      Step s (.connected c raw)
        (s.modifyConn c fun con => { con with connected := true, raw := raw }) []
  | enterActive {c started} :
      (s.conns c).alive = true →
      Step s (.enterActive c started) (s.enterActive cfg c started) []
  | enterPassive {c} :
      (s.conns c).alive = true →
      Step s (.enterPassive c) (s.enterPassive cfg c) []
  | doSend {c} (hc : (s.conns c).alive = true) : Step s (.doSend c) (s.doSend cfg c) []
  | startSend {c k} :
      (s.conns c).isWriting = true →
      Step s (.startSend c k)
        (s.modifyConn c fun con => { con with writer := con.writer.startSend k }) []
  | sent {c k} {m : WriterMessage β F} :
      (s.conns c).writer.messages[k]? = some m →
      (s.conns c).isWriting = true →
      m.writing = true →
      m.msgbundle.messageFlags.waitResponse = true →
      Step s (.sent c k) (s.modifyConn c fun con => { con with writer := con.writer.sent k }) []
  | completed {c k} {m : WriterMessage β F} :
      (s.conns c).writer.messages[k]? = some m →
      (s.conns c).isWriting = true →
      m.writing = true →
      ¬ m.msgbundle.messageFlags.waitResponse = true →
      Step s (.completed c k)
        ((s.modifyConn c fun con => { con with writer := con.writer.erase k }).completeMessage cfg c
          m.poolMsgId)
        [(m.msgbundle, m.poolMsgId)]
  | sentCanceled {c} :
      (s.conns c).isWriting = true →
      Step s (.sentCanceled c)
        (s.modifyConn c fun con =>
          { con with writer := { con.writer with canceled := con.writer.canceled - 1 } })
        []
  | received {c request} {r : Service β F × List (MessageBundle β F × MessageId)} :
      (s.conns c).alive = true →
      s.settleRequest c request = some r →
      Step s (.received c request) (r.1.modifyConn c fun con => { con with pollPool := true }) r.2
  | stop {c} (hc : (s.conns c).alive = true) : Step s (.stop c) (s.doStop c) []
  | stopping {c resolveError started} {r : Stopping β F} :
      (s.conns c).alive = true →
      (s.conns c).stopping = true →
      ¬ (s.conns c).canStop = true →
      s.connectionStopping cfg c resolveError started = some r →
      Step s (.stopping c resolveError started)
        (r.service.modifyConn c fun con => { con with canStop := r.canStop }) r.msgBundle.toList
  | completeOldest {c} {m : WriterMessage β F} {ms} :
      (s.conns c).writer.messages = m :: ms →
      (s.conns c).stopping = true →
      Step s (.completeOldest c)
        (s.modifyConn c fun con => { con with writer := { con.writer with messages := ms } })
        [(m.msgbundle.setCanceled, m.poolMsgId)]
  | completePending {c id ids} :
      (s.conns c).pendingMessageVec = id :: ids →
      (s.conns c).stopping = true →
      Step s (.completePending c)
        ((s.modifyConn c fun con => { con with pendingMessageVec := ids }).completeFetched id).1
        ((s.modifyConn c fun con => { con with pendingMessageVec := ids }).completeFetched id).2
  | stopped {c} :
      (s.conns c).alive = true →
      (s.conns c).canStop = true →
      Step s (.stopped c) (s.connectionStop.modifyConn c fun con => { con with alive := false }) []

theorem exec_step {s s' : Service β F} {a : Action β F}
    {out : List (MessageBundle β F × MessageId)} (h : s.exec cfg a = some (s', out)) :
    s.Step cfg a s' out := by
  -- a call that may fail, and hands out nothing
  have hmap : ∀ {α : Type} {x : Option α} {f : α → Service β F},
      (x.map fun r => (f r, [])) = some (s', out) → ∃ r, x = some r ∧ s' = f r ∧ out = [] := by
    intro α x f hx
    obtain ⟨r, hr, heq⟩ := map_eq_some_iff.1 hx
    obtain ⟨rfl, rfl⟩ := Prod.mk.inj heq
    exact ⟨r, hr, rfl, rfl⟩
  cases a with
  | sendMessage b cancelable started =>
    obtain ⟨r, hr, rfl, rfl⟩ := hmap h
    exact .sendMessage hr
  | sendMessageToConnection c b cancelable =>
    rw [exec] at h
    split_ifs at h with hrefused
    · cases h
      exact .refused
    · obtain ⟨r, hr, rfl, rfl⟩ := hmap h
      refine .sendMessageToConnection ?_ hr
      by_contra hnone
      exact hrefused (Or.inr (by simpa using hnone))
  | cancelMessage id =>
    cases h
    exact .cancelMessage id
  | delayClose f =>
    obtain ⟨r, hr, rfl, rfl⟩ := hmap h
    exact .delayClose hr
  | forceClose f =>
    obtain ⟨r, hr, rfl, rfl⟩ := hmap h
    exact .forceClose hr
  | resolved c addrvec =>
    cases h
    exact .resolved c addrvec
  | deliver c started =>
    obtain ⟨hc, h⟩ := ite_none_left_eq_some.1 h
    split at h
    · cases h
    · rename_i e es hevents
      exact .deliver (not_not.1 hc) hevents h
  | connected c raw =>
    obtain ⟨hc, ⟨⟩⟩ := ite_none_right_eq_some.1 h
    exact .connected hc
  | enterActive c started =>
    obtain ⟨hc, ⟨⟩⟩ := ite_none_right_eq_some.1 h
    exact .enterActive hc
  | enterPassive c =>
    obtain ⟨hc, ⟨⟩⟩ := ite_none_right_eq_some.1 h
    exact .enterPassive hc
  | doSend c =>
    obtain ⟨hc, ⟨⟩⟩ := ite_none_right_eq_some.1 h
    exact .doSend hc
  | startSend c k =>
    obtain ⟨hc, ⟨⟩⟩ := ite_none_right_eq_some.1 h
    exact .startSend hc
  | sent c k =>
    rw [exec] at h
    split at h
    · cases h
    · rename_i m hk
      obtain ⟨hc, ⟨⟩⟩ := ite_none_right_eq_some.1 h
      exact .sent hk hc.1 hc.2.1 hc.2.2
  | completed c k =>
    rw [exec] at h
    split at h
    · cases h
    · rename_i m hk
      obtain ⟨hc, ⟨⟩⟩ := ite_none_right_eq_some.1 h
      exact .completed hk hc.1 hc.2.1 hc.2.2
  | sentCanceled c =>
    obtain ⟨hc, ⟨⟩⟩ := ite_none_right_eq_some.1 h
    exact .sentCanceled hc
  | received c request =>
    obtain ⟨hc, h⟩ := ite_none_left_eq_some.1 h
    obtain ⟨r, hr, ⟨⟩⟩ := map_eq_some_iff.1 h
    exact .received (not_not.1 hc) hr
  | stop c =>
    obtain ⟨hc, ⟨⟩⟩ := ite_none_right_eq_some.1 h
    exact .stop hc
  | stopping c resolveError started =>
    obtain ⟨hc, h⟩ := ite_none_left_eq_some.1 h
    obtain ⟨hc, hstop, hcan⟩ := not_not.1 hc
    obtain ⟨r, hr, ⟨⟩⟩ := map_eq_some_iff.1 h
    exact .stopping hc hstop hcan hr
  | completeOldest c =>
    rw [exec] at h
    split at h
    · cases h
    · rename_i m ms hms
      obtain ⟨hstop, ⟨⟩⟩ := ite_none_left_eq_some.1 h
      exact .completeOldest hms (not_not.1 hstop)
  | completePending c =>
    rw [exec] at h
    split at h
    · cases h
    · rename_i id ids hids
      obtain ⟨hstop, ⟨⟩⟩ := ite_none_left_eq_some.1 h
      exact .completePending hids (not_not.1 hstop)
  | stopped c =>
    obtain ⟨hc, ⟨⟩⟩ := ite_none_right_eq_some.1 h
    exact .stopped hc.1 hc.2

/-! ## One connection -/

variable {flags : MessageFlags}

section Conn
variable {s : Service β F} {c : ObjectId}

theorem modifyConn_self (s : Service β F) (c : ObjectId) (f : Connection β F → Connection β F) :
    (s.modifyConn c f).conns c = f (s.conns c) := Function.update_self _ _ _

theorem modifyConn_of_ne (s : Service β F) {c' : ObjectId} (h : c' ≠ c)
    (f : Connection β F → Connection β F) : (s.modifyConn c f).conns c' = s.conns c' :=
  Function.update_of_ne h _ _

theorem modifyConn_modifyConn (s : Service β F) (c : ObjectId)
    (f g : Connection β F → Connection β F) :
    (s.modifyConn c f).modifyConn c g = s.modifyConn c fun con => g (f con) := by
  simp [modifyConn]

variable {p : ObjectId → Connection β F → Prop}

theorem forall_modifyConn {f : Connection β F → Connection β F}
    (hc : p c (f (s.conns c)))
    (hother : ∀ c', c' ≠ c → p c' (s.conns c')) (c' : ObjectId) :
    p c' ((s.modifyConn c f).conns c') := by
  rcases eq_or_ne c' c with rfl | hne
  · rw [modifyConn_self]
    exact hc
  · rw [modifyConn_of_ne _ hne]
    exact hother c' hne

theorem startConnection_self (s : Service β F) (events : List ConnectionEvent) :
    (s.startConnection events).conns s.nextId = { alive := true, events := events } :=
  Function.update_self _ _ _

theorem startConnection_of_ne (s : Service β F) (hc : c ≠ s.nextId)
    (events : List ConnectionEvent) : (s.startConnection events).conns c = s.conns c :=
  Function.update_of_ne hc _ _

theorem forall_startConnection {events : List ConnectionEvent}
    (hnew : p s.nextId { alive := true, events := events })
    (hall : ∀ c, p c (s.conns c)) (c : ObjectId) : p c ((s.startConnection events).conns c) := by
  rcases eq_or_ne c s.nextId with rfl | hne
  · rw [startConnection_self]
    exact hnew
  · rw [startConnection_of_ne s hne]
    exact hall c

theorem doTryCreateNewConnectionForPool_cases (s : Service β F) (started : Bool) :
    (∃ events : List ConnectionEvent, (∀ e ∈ events, ∃ addrvec, e = .resolve addrvec) ∧
      s.doTryCreateNewConnectionForPool cfg started =
        ((s.startConnection events).withPool fun p => { p with
          mainConnectionId := p.mainConnectionId.or (some s.nextId), connectAddrVec := [] },
          true)) ∨
      s.doTryCreateNewConnectionForPool cfg started = (s, false) := by
  unfold doTryCreateNewConnectionForPool
  by_cases hcreate : s.pool.activeConnectionCount.toNat < cfg.poolMaxActiveConnectionCount ∧
      s.pool.pendingConnectionCount = 0 ∧ s.pool.hasAnyMessage ∧
      s.pool.connWaitingq.length < s.pool.msgs.msgorderInnerList.size ∧ s.running ∧ started
  · rw [if_pos hcreate]
    exact .inl ⟨_, by simp, rfl⟩
  · rw [if_neg hcreate]
    exact .inr rfl

theorem notify_alive (h : (s.conns c).alive) (e : ConnectionEvent) : s.notify (some c) e =
      (s.modifyConn c fun con => { con with events := con.events ++ [e] }, true) :=
  if_pos h

theorem notifySent_eq
    (h : ¬ (s.pool.cleanOneShotMessages ∧ flags.oneShotSend)) (id : MessageId) (started : Bool) :
    s.notifySent cfg flags id started = if flags.synchronous then
        if s.pool.mainConnectionActive ∧ (s.notify s.pool.mainConnectionId .newPoolMessage).2 then
          (s.notify s.pool.mainConnectionId .newPoolMessage).1
        else if s.pool.mainConnectionActive then
          ((s.notify s.pool.mainConnectionId .newPoolMessage).1.doTryCreateNewConnectionForPool cfg
            started).1
        else (s.doTryCreateNewConnectionForPool cfg started).1
      else if s.doTryNotifyPoolWaitingConnection.2 then s.doTryNotifyPoolWaitingConnection.1
      else (s.doTryNotifyPoolWaitingConnection.1.doTryCreateNewConnectionForPool cfg
        started).1 := by
  simp only [Service.notifySent, if_neg h]
  cases flags.synchronous
  · simp
  · by_cases hactive : s.pool.mainConnectionActive = true <;> simp [hactive]

end Conn

/-! ## Notices -/

/-- What stays true when a connection gets an event that is `ok`, or the queue of the waiting
    ones is another one. -/
structure KeptByNotices (ok : ConnectionEvent → Prop) (P : Service β F → Prop) : Prop where
  notice : ok .newPoolMessage
  event {s : Service β F} {c : ObjectId} {e : ConnectionEvent} : P s → ok e →
    P (s.modifyConn c fun con => { con with events := con.events ++ [e] })
  waiting {s : Service β F} (q : List ObjectId) : P s →
    P (s.withPool fun p => { p with connWaitingq := q })

/-- What stays true, too, when a connection is started. -/
structure KeptByStarts (ok : ConnectionEvent → Prop) (P : Service β F → Prop) : Prop
    extends KeptByNotices ok P where
  start {s : Service β F} {events : List ConnectionEvent} : P s →
    (∀ e ∈ events, ∃ addrvec, e = .resolve addrvec) → P (s.startConnection events)
  addresses {s : Service β F} (c : Option ObjectId) (addrvec : List Address) : P s →
    P (s.withPool fun p => { p with
      mainConnectionId := p.mainConnectionId.or c, connectAddrVec := addrvec })

section Notices
variable {ok : ConnectionEvent → Prop} {P : Service β F → Prop} {s : Service β F}

namespace KeptByNotices

variable (hk : KeptByNotices ok P) (h : P s)
include hk h

theorem notify (id : Option ObjectId) {e : ConnectionEvent} (he : ok e) : P (s.notify id e).1 := by
  unfold Service.notify
  cases id with
  | none => exact h
  | some c =>
    by_cases hc : (s.conns c).alive
    · simp only [if_pos hc]
      exact hk.event h he
    · simp only [if_neg hc]
      exact h

theorem doTryNotifyPoolWaitingConnection : P s.doTryNotifyPoolWaitingConnection.1 := by
  unfold Service.doTryNotifyPoolWaitingConnection
  induction s.pool.connWaitingq with
  | nil => exact hk.waiting [] h
  | cons c q ih =>
    unfold notifyWaiting
    split_ifs
    · exact hk.waiting q (hk.notify h (some c) hk.notice)
    · exact ih

theorem notifyAllWaiting : P s.notifyAllWaiting := by
  unfold Service.notifyAllWaiting
  refine hk.waiting [] ?_
  generalize s.pool.connWaitingq = q
  induction q generalizing s with
  | nil => exact h
  | cons c q ih => exact ih (hk.notify h (some c) hk.notice)

end KeptByNotices

namespace KeptByStarts

variable (hk : KeptByStarts ok P) (h : P s)
include hk h

theorem doTryCreateNewConnectionForPool (started : Bool) :
    P (s.doTryCreateNewConnectionForPool cfg started).1 := by
  rcases doTryCreateNewConnectionForPool_cases cfg s started with ⟨events, hresolve, heq⟩ | heq
  · rw [heq]
    exact hk.addresses _ _ (hk.start h hresolve)
  · rw [heq]
    exact h

theorem forwardResolveMessage (addrvec : List Address) (started : Bool) :
    P (s.forwardResolveMessage cfg addrvec started) := by
  unfold Service.forwardResolveMessage
  split_ifs
  · exact hk.doTryCreateNewConnectionForPool cfg h started
  · exact hk.start h (by simp)
  · exact h
  · simpa using hk.addresses none addrvec.dropLast h

/-- The main connection may be asked to take back a message. -/
theorem notifySent {id : MessageId}
    (hclean : s.pool.cleanOneShotMessages → flags.oneShotSend → ok (.newConnMessage id))
    (started : Bool) : P (s.notifySent cfg flags id started) := by
  have hite : ∀ {p : Prop} [Decidable p] {r q : Service β F × Bool}, (p → P r.1) → P q.1 →
      P (if p then r else q).1 := by
    intro p _ r q hr hq
    split_ifs with hp
    · exact hr hp
    · exact hq
  unfold Service.notifySent
  extract_lets r₁ r₂ r₃
  have h1 : P r₁.1 := hite (fun hp => hk.notify h _ (hclean hp.1 hp.2)) h
  have h2 : P r₂.1 := hite (fun _ => hk.notify h1 _ hk.notice) h1
  have h3 : P r₃.1 := hite (fun _ => hk.doTryNotifyPoolWaitingConnection h2) h2
  split_ifs
  · exact h3
  · exact hk.doTryCreateNewConnectionForPool cfg h3 started

end KeptByStarts

end Notices

end Service

end SolidFrame
