/-
  SolidFrame formalization — the counters of a connection pool
  (`ConnectionPoolStub` and `Service` in `solid/frame/mpipc/src/mpipcservice.cpp`,
  `Connection::doHandleEventEnterActive` in `mpipcconnection.cpp`).

  A pool counts its pending, active and stopping connections in three 16-bit integers.
  Here are all functions that read or change them, for pools of a client and of a server,
  with the members of the pool and of its connections that they use; what they ask of the
  messages of the pool and of the outside world is an input of each step (`Outside`).
-/
import SolidFrame.Lib.CountUpdate
import SolidFrame.Mpipc.ConnectionPool

namespace SolidFrame

open Nat Option

/-! ## State -/

/-- A connection, as its pool counts it. -/
structure PoolConnection where
  /-- the object exists -/
  alive : Bool := false
  /-- `poolId().unique` -/
  unique : ℕ := 0
  active : Bool := false
  connected : Bool := false
  stopping : Bool := false
  /-- `connectionStopping` has returned `true` -/
  canStop : Bool := false

/-- The members of `ConnectionPoolStub` that the counters depend on. -/
structure CountedPool extends PoolState where
  unique : ℕ := 0
  deriving DecidableEq

/-- What a step asks of the messages of the pool, of its waiting connections, and of the
    world outside. -/
structure Outside where
  running : Bool
  /-- `startObject` succeeds -/
  startsObject : Bool
  hasAnyMessage : Bool
  msgorderSize : ℕ
  connWaitingSize : ℕ
  /-- the event context holds an index -/
  hasCursor : Bool
  /-- the connection stops because its name was not resolved -/
  resolveError : Bool

/-- A pool with its connections, of which the first `nextId` were started. -/
structure PoolCounters where
  pool : CountedPool
  conns : ObjectId → PoolConnection
  nextId : ObjectId

namespace CountedPool
variable (p : CountedPool)

def clear : CountedPool := { unique := p.unique + 1 }

def isCleared : Bool := p = { unique := p.unique }

def countActive : CountedPool := { p with toPoolState := p.toPoolState.countActive }

def countStopping (active : Bool) : CountedPool :=
  { p with toPoolState := p.toPoolState.countStopping active }

def uncountStopping (active : Bool) : CountedPool :=
  { p with toPoolState := p.toPoolState.uncountStopping active }

end CountedPool

namespace PoolCounters
variable (cfg : PoolConfiguration) (o : Outside) (s : PoolCounters)

def withPool (p : CountedPool) : PoolCounters := { s with pool := p }

def modifyConn (c : ObjectId) (f : PoolConnection → PoolConnection) : PoolCounters :=
  { s with conns := Function.update s.conns c (f (s.conns c)) }

/-! ## Connections are started -/

/-- A connection object is started for the pool with the given `unique`, and counted as
    pending. -/
def startConnection (unique : ℕ) : PoolCounters :=
  { conns := Function.update s.conns s.nextId { alive := true, unique := unique }
    nextId := s.nextId + 1
    pool := { s.pool with pendingConnectionCount := s.pool.pendingConnectionCount + 1 } }

def doTryCreateNewConnectionForPool : PoolCounters × Bool :=
  if s.pool.activeConnectionCount.toNat < cfg.poolMaxActiveConnectionCount ∧
      s.pool.pendingConnectionCount = 0 ∧ o.hasAnyMessage ∧ o.connWaitingSize < o.msgorderSize ∧
      o.running ∧ o.startsObject then
    let s₁ := s.startConnection s.pool.unique
    (s₁.withPool { s₁.pool with mainConnectionId := s.pool.mainConnectionId.or (some s.nextId) },
      true)
  else (s, false)

/-- `forwardResolveMessage` for the connection `c`, with an address or without one. -/
def forwardResolveMessage (c : ObjectId) (hasAddress : Bool) : PoolCounters :=
  if hasAddress then
    if s.pool.pendingConnectionCount.toNat < cfg.poolMaxPendingConnectionCount ∧ o.startsObject then
      s.startConnection (s.conns c).unique
    else s
  else (s.doTryCreateNewConnectionForPool cfg o).1

/-- `acceptIncomingConnection`, for a pool that was cleared or is new. -/
def acceptIncomingConnection : PoolCounters :=
  let s₁ := s.startConnection s.pool.unique
  s₁.withPool { s₁.pool with serverSide := true, mainConnectionId := some s.nextId }

/-- `activateConnection`; `false` is an error. -/
def activateConnection (c : ObjectId) : PoolCounters × Bool :=
  if s.pool.unique ≠ (s.conns c).unique then (s, false)
  else if s.pool.mainConnectionStopping then
    (s.withPool { s.pool.countActive with
      mainConnectionId := some c, mainConnectionStopping := false }, true)
  else if cfg.poolMaxActiveConnectionCount < s.pool.activeConnectionCount.toNat + 1 then (s, false)
  else (((s.withPool s.pool.countActive).doTryCreateNewConnectionForPool cfg o).1, true)

def doStop (c : ObjectId) : PoolCounters := s.modifyConn c fun con => { con with stopping := true }

def enterActive (c : ObjectId) : PoolCounters :=
  if (s.conns c).stopping then s
  else
    let r := s.activateConnection cfg o c
    if r.2 then r.1.modifyConn c fun con => { con with active := true } else r.1.doStop c

/-- The part of `pollPoolForUpdates` that another connection than a stopping main one makes
    itself the main one. -/
def pollPoolForUpdates (c : ObjectId) : PoolCounters :=
  if s.pool.unique = (s.conns c).unique ∧ s.pool.mainConnectionStopping ∧
      s.pool.mainConnectionId ≠ some c then
    s.withPool { s.pool with mainConnectionId := some c, mainConnectionStopping := false }
  else s

/-! ## Connections stop -/

def doNonMainConnectionStopping (c : ObjectId) : PoolCounters × Bool :=
  let s₁ := s.withPool (s.pool.countStopping (s.conns c).active)
  if s₁.pool.fastClosing then (s₁, true) else ((s₁.doTryCreateNewConnectionForPool cfg o).1, true)

def doMainConnectionStoppingNotLast : PoolCounters × Bool :=
  (s.withPool { s.pool with mainConnectionStopping := true }, false)

def doMainConnectionStoppingCleanOneShot : PoolCounters × Bool :=
  if o.hasCursor then (s, false)
  else (s.withPool { s.pool with cleanOneShotMessages := false, restart := true }, false)

def doMainConnectionStoppingCleanAll (c : ObjectId) : PoolCounters × Bool :=
  if o.msgorderSize ≠ 0 then (s, false)
  else
    (s.withPool { s.pool.countStopping (s.conns c).active with cleanAllMessages := false }, true)

def doMainConnectionStoppingPrepareCleanOneShot (c : ObjectId) : PoolCounters × Bool :=
  if o.msgorderSize ≠ 0 then (s.withPool { s.pool with cleanOneShotMessages := true }, false)
  else (s.withPool (s.pool.countStopping (s.conns c).active), true)

def doMainConnectionStoppingPrepareCleanAll : PoolCounters × Bool :=
  (s.withPool { s.pool with cleanAllMessages := true, fastClosing := true, closing := true }, false)

def doMainConnectionRestarting (c : ObjectId) : PoolCounters × Bool :=
  let p := { s.pool.countStopping (s.conns c).active with
    mainConnectionId := none
    retryConnectCount := if (s.conns c).connected then 0 else s.pool.retryConnectCount }
  if o.hasAnyMessage then
    let r :=
      if p.retryConnectCount &&& 1 = 0 then (s.withPool p).doTryCreateNewConnectionForPool cfg o
      else (s.withPool p, false)
    let s₁ := r.1.withPool { r.1.pool with retryConnectCount := r.1.pool.retryConnectCount + 1 }
    if r.2 then (s₁, true)
    else
      (s₁.withPool { s₁.pool.uncountStopping (s.conns c).active with mainConnectionId := some c },
        false)
  else (s.withPool p, true)

def connectionStopping (c : ObjectId) : PoolCounters × Bool :=
  if s.pool.unique ≠ (s.conns c).unique then (s, false)
  else if s.pool.mainConnectionId ≠ some c then s.doNonMainConnectionStopping cfg o c
  else if ¬ s.pool.isLastConnection then s.doMainConnectionStoppingNotLast
  else if s.pool.cleanOneShotMessages then s.doMainConnectionStoppingCleanOneShot o
  else if s.pool.cleanAllMessages then s.doMainConnectionStoppingCleanAll o c
  else if s.pool.restart ∧ o.running then s.doMainConnectionRestarting cfg o c
  else if ¬ s.pool.fastClosing ∧ ¬ s.pool.serverSide ∧ o.running ∧ ¬ o.resolveError then
    s.doMainConnectionStoppingPrepareCleanOneShot o c
  else s.doMainConnectionStoppingPrepareCleanAll

/-- `connectionStop`; a pool without connections is cleared. -/
def connectionStop (c : ObjectId) : PoolCounters :=
  if s.pool.unique ≠ (s.conns c).unique then s
  else
    let p := { s.pool with
      stoppingConnectionCount := s.pool.stoppingConnectionCount - 1, restart := false }
    s.withPool (if p.hasNoConnection then p.clear else p)

end PoolCounters

/-! ## Steps -/

/-- The steps that may change the counters or what they depend on. -/
inductive CountAction where
  /-- a message is sent -/
  | create (o : Outside)
  /-- an address was resolved, or none -/
  | resolve (c : ObjectId) (hasAddress : Bool) (o : Outside)
  /-- a socket was accepted, for a pool that is not used -/
  | accept
  | connected (c : ObjectId)
  | enterActive (c : ObjectId) (o : Outside)
  | poll (c : ObjectId)
  /-- a close request -/
  | close (force : Bool)
  /-- `doStop` -/
  | stop (c : ObjectId)
  /-- a call of `connectionStopping` -/
  | stopping (c : ObjectId) (o : Outside)
  /-- `onStopped` -/
  | stopped (c : ObjectId)

namespace PoolCounters
variable (cfg : PoolConfiguration)

/-- A step; `none` when it cannot be made. -/
def exec (s : PoolCounters) : CountAction → Option PoolCounters
  | .create o => some (s.doTryCreateNewConnectionForPool cfg o).1
  | .resolve c hasAddress o =>
    if (s.conns c).alive then some (s.forwardResolveMessage cfg o c hasAddress) else none
  | .accept => if s.pool.isCleared then some s.acceptIncomingConnection else none
  | .connected c =>
    if (s.conns c).alive then some (s.modifyConn c fun con => { con with connected := true })
    else none
  | .enterActive c o => if (s.conns c).alive then some (s.enterActive cfg o c) else none
  | .poll c => if (s.conns c).alive then some (s.pollPoolForUpdates c) else none
  | .close force =>
    some (s.withPool { s.pool with closing := true, fastClosing := s.pool.fastClosing || force })
  | .stop c => if (s.conns c).alive then some (s.doStop c) else none
  | .stopping c o =>
    if (s.conns c).alive ∧ (s.conns c).stopping ∧ ¬ (s.conns c).canStop then
      let r := s.connectionStopping cfg o c
      some (r.1.modifyConn c fun con => { con with canStop := r.2 })
    else none
  | .stopped c =>
    if (s.conns c).alive ∧ (s.conns c).canStop then
      some ((s.connectionStop c).modifyConn c fun con => { con with alive := false })
    else none

def initial : PoolCounters := ⟨{}, fun _ => {}, 0⟩

end PoolCounters

/-! ## Numbers of connections -/

inductive Phase where
  | gone
  | pending
  | active
  | stopping
  deriving DecidableEq

/-- A connection stops when `connectionStopping` has returned `true`. -/
def PoolConnection.phase (con : PoolConnection) : Phase :=
  if con.alive then
    if con.canStop then .stopping else if con.active then .active else .pending
  else .gone

theorem PoolConnection.phase_eq {con : PoolConnection} (ha : con.alive)
    (hc : con.canStop = false) : con.phase = if con.active then .active else .pending := by
  simp [phase, ha, hc]

theorem toNat_sub_one {x : UInt16} (h : 0 < x.toNat) : (x - 1).toNat = x.toNat - 1 := by
  have hle : (1 : UInt16) ≤ x := UInt16.le_iff_toNat_le.2 h
  rw [UInt16.toNat_sub_of_le _ _ hle]
  rfl

theorem toNat_add_one {x : UInt16} (h : x.toNat + 1 < 2 ^ 16) : (x + 1).toNat = x.toNat + 1 := by
  rw [UInt16.toNat_add]
  exact mod_eq_of_lt h

namespace CountedPool
variable {p : CountedPool}

def count (p : CountedPool) : Phase → ℕ
  | .gone => 0
  | .pending => p.pendingConnectionCount.toNat
  | .active => p.activeConnectionCount.toNat
  | .stopping => p.stoppingConnectionCount.toNat

theorem count_countActive (hpos : 0 < p.count .pending) (hroom : p.count .active + 1 < 2 ^ 16)
    (ph : Phase) : p.countActive.count ph + (if Phase.pending = ph then 1 else 0) =
      p.count ph + if Phase.active = ph then 1 else 0 := by
  have hp : p.countActive.count .pending = p.count .pending - 1 := toNat_sub_one hpos
  cases ph with
  | gone => rfl
  | pending =>
    rw [hp]
    exact Nat.sub_add_cancel hpos
  | active => exact toNat_add_one hroom
  | stopping => rfl

theorem count_countStopping {active : Bool}
    (hpos : 0 < p.count (if active then .active else .pending))
    (hroom : p.count .stopping + 1 < 2 ^ 16) (ph : Phase) :
    (p.countStopping active).count ph +
        (if (if active then Phase.active else .pending) = ph then 1 else 0) =
      p.count ph + if Phase.stopping = ph then 1 else 0 := by
  cases active with
  | true =>
    have ha : (p.countStopping true).count .active = p.count .active - 1 := toNat_sub_one hpos
    cases ph with
    | active =>
      rw [ha]
      exact Nat.sub_add_cancel hpos
    | stopping => exact toNat_add_one hroom
    | _ => rfl
  | false =>
    have hp : (p.countStopping false).count .pending = p.count .pending - 1 := toNat_sub_one hpos
    cases ph with
    | pending =>
      rw [hp]
      exact Nat.sub_add_cancel hpos
    | stopping => exact toNat_add_one hroom
    | _ => rfl

/-- The counters are as before, when counting a connection as stopping is taken back. -/
theorem count_uncountStopping {q : CountedPool} (active : Bool)
    (hq : q.pendingConnectionCount = (p.countStopping active).pendingConnectionCount ∧
      q.activeConnectionCount = (p.countStopping active).activeConnectionCount ∧
      q.stoppingConnectionCount = (p.countStopping active).stoppingConnectionCount) :
    (q.uncountStopping active).count = p.count := by
  obtain ⟨hp, ha, hst⟩ := hq
  funext ph
  cases active <;> cases ph <;> simp [count, uncountStopping, PoolState.uncountStopping,
    countStopping, PoolState.countStopping, hp, ha, hst]

end CountedPool

namespace PoolCounters
variable {cfg : PoolConfiguration} {o : Outside} {s s' : PoolCounters} {c : ObjectId}
  {p : CountedPool} {f : PoolConnection → PoolConnection}

def number (s : PoolCounters) (ph : Phase) : ℕ :=
  Nat.count (fun c => (s.conns c).phase = ph) s.nextId

def total (s : PoolCounters) : ℕ :=
  s.pool.pendingConnectionCount.toNat + s.pool.activeConnectionCount.toNat +
    s.pool.stoppingConnectionCount.toNat

/-- The counters are the numbers of connections, and no more connections are active than
    are allowed, and one that replaces a main connection. -/
structure Counted (cfg : PoolConfiguration) (s : PoolCounters) : Prop where
  pending : s.pool.pendingConnectionCount.toNat = s.number .pending
  active : s.pool.activeConnectionCount.toNat = s.number .active
  stopping : s.pool.stoppingConnectionCount.toNat = s.number .stopping
  max : s.pool.activeConnectionCount.toNat ≤ cfg.poolMaxActiveConnectionCount + 1

structure Kept (cfg : PoolConfiguration) (s : PoolCounters) : Prop extends Counted cfg s where
  below : ∀ c, (s.conns c).alive = true → c < s.nextId
  unique : ∀ c, (s.conns c).alive = true → (s.conns c).unique = s.pool.unique
  stops : ∀ c, (s.conns c).canStop = true → (s.conns c).stopping = true
  total : s.total < 2 ^ 16

theorem Counted.count (h : s.Counted cfg) {ph : Phase} (hph : ph ≠ .gone) :
    s.pool.count ph = s.number ph := by
  cases ph with
  | gone => exact absurd rfl hph
  | pending => exact h.pending
  | active => exact h.active
  | stopping => exact h.stopping

theorem total_eq (s : PoolCounters) :
    s.total = s.pool.count .pending + s.pool.count .active + s.pool.count .stopping := rfl

theorem modifyConn_self (s : PoolCounters) (c : ObjectId) (f : PoolConnection → PoolConnection) :
    (s.modifyConn c f).conns c = f (s.conns c) := Function.update_self _ _ _

variable {a : CountAction} {q : ObjectId → PoolConnection → Prop}

theorem forall_modifyConn (hc : q c (f (s.conns c)))
    (hother : ∀ c', q c' (s.conns c')) (c' : ObjectId) : q c' ((s.modifyConn c f).conns c') := by
  rcases eq_or_ne c' c with rfl | hne
  · rw [modifyConn_self]
    exact hc
  · simpa [modifyConn, hne] using hother c'

theorem forall_startConnection {unique : ℕ}
    (hnew : q s.nextId { alive := true, unique := unique }) (hold : ∀ c, q c (s.conns c))
    (c : ObjectId) : q c ((s.startConnection unique).conns c) := by
  rcases eq_or_ne c s.nextId with rfl | hne
  · simpa [startConnection] using hnew
  · simpa [startConnection, hne] using hold c

theorem number_modifyConn (hc : c < s.nextId) (f : PoolConnection → PoolConnection) (ph : Phase) :
    (s.modifyConn c f).number ph + (if (s.conns c).phase = ph then 1 else 0) =
      s.number ph + if (f (s.conns c)).phase = ph then 1 else 0 :=
  count_update (p := fun con : PoolConnection => con.phase = ph) hc _

theorem number_startConnection (unique : ℕ) (ph : Phase) :
    (s.startConnection unique).number ph = s.number ph + if Phase.pending = ph then 1 else 0 :=
  count_push (p := fun con : PoolConnection => con.phase = ph) (f := s.conns)
    { alive := true, unique := unique }

theorem Kept.count_pos (h : s.Kept cfg) (hc : (s.conns c).alive)
    (hph : (s.conns c).phase ≠ .gone) : 0 < s.pool.count (s.conns c).phase := by
  rw [h.count hph]
  exact SolidFrame.count_pos (p := fun con : PoolConnection => con.phase = (s.conns c).phase)
    (h.below c hc) rfl

/-! ## Steps that keep the counters right -/

theorem Kept.withPool (h : s.Kept cfg) (hp : p.count = s.pool.count)
    (hu : p.unique = s.pool.unique) : (s.withPool p).Kept cfg := by
  refine ⟨⟨?_, ?_, ?_, ?_⟩, h.below, fun c hc => (h.unique c hc).trans hu.symm, h.stops, ?_⟩
  · exact (congrFun hp .pending).trans h.pending
  · exact (congrFun hp .active).trans h.active
  · exact (congrFun hp .stopping).trans h.stopping
  · exact (congrFun hp .active).trans_le h.max
  · show p.count .pending + p.count .active + p.count .stopping < 2 ^ 16
    rw [hp]
    exact h.total

theorem Kept.move (h : s.Kept cfg) (hc : (s.conns c).alive) (hold : (s.conns c).phase ≠ .gone)
    (hp : ∀ ph, ph ≠ .gone → p.count ph + (if (s.conns c).phase = ph then 1 else 0) =
      s.pool.count ph + if (f (s.conns c)).phase = ph then 1 else 0)
    (hmax : p.count .active ≤ cfg.poolMaxActiveConnectionCount + 1)
    (hu : p.unique = s.pool.unique) (hfu : (f (s.conns c)).unique = (s.conns c).unique)
    (hstops : (f (s.conns c)).canStop → (f (s.conns c)).stopping) :
    ((s.withPool p).modifyConn c f).Kept cfg ∧ (s.withPool p).total ≤ s.total := by
  have hnum : ∀ ph, ph ≠ .gone → p.count ph = (s.modifyConn c f).number ph := by
    intro ph hph
    have hcount := h.count hph
    have hnumber := number_modifyConn (h.below c hc) f ph
    have hmove := hp ph hph
    omega
  -- the connection was counted once, and is not counted more often now
  have hle : (s.withPool p).total ≤ s.total := by
    have hpending := hp .pending (by decide)
    have hactive := hp .active (by decide)
    have hstopping := hp .stopping (by decide)
    rw [total_eq, total_eq]
    show p.count .pending + p.count .active + p.count .stopping ≤ _
    generalize (s.conns c).phase = old at *
    generalize (f (s.conns c)).phase = new at *
    cases old <;> cases new <;> simp at hold hpending hactive hstopping <;> omega
  refine ⟨⟨⟨?_, ?_, ?_, hmax⟩, ?_, ?_, ?_, lt_of_le_of_lt hle h.total⟩, hle⟩
  · exact hnum .pending (by decide)
  · exact hnum .active (by decide)
  · exact hnum .stopping (by decide)
  · exact forall_modifyConn (s := s) (q := fun c' con => con.alive → c' < s.nextId)
      (fun _ => h.below c hc) h.below
  · refine forall_modifyConn (s := s) (q := fun _ con => con.alive → con.unique = p.unique)
      (fun _ => ?_) fun c' hc' => (h.unique c' hc').trans hu.symm
    rw [hfu, hu]
    exact h.unique c hc
  · exact forall_modifyConn (s := s) (q := fun _ con => con.canStop → con.stopping) hstops h.stops

theorem PoolConnection.phase_ne_gone {con : PoolConnection} (h : con.alive) :
    con.phase ≠ .gone := by
  unfold PoolConnection.phase
  rw [if_pos h]
  split_ifs <;> decide

theorem Kept.modifyConn (h : s.Kept cfg) (hc : (s.conns c).alive)
    (hphase : (f (s.conns c)).phase = (s.conns c).phase)
    (hfu : (f (s.conns c)).unique = (s.conns c).unique)
    (hstops : (f (s.conns c)).canStop → (f (s.conns c)).stopping) :
    (s.modifyConn c f).Kept cfg :=
  (h.move (p := s.pool) hc (PoolConnection.phase_ne_gone hc) (fun _ _ => by rw [hphase]) h.max rfl
    hfu hstops).1

theorem Kept.startConnection (h : s.Kept cfg) (hroom : s.total + 1 < 2 ^ 16)
    (hp : p.count = (s.startConnection s.pool.unique).pool.count) (hu : p.unique = s.pool.unique) :
    ((s.startConnection s.pool.unique).withPool p).Kept cfg := by
  have hsum := s.total_eq
  have hadd : p.count .pending = s.pool.count .pending + 1 := by
    rw [hp]
    refine toNat_add_one ?_
    show s.pool.count .pending + 1 < 2 ^ 16
    omega
  have hactive : p.count .active = s.pool.count .active := congrFun hp .active
  have hstopping : p.count .stopping = s.pool.count .stopping := congrFun hp .stopping
  have hnum := number_startConnection (s := s) s.pool.unique
  refine ⟨⟨?_, ?_, ?_, hactive.trans_le h.max⟩, ?_, ?_, ?_, ?_⟩
  · refine hadd.trans ?_
    rw [h.count (by decide)]
    exact (hnum .pending).symm
  · exact (hactive.trans h.active).trans (hnum .active).symm
  · exact (hstopping.trans h.stopping).trans (hnum .stopping).symm
  · exact forall_startConnection (q := fun c' con => con.alive → c' < s.nextId + 1)
      (fun _ => lt_succ_self _) fun c' hc' => lt_succ_of_lt (h.below c' hc')
  · exact forall_startConnection (q := fun _ con => con.alive → con.unique = p.unique)
      (fun _ => hu.symm) fun c' hc' => (h.unique c' hc').trans hu.symm
  · exact forall_startConnection (q := fun _ con => con.canStop → con.stopping) (by simp) h.stops
  · show p.count .pending + p.count .active + p.count .stopping < 2 ^ 16
    omega

theorem doTryCreateNewConnectionForPool_cases (cfg : PoolConfiguration) (o : Outside)
    (s : PoolCounters) :
    s.doTryCreateNewConnectionForPool cfg o =
        ((s.startConnection s.pool.unique).withPool { (s.startConnection s.pool.unique).pool with
          mainConnectionId := s.pool.mainConnectionId.or (some s.nextId) }, true) ∨
      s.doTryCreateNewConnectionForPool cfg o = (s, false) := by
  unfold doTryCreateNewConnectionForPool
  split_ifs
  · exact .inl rfl
  · exact .inr rfl

theorem Kept.create (h : s.Kept cfg) (hroom : s.total + 1 < 2 ^ 16) (o : Outside) :
    (s.doTryCreateNewConnectionForPool cfg o).1.Kept cfg := by
  rcases doTryCreateNewConnectionForPool_cases cfg o s with heq | heq
  · rw [heq]
    exact h.startConnection hroom rfl rfl
  · rw [heq]
    exact h

theorem create_modifyConn (hc : c ≠ s.nextId) :
    (s.doTryCreateNewConnectionForPool cfg o).1.modifyConn c f =
      ((s.modifyConn c f).doTryCreateNewConnectionForPool cfg o).1 := by
  have hpool : (s.modifyConn c f).pool = s.pool := rfl
  unfold doTryCreateNewConnectionForPool
  rw [hpool]
  split_ifs
  · simp only [PoolCounters.modifyConn, PoolCounters.withPool, PoolCounters.startConnection,
      Function.update_of_ne hc, Function.update_comm hc]
  · rfl

theorem Kept.create_modifyConn (h : (s.modifyConn c f).Kept cfg) (hc : c ≠ s.nextId)
    (hroom : s.total + 1 < 2 ^ 16) (o : Outside) :
    ((s.doTryCreateNewConnectionForPool cfg o).1.modifyConn c f).Kept cfg := by
  rw [PoolCounters.create_modifyConn hc]
  exact h.create hroom o

/-! ### Connections are activated -/

theorem Kept.canStop (h : s.Kept cfg) (hstop : (s.conns c).stopping = false) :
    (s.conns c).canStop = false := by
  by_contra hcan
  rw [h.stops c (by simpa using hcan)] at hstop
  cases hstop

theorem Kept.countActive (h : s.Kept cfg) (hc : (s.conns c).alive)
    (hstop : (s.conns c).stopping = false) (hact : (s.conns c).active = false)
    (hmax : s.pool.activeConnectionCount.toNat ≤ cfg.poolMaxActiveConnectionCount)
    (hp : p.count = s.pool.countActive.count) (hu : p.unique = s.pool.unique) :
    ((s.withPool p).modifyConn c fun con => { con with active := true }).Kept cfg ∧
      (s.withPool p).total ≤ s.total := by
  have hold : (s.conns c).phase = .pending := by
    rw [PoolConnection.phase_eq hc (h.canStop hstop), hact]
    rfl
  have hnew : ({ s.conns c with active := true } : PoolConnection).phase = .active :=
    PoolConnection.phase_eq hc (h.canStop hstop)
  have hpos := h.count_pos hc (PoolConnection.phase_ne_gone hc)
  rw [hold] at hpos
  have hroom : s.pool.count .active + 1 < 2 ^ 16 := by
    have htotal := h.total
    rw [total_eq] at htotal
    omega
  refine h.move hc (PoolConnection.phase_ne_gone hc) (fun ph _ => ?_) ?_ hu rfl (h.stops c)
  · rw [hold, hnew, hp]
    exact CountedPool.count_countActive hpos hroom ph
  · rw [hp]
    exact (toNat_add_one hroom).trans_le (succ_le_succ hmax)

theorem activateConnection_refused (h : (s.activateConnection cfg o c).2 = false) :
    s.activateConnection cfg o c = (s, false) := by
  unfold activateConnection at h ⊢
  split_ifs at h ⊢ <;> rfl

theorem Kept.enterActive (h : s.Kept cfg) (hroom : s.total + 1 < 2 ^ 16) (hc : (s.conns c).alive)
    (hok : (s.conns c).stopping ∨ (s.activateConnection cfg o c).2 = false ∨
      (s.conns c).active = false ∧ (s.pool.mainConnectionStopping →
        s.pool.activeConnectionCount.toNat ≤ cfg.poolMaxActiveConnectionCount)) :
    (s.enterActive cfg o c).Kept cfg := by
  have hstopped : (s.doStop c).Kept cfg := h.modifyConn hc rfl rfl fun _ => rfl
  unfold PoolCounters.enterActive
  by_cases hstop : (s.conns c).stopping
  · rw [if_pos hstop]
    exact h
  rw [if_neg hstop]
  by_cases hrefused : (s.activateConnection cfg o c).2 = false
  · rw [activateConnection_refused hrefused]
    exact hstopped
  obtain ⟨hact, hmain⟩ := (hok.resolve_left hstop).resolve_left hrefused
  have hstop' : (s.conns c).stopping = false := by simpa using hstop
  simp only [activateConnection]
  rw [if_neg (not_not.2 (h.unique c hc).symm)]
  by_cases hms : s.pool.mainConnectionStopping
  · rw [if_pos hms]
    exact (h.countActive (p := { s.pool.countActive with
      mainConnectionId := some c, mainConnectionStopping := false }) hc hstop' hact (hmain hms) rfl
      rfl).1
  rw [if_neg hms]
  by_cases hmax : cfg.poolMaxActiveConnectionCount < s.pool.activeConnectionCount.toNat + 1
  · rw [if_pos hmax]
    exact hstopped
  · rw [if_neg hmax]
    obtain ⟨hkept, hle⟩ := h.countActive hc hstop' hact (by omega) rfl rfl
    exact hkept.create_modifyConn (h.below c hc).ne (by omega) o

/-! ### Connections stop -/

def setCanStop (con : PoolConnection) : PoolConnection := { con with canStop := true }

theorem Kept.countStopping (h : s.Kept cfg) (hc : (s.conns c).alive)
    (hstop : (s.conns c).stopping) (hcan : (s.conns c).canStop = false)
    (hp : p.count = (s.pool.countStopping (s.conns c).active).count)
    (hu : p.unique = s.pool.unique) :
    ((s.withPool p).modifyConn c setCanStop).Kept cfg ∧ (s.withPool p).total ≤ s.total := by
  have hold := PoolConnection.phase_eq hc hcan
  have hnew : (setCanStop (s.conns c)).phase = .stopping := by
    simp [PoolConnection.phase, setCanStop, hc]
  have hpos := h.count_pos hc (PoolConnection.phase_ne_gone hc)
  rw [hold] at hpos
  have hroom : s.pool.count .stopping + 1 < 2 ^ 16 := by
    have htotal := h.total
    rw [total_eq] at htotal
    cases hact : (s.conns c).active <;> simp [hact] at hpos <;> omega
  have hmove := CountedPool.count_countStopping hpos hroom
  refine h.move hc (PoolConnection.phase_ne_gone hc) (fun ph _ => ?_) ?_ hu rfl fun _ => hstop
  · rw [hold, hnew, hp]
    exact hmove ph
  · have hactive := hmove .active
    have hmax : s.pool.count .active ≤ _ := h.max
    rw [hp]
    simp at hactive
    omega

/-- What is known after a call of `connectionStopping`. -/
abbrev StopsWell (cfg : PoolConfiguration) (c : ObjectId) (r : PoolCounters × Bool) : Prop :=
  (r.1.modifyConn c fun con => { con with canStop := r.2 }).Kept cfg

section Stopping
variable (h : s.Kept cfg) (hc : (s.conns c).alive = true) (hcan : (s.conns c).canStop = false)
  (hstop : (s.conns c).stopping = true)
include h hc hcan

theorem StopsWell.stay (hp : p.count = s.pool.count) (hu : p.unique = s.pool.unique) :
    StopsWell cfg c (s.withPool p, false) := by
  refine (h.withPool hp hu).modifyConn hc ?_ rfl fun hcontra => by cases hcontra
  show ({ s.conns c with canStop := false } : PoolConnection).phase = (s.conns c).phase
  simp [PoolConnection.phase, hcan]

include hstop

theorem StopsWell.doNonMainConnectionStopping (hroom : s.total + 1 < 2 ^ 16) (o : Outside) :
    StopsWell cfg c (s.doNonMainConnectionStopping cfg o c) := by
  obtain ⟨hkept, hle⟩ := h.countStopping hc hstop hcan rfl rfl
  unfold PoolCounters.doNonMainConnectionStopping
  dsimp only
  split_ifs
  · exact hkept
  · exact hkept.create_modifyConn (h.below c hc).ne (by omega) o

theorem StopsWell.doMainConnectionStoppingCleanAll (o : Outside) :
    StopsWell cfg c (s.doMainConnectionStoppingCleanAll o c) := by
  unfold PoolCounters.doMainConnectionStoppingCleanAll
  split_ifs
  · exact StopsWell.stay h hc hcan rfl rfl
  · exact (h.countStopping (p := { s.pool.countStopping (s.conns c).active with
      cleanAllMessages := false }) hc hstop hcan rfl rfl).1

theorem StopsWell.doMainConnectionStoppingPrepareCleanOneShot (o : Outside) :
    StopsWell cfg c (s.doMainConnectionStoppingPrepareCleanOneShot o c) := by
  unfold PoolCounters.doMainConnectionStoppingPrepareCleanOneShot
  split_ifs
  · exact StopsWell.stay h hc hcan rfl rfl
  · exact (h.countStopping hc hstop hcan rfl rfl).1

theorem StopsWell.doMainConnectionRestarting (hroom : s.total + 1 < 2 ^ 16) (o : Outside) :
    StopsWell cfg c (s.doMainConnectionRestarting cfg o c) := by
  set p : CountedPool := { s.pool.countStopping (s.conns c).active with
    mainConnectionId := none
    retryConnectCount := if (s.conns c).connected then 0 else s.pool.retryConnectCount } with hpool
  obtain ⟨hkept, hle⟩ := h.countStopping (p := p) hc hstop hcan rfl rfl
  unfold PoolCounters.doMainConnectionRestarting
  simp only [← hpool]
  by_cases hany : o.hasAnyMessage
  · rw [if_pos hany]
    set r := if p.retryConnectCount &&& 1 = 0 then
      (s.withPool p).doTryCreateNewConnectionForPool cfg o else (s.withPool p, false) with hr
    have hcases : r = (s.withPool p, false) ∨
        r.2 ∧ r = (s.withPool p).doTryCreateNewConnectionForPool cfg o := by
      rw [hr]
      split_ifs
      · rcases doTryCreateNewConnectionForPool_cases cfg o (s.withPool p) with heq | heq
        · exact .inr ⟨by rw [heq], rfl⟩
        · exact .inl heq
      · exact .inl rfl
    rcases hcases with hold | ⟨hnew, hcreate⟩
    · -- no connection is started: the counters are as before
      rw [hold, if_neg Bool.false_ne_true]
      have hcount := CountedPool.count_uncountStopping (p := s.pool)
        (q := { p with retryConnectCount := p.retryConnectCount + 1 }) (s.conns c).active
        ⟨rfl, rfl, rfl⟩
      have hstay : StopsWell cfg c (s.withPool
          { ({ p with retryConnectCount := p.retryConnectCount + 1 } : CountedPool).uncountStopping
            (s.conns c).active with mainConnectionId := some c }, false) :=
        StopsWell.stay h hc hcan hcount rfl
      exact hstay
    · rw [if_pos hnew]
      have hnext : (r.1.modifyConn c setCanStop).Kept cfg := by
        rw [hcreate]
        exact hkept.create_modifyConn (h.below c hc).ne (by omega) o
      exact hnext.withPool rfl rfl
  · rw [if_neg hany]
    exact hkept

/-- **A call of `connectionStopping`** keeps the counters right. -/
theorem StopsWell.connectionStopping (hroom : s.total + 1 < 2 ^ 16) (o : Outside) :
    StopsWell cfg c (s.connectionStopping cfg o c) := by
  unfold PoolCounters.connectionStopping
  rw [if_neg (not_not.2 (h.unique c hc).symm)]
  by_cases hmain : s.pool.mainConnectionId ≠ some c
  · rw [if_pos hmain]
    exact StopsWell.doNonMainConnectionStopping h hc hcan hstop hroom o
  rw [if_neg hmain]
  by_cases hlast : ¬ s.pool.isLastConnection
  · rw [if_pos hlast]
    exact StopsWell.stay h hc hcan rfl rfl
  rw [if_neg hlast]
  split_ifs
  · unfold PoolCounters.doMainConnectionStoppingCleanOneShot
    split_ifs
    · exact StopsWell.stay h hc hcan rfl rfl
    · exact StopsWell.stay h hc hcan rfl rfl
  · exact StopsWell.doMainConnectionStoppingCleanAll h hc hcan hstop o
  · exact StopsWell.doMainConnectionRestarting h hc hcan hstop hroom o
  · exact StopsWell.doMainConnectionStoppingPrepareCleanOneShot h hc hcan hstop o
  · exact StopsWell.stay h hc hcan rfl rfl

end Stopping

theorem Kept.hasNoConnection_iff (h : s.Kept cfg) :
    s.pool.hasNoConnection ↔ ∀ c, (s.conns c).alive = false := by
  have hzero : ∀ x : UInt16, (x == 0) ↔ x.toNat = 0 := by
    intro x
    rw [beq_iff_eq, ← UInt16.toNat_inj]
    rfl
  unfold PoolState.hasNoConnection
  rw [Bool.and_eq_true, Bool.and_eq_true, hzero, hzero, hzero, h.pending, h.active, h.stopping]
  have hnum := fun ph => count_eq_zero (p := fun con : PoolConnection => con.phase = ph)
    (f := s.conns) (n := s.nextId)
  constructor
  · rintro ⟨⟨hp, ha⟩, hst⟩ c
    by_contra hc
    have hc : (s.conns c).alive := by simpa using hc
    have hlt := h.below c hc
    cases hph : (s.conns c).phase with
    | gone =>
      simp only [PoolConnection.phase, hc, if_true] at hph
      split_ifs at hph
    | pending => exact (hnum .pending).1 hp c hlt hph
    | active => exact (hnum .active).1 ha c hlt hph
    | stopping => exact (hnum .stopping).1 hst c hlt hph
  · intro hall
    have hgone : ∀ c, (s.conns c).phase = .gone := fun c => by simp [PoolConnection.phase, hall c]
    refine ⟨⟨(hnum .pending).2 fun c _ => ?_, (hnum .active).2 fun c _ => ?_⟩,
      (hnum .stopping).2 fun c _ => ?_⟩
    all_goals
      rw [hgone c]
      decide

theorem Kept.uncount (h : s.Kept cfg) (hc : (s.conns c).alive) (hcan : (s.conns c).canStop) :
    ((s.withPool { s.pool with
        stoppingConnectionCount := s.pool.stoppingConnectionCount - 1
        restart := false }).modifyConn c fun con => { con with alive := false }).Kept cfg := by
  have hold : (s.conns c).phase = .stopping := by simp [PoolConnection.phase, hc, hcan]
  have hnew : ({ s.conns c with alive := false } : PoolConnection).phase = .gone := rfl
  have hpos := h.count_pos hc (PoolConnection.phase_ne_gone hc)
  rw [hold] at hpos
  refine (h.move (f := fun con => { con with alive := false }) (p := { s.pool with
    stoppingConnectionCount := s.pool.stoppingConnectionCount - 1, restart := false }) hc
    (PoolConnection.phase_ne_gone hc) (fun ph hph => ?_) h.max rfl rfl (h.stops c)).1
  rw [hold, hnew, if_neg hph.symm]
  cases ph with
  | stopping => exact (congrArg (· + 1) (toNat_sub_one hpos)).trans (Nat.sub_add_cancel hpos)
  | _ => rfl

theorem Kept.clear (h : s.Kept cfg) (hgone : ∀ c, (s.conns c).alive = false) :
    (s.withPool s.pool.clear).Kept cfg := by
  have hnum : ∀ ph, ph ≠ .gone → s.number ph = 0 := by
    intro ph hph
    refine (count_eq_zero (p := fun con : PoolConnection => con.phase = ph)).2 fun c _ heq => ?_
    simp only [PoolConnection.phase, hgone c, Bool.false_eq_true, if_false] at heq
    exact hph heq.symm
  refine ⟨⟨?_, ?_, ?_, zero_le _⟩, h.below, fun c hc => ?_, h.stops, ?_⟩
  · exact (hnum .pending (by decide)).symm
  · exact (hnum .active (by decide)).symm
  · exact (hnum .stopping (by decide)).symm
  · have hc : (s.conns c).alive := hc
    rw [hgone c] at hc
    cases hc
  · show 0 + 0 + 0 < 2 ^ 16
    decide

/-- **`connectionStop`** clears the pool just when the last connection stops, and keeps the
    counters right. -/
theorem Kept.connectionStop (h : s.Kept cfg) (hc : (s.conns c).alive) (hcan : (s.conns c).canStop) :
    ((s.connectionStop c).modifyConn c fun con => { con with alive := false }).Kept cfg ∧
      ((s.connectionStop c).pool = s.pool.clear ↔
        ∀ c', (((s.connectionStop c).modifyConn c fun con => { con with alive := false }).conns
          c').alive = false) := by
  set q : CountedPool := { s.pool with
    stoppingConnectionCount := s.pool.stoppingConnectionCount - 1, restart := false } with hq
  have hkept := h.uncount hc hcan
  rw [← hq] at hkept
  have hstop : s.connectionStop c = s.withPool (if q.hasNoConnection then q.clear else q) := by
    unfold PoolCounters.connectionStop
    rw [if_neg (not_not.2 (h.unique c hc).symm)]
  have hiff := hkept.hasNoConnection_iff
  rw [hstop]
  by_cases hnone : q.hasNoConnection
  · rw [if_pos hnone]
    have hgone := hiff.1 hnone
    exact ⟨hkept.clear hgone, fun _ => hgone, fun _ => rfl⟩
  · rw [if_neg hnone]
    refine ⟨hkept, fun heq => ?_, fun hgone => absurd (hiff.2 hgone) hnone⟩
    -- `clear()` changes `unique`
    have hu : s.pool.unique = s.pool.unique + 1 := congrArg CountedPool.unique heq
    omega

/-! ## Runs -/

/-- The condition for a step, on the state before it: there is room for one more connection,
    and a connection that `activateConnection` does not refuse is activated once, when a main
    connection that was replaced before is not counted as active any more. -/
def countOk (cfg : PoolConfiguration) (s : PoolCounters) : CountAction → Bool
  | .enterActive c o =>
    decide (s.total + 1 < 2 ^ 16) && ((s.conns c).stopping || !(s.activateConnection cfg o c).2 ||
      !(s.conns c).active && (!s.pool.mainConnectionStopping ||
        decide (s.pool.activeConnectionCount.toNat ≤ cfg.poolMaxActiveConnectionCount)))
  | _ => decide (s.total + 1 < 2 ^ 16)

/-- The runs of a pool of a client or of a server, as long as it is used, and used again. -/
inductive CountRun (cfg : PoolConfiguration) (ok : PoolCounters → CountAction → Bool) :
    PoolCounters → Prop where
  | start : CountRun cfg ok initial
  | step {s s' : PoolCounters} {a} :
      CountRun cfg ok s →
      ok s a = true →
      s.exec cfg a = some s' →
      CountRun cfg ok s'

theorem room_of_countOk (h : s.countOk cfg a) : s.total + 1 < 2 ^ 16 := by
  cases a with
  | enterActive c o =>
    rw [countOk, Bool.and_eq_true, decide_eq_true_eq] at h
    exact h.1
  | _ => exact of_decide_eq_true h

/-- **Every step keeps the counters right.** -/
theorem Kept.exec (h : s.Kept cfg) (hok : s.countOk cfg a)
    (hexec : s.exec cfg a = some s') : s'.Kept cfg := by
  have hroom := room_of_countOk hok
  cases a with
  | create o =>
    cases hexec
    exact h.create hroom o
  | resolve c hasAddress o =>
    obtain ⟨hc, ⟨⟩⟩ := ite_none_right_eq_some.1 hexec
    unfold PoolCounters.forwardResolveMessage
    rw [h.unique c hc]
    split_ifs
    · exact h.startConnection (p := (s.startConnection s.pool.unique).pool) hroom rfl rfl
    · exact h
    · exact h.create hroom o
  | accept =>
    obtain ⟨-, ⟨⟩⟩ := ite_none_right_eq_some.1 hexec
    exact h.startConnection hroom rfl rfl
  | connected c =>
    obtain ⟨hc, ⟨⟩⟩ := ite_none_right_eq_some.1 hexec
    exact h.modifyConn hc rfl rfl (h.stops c)
  | enterActive c o =>
    obtain ⟨hc, ⟨⟩⟩ := ite_none_right_eq_some.1 hexec
    have hcond := by simpa [countOk] using hok
    rcases hcond.2 with (hstop | hrefused) | ⟨hfirst, hmain⟩
    · exact h.enterActive hroom hc (.inl hstop)
    · exact h.enterActive hroom hc (.inr (.inl hrefused))
    · exact h.enterActive hroom hc (.inr (.inr ⟨hfirst, fun h => hmain.resolve_left (by simp [h])⟩))
  | poll c =>
    obtain ⟨-, ⟨⟩⟩ := ite_none_right_eq_some.1 hexec
    unfold PoolCounters.pollPoolForUpdates
    split_ifs
    · exact h.withPool rfl rfl
    · exact h
  | close force =>
    cases hexec
    exact h.withPool rfl rfl
  | stop c =>
    obtain ⟨hc, ⟨⟩⟩ := ite_none_right_eq_some.1 hexec
    exact h.modifyConn hc rfl rfl fun _ => rfl
  | stopping c o =>
    obtain ⟨hc, ⟨⟩⟩ := ite_none_right_eq_some.1 hexec
    exact StopsWell.connectionStopping h hc.1 (by simpa using hc.2.2) hc.2.1 hroom o
  | stopped c =>
    obtain ⟨hc, ⟨⟩⟩ := ite_none_right_eq_some.1 hexec
    exact (h.connectionStop hc.1 hc.2).1

theorem kept_initial (cfg : PoolConfiguration) : initial.Kept cfg :=
  { pending := rfl
    active := rfl
    stopping := rfl
    max := zero_le _
    below := fun _ hc => by cases hc
    unique := fun _ hc => by cases hc
    stops := fun _ hc => by cases hc
    total := by decide }

theorem CountRun.kept (h : CountRun cfg (countOk cfg) s) : s.Kept cfg := by
  induction h with
  | start => exact kept_initial cfg
  | step _ hok hexec ih => exact ih.exec hok hexec

@[simp]
theorem unique_create (s : PoolCounters) (o : Outside) :
    (s.doTryCreateNewConnectionForPool cfg o).1.pool.unique = s.pool.unique := by
  unfold doTryCreateNewConnectionForPool
  split_ifs <;> rfl

theorem unique_connectionStopping (s : PoolCounters) (o : Outside) (c : ObjectId) :
    (s.connectionStopping cfg o c).1.pool.unique = s.pool.unique := by
  unfold connectionStopping
  split_ifs
  · rfl
  · dsimp only [doNonMainConnectionStopping]
    split_ifs <;> simp [withPool, CountedPool.countStopping]
  · unfold doMainConnectionStoppingCleanOneShot
    split_ifs <;> rfl
  · unfold doMainConnectionStoppingCleanAll
    split_ifs <;> simp [withPool, CountedPool.countStopping]
  · dsimp only [doMainConnectionRestarting]
    split_ifs <;> simp [withPool, CountedPool.countStopping, CountedPool.uncountStopping]
  · unfold doMainConnectionStoppingPrepareCleanOneShot
    split_ifs <;> simp [withPool, CountedPool.countStopping]
  · rfl
  · rfl

theorem unique_enterActive (s : PoolCounters) (o : Outside) (c : ObjectId) :
    (s.enterActive cfg o c).pool.unique = s.pool.unique := by
  have hactivate : (s.activateConnection cfg o c).1.pool.unique = s.pool.unique := by
    unfold activateConnection
    split_ifs
    · rfl
    · rfl
    · rfl
    · simp [withPool, CountedPool.countActive]
  dsimp only [enterActive]
  split_ifs
  · rfl
  · exact hactivate
  · exact hactivate

/-- The pool is cleared in the step in which its last connection stops, and in no other. -/
theorem Kept.exec_clear (h : s.Kept cfg) (hexec : s.exec cfg a = some s') :
    s'.pool = s.pool.clear ↔ (∃ c, a = .stopped c) ∧ ∀ c, (s'.conns c).alive = false := by
  have hsame : s'.pool.unique = s.pool.unique → (∀ c, a ≠ .stopped c) →
      (s'.pool = s.pool.clear ↔ (∃ c, a = .stopped c) ∧ ∀ c, (s'.conns c).alive = false) := by
    intro hunique hne
    constructor
    · intro hclear
      have hu : s'.pool.unique = s.pool.unique + 1 := congrArg CountedPool.unique hclear
      omega
    · rintro ⟨⟨c, rfl⟩, -⟩
      exact absurd rfl (hne c)
  cases a with
  | stopped c =>
    obtain ⟨hc, ⟨⟩⟩ := ite_none_right_eq_some.1 hexec
    have hiff := (h.connectionStop hc.1 hc.2).2
    exact ⟨fun heq => ⟨⟨c, rfl⟩, hiff.1 heq⟩, fun hgone => hiff.2 hgone.2⟩
  | create o =>
    cases hexec
    exact hsame (unique_create s o) fun _ => nofun
  | close force =>
    cases hexec
    exact hsame rfl fun _ => nofun
  | resolve c hasAddress o =>
    obtain ⟨-, ⟨⟩⟩ := ite_none_right_eq_some.1 hexec
    refine hsame ?_ fun _ => nofun
    unfold forwardResolveMessage
    split_ifs
    · rfl
    · rfl
    · exact unique_create s o
  | enterActive c o =>
    obtain ⟨-, ⟨⟩⟩ := ite_none_right_eq_some.1 hexec
    exact hsame (unique_enterActive s o c) fun _ => nofun
  | poll c =>
    obtain ⟨-, ⟨⟩⟩ := ite_none_right_eq_some.1 hexec
    refine hsame ?_ fun _ => nofun
    unfold pollPoolForUpdates
    split_ifs <;> rfl
  | stopping c o =>
    obtain ⟨-, ⟨⟩⟩ := ite_none_right_eq_some.1 hexec
    exact hsame (unique_connectionStopping s o c) fun _ => nofun
  | _ =>
    obtain ⟨-, ⟨⟩⟩ := ite_none_right_eq_some.1 hexec
    exact hsame rfl fun _ => nofun

/-- **Connection counters.**  In every state of a run whose steps meet their conditions, the
    counters are the numbers of connections, no more connections are active than are allowed,
    and one; and the pool is cleared just when its last connection stops. -/
theorem CountRun.counters (h : CountRun cfg (countOk cfg) s) :
    s.Counted cfg ∧ ∀ a s', s.exec cfg a = some s' →
      (s'.pool = s.pool.clear ↔ (∃ c, a = .stopped c) ∧ ∀ c, (s'.conns c).alive = false) :=
  ⟨h.kept.toCounted, fun _ _ hexec => h.kept.exec_clear hexec⟩

/-- A running service, with messages that wait for a connection, and without. -/
def busy : Outside := ⟨true, true, true, 1, 0, false, false⟩

def idle : Outside := ⟨true, true, false, 0, 0, false, false⟩

/-- A configuration with the given limits of active and pending connections. -/
def limits (active pending : ℕ) : PoolConfiguration := ⟨⟨1, 1, 1, .ok⟩, active, pending, 1⟩

/-- A second connection replaces the main one, which stops; it is asked to enter the active
    state again, which is refused, and stops as the last one of the pool. -/
theorem counters_replaced :
    (∃ s, CountRun (limits 1 2) (countOk (limits 1 2)) s ∧ s.Counted (limits 1 2) ∧
      s.number .active = 2) ∧
    ∃ s s', CountRun (limits 1 2) (countOk (limits 1 2)) s ∧ s.Counted (limits 1 2) ∧
      s.number .stopping = 1 ∧ s.exec (limits 1 2) (.stopped 1) = some s' ∧
      s'.pool = s.pool.clear := by
  have hstart : CountRun (limits 1 2) (countOk (limits 1 2)) initial := .start
  have hboth := (hstart.step (a := .create busy) rfl rfl).step (a := .resolve 0 true idle) rfl rfl
    |>.step (a := .enterActive 0 idle) rfl rfl
  have hreplaced := (hboth.step (a := .stop 0) rfl rfl).step (a := .stopping 0 idle) rfl rfl
    |>.step (a := .enterActive 1 idle) rfl rfl
  have hgone := (hreplaced.step (a := .stopping 0 idle) rfl rfl).step (a := .stopped 0) rfl rfl
  have hlast := (hgone.step (a := .enterActive 1 idle) rfl rfl).step (a := .stopping 1 idle) rfl rfl
  refine ⟨⟨_, hreplaced, (CountRun.counters hreplaced).1, by decide⟩,
    _, _, hlast, (CountRun.counters hlast).1, by decide, rfl, ?_⟩
  refine ((CountRun.counters hlast).2 (.stopped 1) _ rfl).2 ⟨⟨1, rfl⟩, fun c => ?_⟩
  rcases c with _ | _ | c <;> rfl

/-- A connection that is activated twice is counted as two, and no pending connection as
    `2 ^ 16 - 1`; when a connection that has replaced a main connection is replaced before the
    first one has stopped, three connections are active where one is allowed. -/
theorem counters_entered_twice :
    (∃ s, CountRun (limits 2 1) (fun _ _ => true) s ∧ s.pool.activeConnectionCount = 2 ∧
      s.number .active = 1 ∧ s.pool.pendingConnectionCount = 65535 ∧ s.number .pending = 0) ∧
    ∃ s, CountRun (limits 1 2) (fun _ _ => true) s ∧ s.pool.activeConnectionCount = 3 := by
  constructor
  · have hrun := (((CountRun.start : CountRun (limits 2 1) (fun _ _ => true) initial).step
      (a := .create busy) rfl rfl).step (a := .enterActive 0 idle) rfl rfl).step
      (a := .enterActive 0 idle) rfl rfl
    exact ⟨_, hrun, by decide, by decide, by decide, by decide⟩
  · -- connection `1` replaces `0`, and `2` replaces `1`
    have hrun := ((((CountRun.start : CountRun (limits 1 2) (fun _ _ => true) initial).step
      (a := .create busy) rfl rfl).step (a := .resolve 0 true busy) rfl rfl).step
      (a := .enterActive 0 busy) rfl rfl).step (a := .resolve 1 true busy) rfl rfl
    have hrun := ((hrun.step (a := .stop 0) rfl rfl).step (a := .stopping 0 busy) rfl rfl).step
      (a := .enterActive 1 busy) rfl rfl
    have hrun := ((hrun.step (a := .stop 1) rfl rfl).step (a := .stopping 1 busy) rfl rfl).step
      (a := .enterActive 2 busy) rfl rfl
    exact ⟨_, hrun, by decide⟩

end PoolCounters

end SolidFrame
