/-
  SolidFrame formalization — the counters of the service
  (`solid/frame/mpipc/src/mpipcservice.cpp`).

  `PoolCounters` is what is seen of a `Service` when its messages are an input of each step:
  each function of the service that counts connections is seen as the function of the same
  name.
-/
import SolidFrame.Mpipc.PoolCounters
import SolidFrame.Mpipc.Service

namespace SolidFrame

open Option

variable {β F : Type}

/-! ## What is counted -/

def Connection.counted (con : Connection β F) (unique : ℕ) : PoolConnection where
  alive := con.alive
  unique := unique
  active := con.active
  connected := con.connected
  stopping := con.stopping
  canStop := con.canStop

namespace Service

/-- The pool and its connections as they are counted, when `u` has the counters of the ids of
    the connections and `unique` is that of the pool. -/
def counters (s : Service β F) (u : ObjectId → ℕ) (unique : ℕ) : PoolCounters where
  pool := { toPoolState := s.pool.toPoolState, unique := unique }
  conns := fun c => (s.conns c).counted (u c)
  nextId := s.nextId

/-- What the functions of the pool ask of its messages and of the service. -/
def outside (s : Service β F) (started hasCursor resolveError : Bool) : Outside where
  running := s.running
  startsObject := started
  hasAnyMessage := s.pool.hasAnyMessage
  msgorderSize := s.pool.msgs.msgorderInnerList.size
  connWaitingSize := s.pool.connWaitingq.length
  hasCursor := hasCursor
  resolveError := resolveError

variable {cfg : PoolConfiguration} {s s' : Service β F} {c : ObjectId} {u : ObjectId → ℕ} {n : ℕ}

theorem counters_modifyConn {f : Connection β F → Connection β F}
    {g : PoolConnection → PoolConnection}
    (h : (f (s.conns c)).counted (u c) = g ((s.conns c).counted (u c))) :
    (s.modifyConn c f).counters u n = (s.counters u n).modifyConn c g := by
  unfold counters modifyConn PoolCounters.modifyConn
  congr 1
  funext c'
  rw [Function.apply_update (fun c con => Connection.counted con (u c)), h]

/-- A change of a connection that is not seen by the counters. -/
theorem counters_hidden {f : Connection β F → Connection β F}
    (h : (f (s.conns c)).counted (u c) = (s.conns c).counted (u c)) :
    (s.modifyConn c f).counters u n = s.counters u n := by
  rw [counters_modifyConn (g := id) h]
  unfold PoolCounters.modifyConn
  simp

theorem counters_startConnection (s : Service β F) (u : ObjectId → ℕ) (n : ℕ)
    (events : List ConnectionEvent) :
    (s.startConnection events).counters (Function.update u s.nextId n) n =
      (s.counters u n).startConnection n := by
  unfold counters startConnection PoolCounters.startConnection
  congr 1
  funext c
  exact Function.apply_update₂ (fun _ con k => Connection.counted con k) s.conns u s.nextId _ n c

/-- What a notice changes is not counted. -/
theorem keptByNotices_counters (t : PoolCounters) :
    KeptByNotices (fun _ => True) fun s : Service β F => s.counters u n = t where
  notice := trivial
  event h _ := (counters_hidden rfl).trans h
  waiting _ h := h

theorem counters_notify (s : Service β F) (id : Option ObjectId) (e : ConnectionEvent) :
    (s.notify id e).1.counters u n = s.counters u n :=
  (keptByNotices_counters _).notify rfl id trivial

/-! ## Connections are started -/

theorem counters_create (cfg : PoolConfiguration) (s : Service β F)
    (started hasCursor resolveError : Bool) :
    ∃ u', (s.counters u n).doTryCreateNewConnectionForPool cfg
        (s.outside started hasCursor resolveError) =
      ((s.doTryCreateNewConnectionForPool cfg started).1.counters u' n,
        (s.doTryCreateNewConnectionForPool cfg started).2) := by
  unfold doTryCreateNewConnectionForPool PoolCounters.doTryCreateNewConnectionForPool
  by_cases hcreate : s.pool.activeConnectionCount.toNat < cfg.poolMaxActiveConnectionCount ∧
      s.pool.pendingConnectionCount = 0 ∧ s.pool.hasAnyMessage ∧
      s.pool.connWaitingq.length < s.pool.msgs.msgorderInnerList.size ∧ s.running ∧ started
  · rw [if_pos hcreate]
    refine ⟨Function.update u s.nextId n, (if_pos hcreate).trans (Prod.ext ?_ rfl)⟩
    have hstart := counters_startConnection s u n
      (if s.pool.connectAddrVec.isEmpty then [] else [.resolve s.pool.connectAddrVec])
    exact congrArg (fun t : PoolCounters => t.withPool { t.pool with
      mainConnectionId := s.pool.mainConnectionId.or (some s.nextId) }) hstart.symm
  · rw [if_neg hcreate]
    exact ⟨u, if_neg hcreate⟩

/-! ## The pool is polled -/

theorem counters_switchMainConnection (s : Service β F) (hu : u c = n) :
    (s.switchMainConnection c).counters u n = (s.counters u n).pollPoolForUpdates c := by
  unfold switchMainConnection PoolCounters.pollPoolForUpdates
  by_cases hswitch : s.pool.mainConnectionStopping ∧ s.pool.mainConnectionId ≠ some c
  · rw [if_pos hswitch, if_pos ⟨hu.symm, hswitch⟩]
    exact congrArg (fun t : PoolCounters => t.withPool { t.pool with
      mainConnectionId := some c, mainConnectionStopping := false })
      (counters_notify s s.pool.mainConnectionId .stopping)
  · rw [if_neg hswitch, if_neg fun h => hswitch h.2]

theorem counters_takeMessages (s : Service β F) (c : ObjectId) :
    (s.takeMessages cfg c).counters u n = s.counters u n := by
  unfold takeMessages setInPoolWaitingQueue
  extract_lets r
  have htake : ((s.withMsgs r.1).modifyConn c fun _ => r.2).counters u n = s.counters u n :=
    counters_hidden rfl
  split_ifs
  · exact htake
  · exact (counters_hidden rfl).trans htake

theorem counters_pollPoolForUpdates (cfg : PoolConfiguration) (s : Service β F) (hu : u c = n)
    (id : MessageId) :
    (s.pollPoolForUpdates cfg c id).1.counters u n = (s.counters u n).pollPoolForUpdates c := by
  unfold pollPoolForUpdates
  extract_lets s₁ s₂
  have hswitch : s₂.counters u n = _ := counters_switchMainConnection s hu
  split_ifs
  · exact hswitch
  · exact hswitch
  · exact (counters_takeMessages s₂ c).trans hswitch

/-! ## Connections stop -/

/-- The messages that are fetched from a connection are not counted. -/
theorem counters_fetched (h : s.doFetchResendableMessagesFromConnection c = some s') :
    s'.counters u n = s.counters u n ∧ s'.running = s.running := by
  obtain ⟨m, -, rfl⟩ := map_eq_some_iff.1 h
  exact ⟨counters_hidden rfl, rfl⟩

section Stopping
variable {r : Stopping β F} {started resolveError : Bool}

theorem counters_doNonMainConnectionStopping
    (h : s.doNonMainConnectionStopping cfg c started = some r) :
    ∃ o u', (s.counters u n).doNonMainConnectionStopping cfg o c =
      (r.service.counters u' n, r.canStop) := by
  unfold doNonMainConnectionStopping at h
  extract_lets s₁ s₂ at h
  have hs₂ : s₂.counters u n = s₁.counters u n := by
    unfold s₂
    split_ifs
    · exact counters_notify s₁ _ _
    · rfl
  have hfast : s₁.pool.fastClosing = s₂.pool.fastClosing :=
    congrArg (fun t : PoolCounters => t.pool.fastClosing) hs₂.symm
  by_cases hclosing : s₂.pool.fastClosing
  · rw [if_pos hclosing] at h
    cases h
    exact ⟨s.outside started false false, u,
      (if_pos (hfast.trans hclosing)).trans (Prod.ext hs₂.symm rfl)⟩
  · rw [if_neg hclosing] at h
    obtain ⟨s₃, hfetch, ⟨⟩⟩ := bind_eq_some_iff.1 h
    obtain ⟨u', hcreate⟩ := counters_create (u := u) (n := n) cfg s₃ started false false
    rw [(counters_fetched hfetch).1, hs₂] at hcreate
    have hfirst := congrArg Prod.fst hcreate
    exact ⟨_, u', (if_neg (hfast ▸ hclosing)).trans (Prod.ext hfirst rfl)⟩

theorem counters_doMainConnectionRestarting (s : Service β F) :
    ∃ o u', o.running = s.running ∧ (s.counters u n).doMainConnectionRestarting cfg o c =
      ((s.doMainConnectionRestarting cfg c started).service.counters u' n,
        (s.doMainConnectionRestarting cfg c started).canStop) := by
  unfold doMainConnectionRestarting
  extract_lets s₁ s₂ r s₃
  have hr : ∃ u', (if s₂.pool.retryConnectCount &&& 1 = 0 then
      (s₂.counters u n).doTryCreateNewConnectionForPool cfg (s₂.outside started false false)
      else (s₂.counters u n, false)) = (r.1.counters u' n, r.2) := by
    unfold r
    split_ifs
    · exact counters_create cfg s₂ started false false
    · exact ⟨u, rfl⟩
  obtain ⟨u', hr⟩ := hr
  refine ⟨s₂.outside started false false, if s₁.pool.hasAnyMessage then u' else u, rfl, ?_⟩
  unfold PoolCounters.doMainConnectionRestarting
  extract_lets _ p r'
  have hr' : r' = (r.1.counters u' n, r.2) := hr
  clear_value r'
  subst hr'
  by_cases hmsg : s₁.pool.hasAnyMessage
  · rw [if_pos hmsg, if_pos hmsg]
    refine (if_pos hmsg).trans ?_
    dsimp only
    split_ifs <;> rfl
  · rw [if_neg hmsg, if_neg hmsg]
    exact if_neg hmsg

theorem counters_doMainConnectionStoppingPrepareCleanOneShot
    (h : s.doMainConnectionStoppingPrepareCleanOneShot c = some r) :
    ∃ o : Outside, o.running = s.running ∧ o.resolveError = false ∧
      (s.counters u n).doMainConnectionStoppingPrepareCleanOneShot o c =
        (r.service.counters u n, r.canStop) := by
  obtain ⟨s₁, hfetch, h⟩ := bind_eq_some_iff.1 h
  obtain ⟨hs₁, hrunning⟩ := counters_fetched (u := u) (n := n) hfetch
  refine ⟨s₁.outside false false false, hrunning, rfl, ?_⟩
  rw [← hs₁]
  by_cases hsize : s₁.pool.msgs.msgorderInnerList.size ≠ 0
  · cases (if_pos hsize).symm.trans h
    refine (if_pos hsize).trans (Prod.ext ?_ rfl)
    symm
    exact counters_hidden rfl
  · cases (if_neg hsize).symm.trans h
    exact if_neg hsize

theorem counters_doMainConnectionStoppingCleanAll
    (h : s.doMainConnectionStoppingCleanAll c = some r) :
    (s.counters u n).doMainConnectionStoppingCleanAll (s.outside started false false) c =
      (r.service.counters u n, r.canStop) := by
  unfold doMainConnectionStoppingCleanAll at h
  by_cases hsize : s.pool.msgs.msgorderInnerList.size ≠ 0
  · rw [if_pos hsize] at h
    obtain ⟨i, -, rfl⟩ := map_eq_some_iff.1 h
    exact if_pos hsize
  · rw [if_neg hsize] at h
    cases h
    exact if_neg hsize

theorem counters_doMainConnectionStoppingCleanOneShot
    (h : s.doMainConnectionStoppingCleanOneShot c = some r) :
    ∃ o, (s.counters u n).doMainConnectionStoppingCleanOneShot o =
      (r.service.counters u n, r.canStop) := by
  obtain ⟨crtmsgidx, -, rfl⟩ := map_eq_some_iff.1 h
  refine ⟨s.outside false crtmsgidx.isSome false, ?_⟩
  cases crtmsgidx with
  | none => rfl
  | some i =>
    have hnext : ∀ (f : Connection β F → Connection β F) m,
        (f (s.conns c)).counted (u c) = (s.conns c).counted (u c) →
        ((s.modifyConn c f).withMsgs m).counters u n = s.counters u n :=
      fun f m hf => counters_hidden (s := s.withMsgs m) hf
    dsimp only
    split_ifs
    · exact Prod.ext (hnext _ _ rfl).symm rfl
    · exact Prod.ext (hnext _ _ rfl).symm rfl
    · exact Prod.ext (counters_hidden rfl).symm rfl

theorem counters_doMainConnectionStoppingNotLast
    (h : s.doMainConnectionStoppingNotLast c = some r) :
    (s.counters u n).doMainConnectionStoppingNotLast = (r.service.counters u n, r.canStop) := by
  dsimp only [doMainConnectionStoppingNotLast] at h
  split_ifs at h
  · cases h
    rfl
  · obtain ⟨s₁, hfetch, ⟨⟩⟩ := bind_eq_some_iff.1 h
    exact Prod.ext (counters_fetched hfetch).1.symm rfl

theorem counters_connectionStopping (hu : u c = n)
    (h : s.connectionStopping cfg c resolveError started = some r) :
    ∃ o u', (s.counters u n).connectionStopping cfg o c =
      (r.service.counters u' n, r.canStop) := by
  have hsame : ¬ n ≠ u c := not_not.2 hu.symm
  unfold connectionStopping at h
  split_ifs at h with hmain hlast hone hall hrestart hprepare
  · obtain ⟨o, u', heq⟩ := counters_doNonMainConnectionStopping h
    exact ⟨o, u', (if_neg hsame).trans ((if_pos hmain).trans heq)⟩
  -- the other branches are those of the main connection
  all_goals refine Exists.imp (fun o => Exists.imp fun u' heq => (if_neg hsame).trans
    ((if_neg hmain).trans heq)) ?_
  · obtain ⟨o, heq⟩ := counters_doMainConnectionStoppingCleanOneShot h
    exact ⟨o, u, (if_neg (not_not.2 hlast)).trans ((if_pos hone).trans heq)⟩
  · exact ⟨s.outside started false false, u, (if_neg (not_not.2 hlast)).trans
      ((if_neg hone).trans ((if_pos hall).trans (counters_doMainConnectionStoppingCleanAll h)))⟩
  · cases h
    obtain ⟨o, u', hrunning, heq⟩ := counters_doMainConnectionRestarting s
    rw [← hrunning] at hrestart
    exact ⟨o, u', (if_neg (not_not.2 hlast)).trans ((if_neg hone).trans ((if_neg hall).trans
      ((if_pos hrestart).trans heq)))⟩
  · obtain ⟨o, hrunning, herror, heq⟩ := counters_doMainConnectionStoppingPrepareCleanOneShot h
    have herror' : ¬ o.resolveError := by simp [herror]
    rw [← hrunning] at hrestart hprepare
    exact ⟨o, u, (if_neg (not_not.2 hlast)).trans ((if_neg hone).trans ((if_neg hall).trans
      ((if_neg hrestart).trans ((if_pos ⟨hprepare.1, hprepare.2.1, hprepare.2.2.1,
        herror'⟩).trans heq))))⟩
  · cases h
    exact ⟨s.outside started false resolveError, u, (if_neg (not_not.2 hlast)).trans
      ((if_neg hone).trans ((if_neg hall).trans ((if_neg hrestart).trans (if_neg hprepare))))⟩
  · exact ⟨s.outside started false false, u, (if_pos hlast).trans
      (counters_doMainConnectionStoppingNotLast h)⟩

end Stopping

theorem counters_connectionStop (s : Service β F) (hu : u c = n) :
    ∃ n', (s.counters u n).connectionStop c = s.connectionStop.counters u n' := by
  have hsame : ¬ n ≠ u c := not_not.2 hu.symm
  unfold connectionStop
  extract_lets s₁
  by_cases hnone : s₁.pool.hasNoConnection
  · rw [if_pos hnone]
    refine ⟨n + 1, (if_neg hsame).trans ?_⟩
    exact congrArg (PoolCounters.withPool (s.counters u n)) (if_pos hnone)
  · rw [if_neg hnone]
    refine ⟨n, (if_neg hsame).trans ?_⟩
    exact congrArg (PoolCounters.withPool (s.counters u n)) (if_neg hnone)

/-! ## A connection is activated -/

theorem counters_activateConnection (cfg : PoolConfiguration) (s : Service β F) (hu : u c = n)
    (started : Bool) :
    ∃ o u', (s.counters u n).activateConnection cfg o c =
      ((s.activateConnection cfg c started).1.counters u' n,
        (s.activateConnection cfg c started).2) := by
  have hsame : ¬ n ≠ u c := not_not.2 hu.symm
  unfold activateConnection
  by_cases hmain : s.pool.mainConnectionStopping
  · rw [if_pos hmain]
    have hnotify := counters_notify (u := u) (n := n) s s.pool.mainConnectionId .stopping
    have hactive := congrArg (fun t : PoolCounters => t.withPool { t.pool.countActive with
      mainConnectionId := some c, mainConnectionStopping := false }) hnotify
    exact ⟨s.outside started false false, u, (if_neg hsame).trans ((if_pos hmain).trans
      (Prod.ext hactive.symm rfl))⟩
  rw [if_neg hmain]
  by_cases hmax : cfg.poolMaxActiveConnectionCount < s.pool.activeConnectionCount.toNat + 1
  · rw [if_pos hmax]
    exact ⟨s.outside started false false, u, (if_neg hsame).trans ((if_neg hmain).trans
      (if_pos hmax))⟩
  · rw [if_neg hmax]
    obtain ⟨u', hcreate⟩ := counters_create (u := u) (n := n) cfg s.countActive started
      false false
    have hfirst := congrArg Prod.fst hcreate
    exact ⟨_, u', (if_neg hsame).trans ((if_neg hmain).trans ((if_neg hmax).trans
      (Prod.ext hfirst rfl)))⟩

theorem counters_enterActive (cfg : PoolConfiguration) (s : Service β F) (hu : u c = n)
    (started : Bool) :
    ∃ o u', (s.counters u n).enterActive cfg o c = (s.enterActive cfg c started).counters u' n ∧
      ((s.counters u n).activateConnection cfg o c).2 = (s.activateConnection cfg c started).2 := by
  obtain ⟨o, u', heq⟩ := counters_activateConnection cfg s hu started
  have hsame : ((s.counters u n).activateConnection cfg o c).2 =
    (s.activateConnection cfg c started).2 := by rw [heq]
  unfold enterActive PoolCounters.enterActive
  by_cases hstop : (s.conns c).stopping
  · rw [if_pos hstop]
    exact ⟨o, u, if_pos hstop, hsame⟩
  · rw [if_neg hstop]
    refine ⟨o, u', (if_neg hstop).trans ?_, hsame⟩
    dsimp only
    rw [heq]
    split_ifs
    · exact (counters_modifyConn rfl).symm
    · exact (counters_modifyConn rfl).symm

/-! ## The pool is closed, and addresses are resolved -/

theorem counters_closeConnectionPool {force : Bool} {f : Option F}
    (h : s.closeConnectionPool force f = some s') :
    (s.counters u n).exec cfg (.close force) = some (s'.counters u n) := by
  obtain ⟨p, -, rfl⟩ := map_eq_some_iff.1 h
  rw [(keptByNotices_counters _).notifyAllWaiting rfl]
  rfl

theorem counters_forwardResolveMessage (cfg : PoolConfiguration) (s : Service β F) (hu : u c = n)
    (addrvec : List Address) (started : Bool) :
    ∃ u', (s.counters u n).forwardResolveMessage cfg (s.outside started false false) c
        (!addrvec.isEmpty) =
      (s.forwardResolveMessage cfg addrvec started).counters u' n := by
  unfold forwardResolveMessage
  by_cases hempty : addrvec.isEmpty
  · obtain ⟨u', hcreate⟩ := counters_create (u := u) (n := n) cfg s started false false
    rw [if_pos hempty]
    exact ⟨u', (if_neg (by simp [hempty])).trans (congrArg Prod.fst hcreate)⟩
  rw [if_neg hempty]
  have hbranch : ∀ {x : PoolCounters}, (if s.pool.pendingConnectionCount.toNat <
      cfg.poolMaxPendingConnectionCount ∧ started then
        (s.counters u n).startConnection (u c) else s.counters u n) = x →
      (s.counters u n).forwardResolveMessage cfg (s.outside started false false) c
        (!addrvec.isEmpty) = x := fun h => (if_pos (by simp [hempty])).trans h
  split_ifs with hmax hstarted
  · refine ⟨Function.update u s.nextId n, hbranch ((if_pos ⟨hmax, hstarted⟩).trans ?_)⟩
    rw [hu]
    exact (counters_startConnection s u n _).symm
  · exact ⟨u, hbranch (if_neg fun h => hstarted h.2)⟩
  · exact ⟨u, hbranch (if_neg fun h => hmax h.1)⟩

end Service

end SolidFrame
