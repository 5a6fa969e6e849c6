/-
  SolidFrame formalization — which connection takes the next message
  (`doSendMessage`, `pollPoolForUpdates` and `activateConnection` in
  `solid/frame/mpipc/src/mpipcservice.cpp`, `mpipcconnection.cpp`).

  A message in a pool is taken when a connection polls the pool.  A connection that has
  nothing to do waits in `conn_waitingq`, and must be notified.  For a synchronous message
  only the main connection counts, and `doSendMessage` notifies it only when the
  flag `MainConnectionActive` is set, which happens when a main connection is replaced, not
  when the first one is activated.
-/
import SolidFrame.Mpipc.ServiceSlots

namespace SolidFrame

open Connection Function List Nat Option Service

/-- The connection is going to poll its pool: it has an event to handle, a flag that makes it
    poll, messages whose completion makes it poll, or it is not active yet. -/
def Connection.Awake {β F : Type} (con : Connection β F) : Prop :=
  .newPoolMessage ∈ con.events ∨ con.pollPool = true ∨ con.writer.messages ≠ [] ∨ con.active = false

instance {β F : Type} (con : Connection β F) : Decidable con.Awake :=
  haveI : Decidable (con.writer.messages ≠ []) :=
    decidable_of_iff (con.writer.messages.isEmpty = false) isEmpty_eq_false_iff
  inferInstanceAs (Decidable (_ ∨ _ ∨ _ ∨ _))

variable {cancelable : Bool}

namespace Service
variable {β F : Type}

/-- **No lost wake-up**: for each message in the order list there is a connection that is
    awake and may take it, namely the main connection when the message is synchronous. -/
def NoLostWakeup (s : Service β F) : Prop :=
  ∀ i ∈ s.pool.msgs.msgorderInnerList.forEach s.pool.msgs.orderLinks,
    ∃ c, (s.conns c).alive = true ∧ (s.conns c).Awake ∧
      ((s.pool.msgs.msgvec i).isAsynchronous = false → s.pool.mainConnectionId = some c)

/-! ## Invariant -/

/-- A pool that is neither closing nor losing its main connection.  The connections in `ex`
    are about to poll. -/
structure Ready (ex : ObjectId → Prop) (s : Service β F) (O A C : List ℕ) (own : ℕ → Owner) :
    Prop where
  slots : Slots s.pool.msgs s.conns O A C own
  ptr : ∀ i ∈ O, (s.pool.msgs.msgvec i).msgbundle.messagePtr.isSome
  closing : s.pool.closing = false
  fastClosing : s.pool.fastClosing = false
  mainStopping : s.pool.mainConnectionStopping = false
  cleanOneShot : s.pool.cleanOneShotMessages = false
  clientSide : s.pool.serverSide = false
  main : ∃ c, s.pool.mainConnectionId = some c ∧ (s.conns c).alive = true
  below : ∀ c, (s.conns c).alive = true → c < s.nextId
  waiting : ∀ c ∈ s.pool.connWaitingq, (s.conns c).alive = true
  canceled : ∀ c, (s.conns c).writer.canceled = 0
  events : ∀ c, ∀ e ∈ (s.conns c).events, ∀ id, e ≠ .cancelConnMessage id ∧
    e ≠ .cancelPoolMessage id
  ready : ∀ c, (s.conns c).alive = true → (s.conns c).active = true →
    (s.conns c).pollPool = true ∨ (s.conns c).inPoolWaitQueue = true ∨ ex c
  queued : ∀ c, (s.conns c).alive = true → (s.conns c).inPoolWaitQueue = true →
    c ∈ s.pool.connWaitingq ∨ .newPoolMessage ∈ (s.conns c).events

/-- Each of the messages has a connection that is awake or about to poll, and may take it. -/
def Woken (ex : ObjectId → Prop) (s : Service β F) (O : List ℕ) : Prop :=
  ∀ i ∈ O, ∃ c, (s.conns c).alive = true ∧ ((s.conns c).Awake ∨ ex c) ∧
    ((s.pool.msgs.msgvec i).isAsynchronous = false → s.pool.mainConnectionId = some c)

def Nobody : ObjectId → Prop := fun _ => False

theorem Woken.noLostWakeup {s : Service β F} {O A C : List ℕ} (h : s.Woken Nobody O)
    (hlists : s.pool.msgs.Lists O A C) : s.NoLostWakeup := by
  intro i hi
  rw [hlists.order.forEach, mem_reverse] at hi
  obtain ⟨c, halive, hawake, hmain⟩ := h i hi
  exact ⟨c, halive, hawake.resolve_right id, hmain⟩

variable {s s' : Service β F} {O A C O' : List ℕ} {own : ℕ → Owner} {ex ex' : ObjectId → Prop}

theorem Woken.mono (h : s.Woken ex O) (hmain : s'.pool.mainConnectionId = s.pool.mainConnectionId)
    (hmsgs : ∀ i ∈ O', i ∈ O ∧ s'.pool.msgs.msgvec i = s.pool.msgs.msgvec i)
    (hawake : ∀ c, (s.conns c).alive → (s.conns c).Awake ∨ ex c →
      (s'.conns c).alive ∧ ((s'.conns c).Awake ∨ ex' c)) : s'.Woken ex' O' := by
  intro i hi
  obtain ⟨hiO, hstub⟩ := hmsgs i hi
  obtain ⟨c, halive, hc, hsync⟩ := h i hiO
  rw [hstub, hmain]
  exact ⟨c, (hawake c halive hc).1, (hawake c halive hc).2, hsync⟩

variable {f : Connection β F → Connection β F}
variable {m' : PoolMessages β F} {c : ObjectId} {own' : ℕ → Owner}

/-- One connection and the messages change, and keep what the others rely on. -/
theorem Ready.update (h : s.Ready ex O A C own) {A' C' : List ℕ}
    (hslots : Slots m' (update s.conns c (f (s.conns c))) O' A' C' own')
    (hptr : ∀ i ∈ O', (m'.msgvec i).msgbundle.messagePtr.isSome)
    (halive : (f (s.conns c)).alive = (s.conns c).alive)
    (hcanceled : (f (s.conns c)).writer.canceled = 0)
    (hevents : ∀ e ∈ (f (s.conns c)).events, e ∈ (s.conns c).events ∨
      ∀ id, e ≠ .cancelConnMessage id ∧ e ≠ .cancelPoolMessage id)
    (hready : (s.conns c).alive → (f (s.conns c)).active →
      (f (s.conns c)).pollPool ∨ (f (s.conns c)).inPoolWaitQueue ∨ ex' c)
    (hqueued : (s.conns c).alive → (f (s.conns c)).inPoolWaitQueue →
      c ∈ s.pool.connWaitingq ∨ .newPoolMessage ∈ (f (s.conns c)).events)
    (hex : ∀ c', c' ≠ c → ex c' → ex' c') :
    ((s.withMsgs m').modifyConn c f).Ready ex' O' A' C' own' where
  __ := h
  slots := hslots
  ptr := hptr
  main := by
    obtain ⟨c0, hmain, hc0⟩ := h.main
    refine ⟨c0, hmain, ?_⟩
    exact forall_modifyConn (s := s.withMsgs m') (p := fun c' con => c' = c0 → con.alive)
      (fun heq => halive.trans (heq ▸ hc0)) (fun c' _ heq => heq ▸ hc0) c0 rfl
  below := forall_modifyConn (p := fun c' con => con.alive → c' < s.nextId)
    (fun hc => h.below c (halive ▸ hc)) fun c' _ => h.below c'
  waiting := forall_modifyConn (p := fun c' con => c' ∈ s.pool.connWaitingq → con.alive)
    (fun hc => halive.trans (h.waiting c hc)) fun c' _ => h.waiting c'
  canceled := forall_modifyConn (p := fun _ con => con.writer.canceled = 0) hcanceled
    fun c' _ => h.canceled c'
  events := forall_modifyConn (p := fun _ con => ∀ e ∈ con.events, ∀ id,
      e ≠ .cancelConnMessage id ∧ e ≠ .cancelPoolMessage id)
    (fun e he => (hevents e he).elim (h.events c e) id) fun c' _ => h.events c'
  ready := forall_modifyConn (p := fun c' con => con.alive → con.active →
      con.pollPool ∨ con.inPoolWaitQueue ∨ ex' c')
    (fun hc => hready (halive ▸ hc))
    fun c' hne ha hact => (h.ready c' ha hact).imp_right fun hr => hr.imp_right (hex c' hne)
  queued := forall_modifyConn (p := fun c' con => con.alive → con.inPoolWaitQueue →
      c' ∈ s.pool.connWaitingq ∨ .newPoolMessage ∈ con.events)
    (fun hc => hqueued (halive ▸ hc)) fun c' _ => h.queued c'

theorem Ready.modifyConn (h : s.Ready ex O A C own)
    (halive : (f (s.conns c)).alive = (s.conns c).alive)
    (htokens : (f (s.conns c)).tokens.Subperm (s.conns c).tokens)
    (hcanceled : (f (s.conns c)).writer.canceled = 0)
    (hevents : ∀ e ∈ (f (s.conns c)).events, e ∈ (s.conns c).events ∨
      ∀ id, e ≠ .cancelConnMessage id ∧ e ≠ .cancelPoolMessage id)
    (hready : (s.conns c).alive → (f (s.conns c)).active →
      (f (s.conns c)).pollPool ∨ (f (s.conns c)).inPoolWaitQueue ∨ ex' c)
    (hqueued : (s.conns c).alive → (f (s.conns c)).inPoolWaitQueue →
      c ∈ s.pool.connWaitingq ∨ .newPoolMessage ∈ (f (s.conns c)).events)
    (hex : ∀ c', c' ≠ c → ex c' → ex' c') : (s.modifyConn c f).Ready ex' O A C own := by
  refine h.update ?_ h.ptr halive hcanceled hevents hready hqueued hex
  exact h.slots.congr_tokens (forall_modifyConn (p := fun c' con => con.tokens.Subperm
    (s.conns c').tokens) htokens fun c' _ => List.Subperm.refl _)

/-- One connection changes, and the messages keep the connection that comes for them. -/
theorem Woken.modifyConn (h : s.Woken ex O)
    (halive : (f (s.conns c)).alive = (s.conns c).alive)
    (hawake : (s.conns c).Awake ∨ ex c → (f (s.conns c)).Awake ∨ ex' c)
    (hex : ∀ c', c' ≠ c → ex c' → ex' c') : (s.modifyConn c f).Woken ex' O := by
  refine h.mono rfl (fun i hi => ⟨hi, rfl⟩) ?_
  exact forall_modifyConn (p := fun c' con => (s.conns c').alive →
      (s.conns c').Awake ∨ ex c' → con.alive ∧ (con.Awake ∨ ex' c'))
    (fun ha hc => ⟨halive.trans ha, hawake hc⟩)
    fun c' hne ha hc => ⟨ha, hc.imp_right (hex c' hne)⟩

/-! ## Notifying and starting connections -/

section Notify
variable {c : ObjectId} {e : ConnectionEvent}

theorem Ready.notify (h : s.Ready ex O A C own) (hc : (s.conns c).alive)
    (he : ∀ id, e ≠ .newConnMessage id ∧ e ≠ .cancelConnMessage id ∧ e ≠ .cancelPoolMessage id) :
    (s.notify (some c) e).1.Ready ex O A C own := by
  simp only [notify_alive hc]
  refine h.modifyConn rfl (List.Perm.subperm ?_) (h.canceled c) (fun e' he' => ?_)
    (fun ha hact => h.ready c ha hact) (fun ha hq => ?_) fun _ _ hex => hex
  · rw [tokens_addEvent]
    cases e <;> simp_all [ConnectionEvent.messageId?]
  · rcases mem_append.1 he' with he' | he'
    · exact .inl he'
    · rw [mem_singleton.1 he']
      exact .inr fun id => (he id).2
  · exact (h.queued c ha hq).imp_right (mem_append_left _)

theorem Woken.notify (h : s.Woken ex O) (hc : (s.conns c).alive) :
    (s.notify (some c) e).1.Woken ex O := by
  simp only [notify_alive hc]
  refine h.modifyConn rfl (fun hawake => hawake.imp_left fun ha => ?_) fun _ _ hex => hex
  exact ha.imp_left (mem_append_left _)

theorem Ready.startConnection (h : s.Ready ex O A C own) (events : List ConnectionEvent)
    (hevents : ∀ e ∈ events, ∃ addrvec, e = .resolve addrvec) :
    (s.startConnection events).Ready ex O A C own := by
  have hsame : ∀ c, (s.conns c).alive → (s.startConnection events).conns c = s.conns c :=
    fun c hc => startConnection_of_ne s (Nat.ne_of_lt (h.below c hc)) events
  have htokens : ({ alive := true, events := events } : Connection β F).tokens = [] := by
    have hids : events.filterMap ConnectionEvent.messageId? = [] := by
      rw [List.filterMap_eq_nil_iff]
      intro e he
      obtain ⟨addrvec, rfl⟩ := hevents e he
      rfl
    simp [Connection.tokens, Connection.writerTokens, hids]
  obtain ⟨c0, hmain, hc0⟩ := h.main
  exact { h with
      slots := by
        refine h.slots.congr_tokens (forall_startConnection
          (p := fun c con => con.tokens.Subperm (s.conns c).tokens) ?_ fun c => List.Subperm.refl _)
        rw [htokens]
        exact List.nil_subperm
      main := ⟨c0, hmain, by rw [hsame c0 hc0, hc0]⟩
      below := forall_startConnection (p := fun c con => con.alive → c < s.nextId + 1)
        (fun _ => Nat.lt_succ_self _) fun c hc => Nat.lt_succ_of_lt (h.below c hc)
      waiting := fun c hc => by
        rw [hsame c (h.waiting c hc)]
        exact h.waiting c hc
      canceled := forall_startConnection (p := fun _ con => con.writer.canceled = 0) rfl h.canceled
      events := by
        refine forall_startConnection (p := fun _ con => ∀ e ∈ con.events, ∀ id,
          e ≠ .cancelConnMessage id ∧ e ≠ .cancelPoolMessage id) (fun e he id => ?_) h.events
        obtain ⟨addrvec, rfl⟩ := hevents e he
        exact ⟨by rintro ⟨⟩, by rintro ⟨⟩⟩
      ready := forall_startConnection (p := fun c con => con.alive → con.active →
        con.pollPool ∨ con.inPoolWaitQueue ∨ ex c) (by rintro _ ⟨⟩) h.ready
      queued := forall_startConnection (p := fun c con => con.alive →
        con.inPoolWaitQueue → c ∈ s.pool.connWaitingq ∨ .newPoolMessage ∈ con.events)
        (by rintro _ ⟨⟩) h.queued }

theorem Woken.startConnection (h : s.Woken ex O) (hbelow : ∀ c, (s.conns c).alive → c < s.nextId)
    (events : List ConnectionEvent) : (s.startConnection events).Woken ex O := by
  refine h.mono rfl (fun i hi => ⟨hi, rfl⟩) fun c hc hawake => ?_
  have hsame : (s.startConnection events).conns c = s.conns c :=
    startConnection_of_ne s (Nat.ne_of_lt (hbelow c hc)) events
  rw [hsame]
  exact ⟨hc, hawake⟩

end Notify

section Create
variable (cfg : PoolConfiguration) (started : Bool)

theorem Ready.doTryCreateNewConnectionForPool (h : s.Ready ex O A C own) :
    (s.doTryCreateNewConnectionForPool cfg started).1.Ready ex O A C own := by
  rcases doTryCreateNewConnectionForPool_cases cfg s started with ⟨events, hevents, heq⟩ | heq
  · rw [heq]
    have h1 := h.startConnection events hevents
    obtain ⟨c0, hmain, hc0⟩ := h1.main
    -- the pool has a main connection already
    refine { h1 with main := ⟨c0, ?_, hc0⟩ }
    exact (congrArg (·.or (some s.nextId)) hmain).trans rfl
  · rw [heq]
    exact h

theorem Woken.doTryCreateNewConnectionForPool (h : s.Woken ex O) (hr : s.Ready ex' O' A C own) :
    (s.doTryCreateNewConnectionForPool cfg started).1.Woken ex O := by
  rcases doTryCreateNewConnectionForPool_cases cfg s started with ⟨events, -, heq⟩ | heq
  · rw [heq]
    obtain ⟨c0, hmain, -⟩ := hr.main
    refine (h.startConnection hr.below _).mono ?_ (fun i hi => ⟨hi, rfl⟩) fun c hc hawake =>
      ⟨hc, hawake⟩
    have hor : s.pool.mainConnectionId.or (some s.nextId) = s.pool.mainConnectionId := by
      rw [hmain]
      rfl
    exact hor
  · rw [heq]
    exact h

theorem Ready.forwardResolveMessage (h : s.Ready ex O A C own) (addrvec : List Address) :
    (s.forwardResolveMessage cfg addrvec started).Ready ex O A C own := by
  unfold Service.forwardResolveMessage
  split_ifs
  · exact h.doTryCreateNewConnectionForPool cfg started
  · exact h.startConnection _ (by simp)
  · exact h
  · exact { h with }

theorem Woken.forwardResolveMessage (h : s.Woken ex O) (hr : s.Ready ex' O' A C own)
    (addrvec : List Address) : (s.forwardResolveMessage cfg addrvec started).Woken ex O := by
  unfold Service.forwardResolveMessage
  split_ifs
  · exact h.doTryCreateNewConnectionForPool cfg started hr
  · exact h.startConnection hr.below _
  · exact h
  · exact h

theorem Ready.doTryNotifyPoolWaitingConnection (h : s.Ready ex O A C own) :
    s.doTryNotifyPoolWaitingConnection.1.Ready ex O A C own := by
  unfold Service.doTryNotifyPoolWaitingConnection
  cases hq : s.pool.connWaitingq with
  | nil =>
    have hqueued := h.queued
    rw [hq] at hqueued
    exact { h with waiting := fun _ hc => absurd hc not_mem_nil, queued := hqueued }
  | cons c q =>
    have hc : (s.conns c).alive := h.waiting c (hq ▸ mem_cons_self)
    have h1 : (s.notify (some c) .newPoolMessage).1.Ready ex O A C own :=
      h.notify hc fun id => ⟨nofun, nofun, nofun⟩
    have hwait : (s.notify (some c) .newPoolMessage).1.pool.connWaitingq = c :: q := by
      rw [notify_alive hc]
      exact hq
    have hevent : .newPoolMessage ∈ ((s.notify (some c) .newPoolMessage).1.conns c).events := by
      simp only [notify_alive hc, modifyConn_self]
      exact mem_append_right _ mem_cons_self
    have hsuccess : (s.notify (some c) .newPoolMessage).2 := by rw [notify_alive hc]
    rw [notifyWaiting, if_pos hsuccess]
    refine { h1 with waiting := fun c' hc' => ?_, queued := fun c' ha hflag => ?_ }
    · exact h1.waiting c' (hwait ▸ mem_cons_of_mem c hc')
    · rcases h1.queued c' ha hflag with hmem | hmem
      · rw [hwait, mem_cons] at hmem
        rcases hmem with rfl | hmem
        · exact .inr hevent
        · exact .inl hmem
      · exact .inr hmem

theorem Woken.doTryNotifyPoolWaitingConnection (h : s.Woken ex O) (hr : s.Ready ex' O' A C own) :
    s.doTryNotifyPoolWaitingConnection.1.Woken ex O := by
  unfold Service.doTryNotifyPoolWaitingConnection
  cases hq : s.pool.connWaitingq with
  | nil => exact h
  | cons c q =>
    have hc : (s.conns c).alive := hr.waiting c (hq ▸ mem_cons_self)
    have hsuccess : (s.notify (some c) .newPoolMessage).2 := by rw [notify_alive hc]
    rw [notifyWaiting, if_pos hsuccess]
    exact h.notify hc

end Create

/-! ## Polling -/

theorem Refuses.messages_ne_nil {v : ConnectionWriter β F} {cfg : WriterConfiguration}
    (h : v.Refuses cfg) (hmax : 0 < cfg.maxMessageCountMultiplex) (hcanceled : v.canceled = 0) :
    v.messages ≠ [] := by
  obtain ⟨b, id, hnone⟩ := h
  rintro hnil
  unfold ConnectionWriter.enqueue ConnectionWriter.writeSize at hnone
  rw [hnil, hcanceled, filter_nil, length_nil, if_neg (not_le.2 hmax),
    if_neg (fun hwait => absurd hwait.2 (by omega))] at hnone
  cases hnone

section Poll
variable {cfg : PoolConfiguration} {c : ObjectId}

theorem Ready.setInPoolWaitingQueue (h : s.Ready (· = c) O A C own)
    (hc : (s.conns c).alive) : (s.setInPoolWaitingQueue c).Ready Nobody O A C own := by
  unfold Service.setInPoolWaitingQueue
  by_cases hflag : (s.conns c).inPoolWaitQueue
  · rw [if_pos hflag]
    refine { h with ready := fun c' ha hact => ?_ }
    rcases h.ready c' ha hact with hpoll | hqueue | rfl
    · exact .inl hpoll
    · exact .inr (.inl hqueue)
    · exact .inr (.inl hflag)
  · rw [if_neg hflag]
    have h1 : (s.withPool fun p => { p with connWaitingq := p.connWaitingq ++ [c] }).Ready (· = c)
        O A C own := by
      refine { h with
        waiting := fun c' hc' => ?_
        queued := fun c' ha hq => (h.queued c' ha hq).imp_left (mem_append_left _) }
      rcases mem_append.1 hc' with hc' | hc'
      · exact h.waiting c' hc'
      · rw [mem_singleton.1 hc']
        exact hc
    exact h1.modifyConn rfl (List.Subperm.refl _) (h.canceled c) (fun e he => .inl he)
      (fun _ _ => .inr (.inl rfl)) (fun _ _ => .inl (mem_append_right _ mem_cons_self))
      fun c' hne heq => absurd heq hne

theorem Woken.setInPoolWaitingQueue (h : s.Woken ex O) (c : ObjectId) :
    (s.setInPoolWaitingQueue c).Woken ex O := by
  unfold Service.setInPoolWaitingQueue
  by_cases hflag : (s.conns c).inPoolWaitQueue
  · rw [if_pos hflag]
    exact h
  · rw [if_neg hflag]
    exact Woken.modifyConn (s := s.withPool _) h rfl id fun _ _ hex => hex

/-- **A connection polls**: afterwards nothing is left for it, or it has messages to send. -/
theorem Ready.takeMessages (h : s.Ready (· = c) O A C own) (hw : s.Woken (· = c) O)
    (hc : (s.conns c).alive) (hmax : 0 < cfg.writer.maxMessageCountMultiplex) :
    ∃ O' A' C' own', (s.takeMessages cfg c).Ready Nobody O' A' C' own' ∧
      (s.takeMessages cfg c).Woken Nobody O' := by
  set isMain := s.pool.mainConnectionId == some c with hmain
  obtain ⟨O', A', C', own', hslots, hcanceled, hdrained, hdone⟩ :=
    h.slots.fetch cfg c (keptByTaking_canceled cfg c 0) (h.canceled c) isMain
  set r := s.pool.msgs.fetch cfg c isMain (s.conns c) with hr
  have hptr : ∀ i ∈ O', (r.1.msgvec i).msgbundle.messagePtr.isSome := by
    intro i hi
    rw [hdrained.frame i hi]
    exact h.ptr i (hdrained.sub.subset hi)
  rw [update_self] at hcanceled
  have h1 : ((s.withMsgs r.1).modifyConn c fun _ => r.2).Ready (· = c) O' A' C' own' :=
    h.update hslots hptr rfl hcanceled (fun e he => .inl he) (fun _ _ => .inr (.inr rfl))
      (h.queued c) fun _ _ heq => heq
  have hself : (((s.withMsgs r.1).modifyConn c fun _ => r.2).conns c) = r.2 := modifyConn_self _ _ _
  refine ⟨O', A', C', own', h1.setInPoolWaitingQueue (by rw [hself]; exact hc),
    Woken.setInPoolWaitingQueue (fun i hi => ?_) c⟩
  have hmsgs : ((s.withMsgs r.1).modifyConn c fun _ => r.2).pool.msgs = r.1 := rfl
  obtain ⟨c', ha, hawake, hsync⟩ := hw i (hdrained.sub.subset hi)
  rw [hmsgs, hdrained.frame i hi]
  refine ⟨c', ?_, ?_, hsync⟩
  · exact forall_modifyConn (s := s.withMsgs r.1) (p := fun c'' con => c'' = c' → con.alive)
      (fun _ => hc) (fun c'' _ heq => heq ▸ ha) c' rfl
  · rcases eq_or_ne c' c with rfl | hne
    · -- the list that the connection has polled is not empty
      have hL : i ∈ (if isMain then O' else A') := by
        cases hb : isMain with
        | true => exact hi
        | false =>
          refine (hslots.async i hi).1 ?_
          rw [hdrained.frame i hi]
          by_contra hnot
          rw [hmain, hsync (by simpa using hnot)] at hb
          simp at hb
      have hsub : (if isMain then O' else A') ⊆ O' := by
        cases isMain
        · exact hslots.lists.asyncSub
        · exact List.Subset.refl _
      obtain ⟨j, hj⟩ : ∃ j, (if isMain then O' else A').head? = some j :=
        isSome_iff_exists.1 (isSome_head?.mpr (ne_nil_of_mem hL))
      have hjO : j ∈ O' := hsub (mem_of_head? hj)
      rw [hself]
      rcases hdone j hj with hnull | hrefuse
      · have hsome := hptr j hjO
        rw [isSome_iff_ne_none] at hsome
        exact absurd (isNone_iff_eq_none.1 hnull) hsome
      · exact .inl (.inr (.inr (.inl (Refuses.messages_ne_nil hrefuse hmax hcanceled))))
    · rw [modifyConn_of_ne _ hne]
      exact .inl (hawake.resolve_right hne)

theorem pollPoolForUpdates_eq (hclosing : s.pool.closing = false)
    (hfast : s.pool.fastClosing = false) (hstopping : s.pool.mainConnectionStopping = false)
    (c : ObjectId) (id : MessageId) :
    s.pollPoolForUpdates cfg c id =
      ((s.withMsgs (s.pool.msgs.cacheMessageId id)).takeMessages cfg c, false) := by
  have hswitch : s.switchMainConnection c = s := by
    rw [switchMainConnection, if_neg (by simp [hstopping])]
  have hclose : (s.withMsgs (s.pool.msgs.cacheMessageId id)).pool.shouldClose = false := by
    simp [ConnectionPool.shouldClose, withMsgs, withPool, hclosing]
  unfold pollPoolForUpdates
  rw [hswitch, if_neg (by simp [withMsgs, withPool, hfast]), if_neg (by simp [hclose])]

def Live (s : Service β F) : Prop := ∃ O A C own, s.Ready Nobody O A C own ∧ s.Woken Nobody O

theorem Ready.weaken (h : s.Ready ex O A C own) (hex : ∀ c, ex c → ex' c) : s.Ready ex' O A C own :=
  { h with ready := fun c ha hact => (h.ready c ha hact).imp_right fun hr => hr.imp_right (hex c) }

theorem Woken.weaken (h : s.Woken ex O) (hex : ∀ c, ex c → ex' c) : s.Woken ex' O :=
  h.mono rfl (fun _ hi => ⟨hi, rfl⟩) fun c ha hawake => ⟨ha, hawake.imp_right (hex c)⟩

theorem Live.poll (h : s.Ready (· = c) O A C own) (hw : s.Woken (· = c) O)
    (hc : (s.conns c).alive) (hmax : 0 < cfg.writer.maxMessageCountMultiplex) :
    Live ((s.modifyConn c fun con => { con with pollPool := false }).takeMessages cfg c) := by
  have h1 : (s.modifyConn c fun con => { con with pollPool := false }).Ready (· = c) O A C own :=
    h.modifyConn rfl (List.Subperm.refl _) (h.canceled c) (fun e he => .inl he)
      (fun _ _ => .inr (.inr rfl)) (h.queued c) fun _ _ heq => heq
  have hw1 : (s.modifyConn c fun con => { con with pollPool := false }).Woken (· = c) O :=
    hw.modifyConn rfl (fun _ => .inr rfl) fun _ _ heq => heq
  have hc1 : ((s.modifyConn c fun con => { con with pollPool := false }).conns c).alive := by
    rw [modifyConn_self]
    exact hc
  exact h1.takeMessages hw1 hc1 hmax

theorem doSend_eq (h : s.Ready ex O A C own) (hstop : (s.conns c).stopping = false)
    (hpoll : (s.conns c).pollPool) :
    s.doSend cfg c =
      (s.modifyConn c fun con => { con with pollPool := false }).takeMessages cfg c := by
  have hs : ∀ s1 : Service β F, s1.pool = s.pool →
      s1.pollPoolForUpdates cfg c {} = (s1.takeMessages cfg c, false) := by
    intro s1 hs1
    exact pollPoolForUpdates_eq (hs1 ▸ h.closing) (hs1 ▸ h.fastClosing) (hs1 ▸ h.mainStopping) c {}
  unfold doSend
  rw [if_pos ⟨by simp [hstop], hpoll⟩,
    hs (s.modifyConn c fun con => { con with pollPool := false }) rfl]
  rfl

theorem Live.pollNow (h : s.Ready (· = c) O A C own) (hw : s.Woken (· = c) O)
    (hc : (s.conns c).alive) (hstop : (s.conns c).stopping = false)
    (hmax : 0 < cfg.writer.maxMessageCountMultiplex) : Live (s.pollNow cfg c) := by
  set s1 := s.modifyConn c fun con => { con with pollPool := true } with hs1
  have hself : s1.conns c = { s.conns c with pollPool := true } := modifyConn_self _ _ _
  have h1 : s1.Ready (· = c) O A C own :=
    h.modifyConn rfl (List.Subperm.refl _) (h.canceled c) (fun e he => .inl he)
      (fun _ _ => .inl rfl) (h.queued c) fun _ _ heq => heq
  have hw1 : s1.Woken (· = c) O :=
    hw.modifyConn rfl (fun _ => .inr rfl) fun _ _ heq => heq
  unfold Service.pollNow
  rw [← hs1, doSend_eq h1 (by rw [hself]; exact hstop) (by rw [hself])]
  exact Live.poll h1 hw1 (by rw [hself]; exact hc) hmax

theorem Live.doSend (h : s.Live) (hc : (s.conns c).alive)
    (hstop : (s.conns c).stopping = false) (hmax : 0 < cfg.writer.maxMessageCountMultiplex) :
    Live (s.doSend cfg c) := by
  by_cases hpoll : (s.conns c).pollPool
  · obtain ⟨O, A, C, own, hr, hw⟩ := h
    rw [doSend_eq hr hstop hpoll]
    exact Live.poll (hr.weaken fun _ => False.elim) (hw.weaken fun _ => False.elim) hc hmax
  · unfold Service.doSend
    rw [if_neg (fun hand => hpoll hand.2)]
    exact h

end Poll

/-! ## Sending -/

section Send
variable {cfg : PoolConfiguration} {c : ObjectId} {i : ℕ}

theorem Connection.awake_of_notify (h : (s.conns c).alive) :
    ((s.notify (some c) .newPoolMessage).1.conns c).alive ∧
      ((s.notify (some c) .newPoolMessage).1.conns c).Awake := by
  simp only [notify_alive h, modifyConn_self]
  exact ⟨h, .inl (mem_append_right _ mem_cons_self)⟩

/-- For an asynchronous message a waiting connection is notified; when none waits, the main
    connection is awake. -/
theorem Ready.woken_of_notify (h : s.Ready Nobody O A C own)
    (hasync : (s.pool.msgs.msgvec i).isAsynchronous) :
    s.doTryNotifyPoolWaitingConnection.1.Woken Nobody [i] := by
  unfold Service.doTryNotifyPoolWaitingConnection
  cases hq : s.pool.connWaitingq with
  | nil =>
    intro j hj
    obtain rfl := mem_singleton.1 hj
    obtain ⟨c0, -, hc0⟩ := h.main
    have hawake : (s.conns c0).Awake := by
      by_cases hact : (s.conns c0).active
      · rcases h.ready c0 hc0 hact with hpoll | hflag | hno
        · exact .inr (.inl hpoll)
        · rcases h.queued c0 hc0 hflag with hmem | hevent
          · rw [hq] at hmem
            exact absurd hmem not_mem_nil
          · exact .inl hevent
        · exact hno.elim
      · exact .inr (.inr (.inr (by simpa using hact)))
    exact ⟨c0, hc0, .inl hawake, fun hsync => absurd (hasync.symm.trans hsync) (by decide)⟩
  | cons c q =>
    have hc : (s.conns c).alive := h.waiting c (hq ▸ mem_cons_self)
    have hsuccess : (s.notify (some c) .newPoolMessage).2 := by rw [notify_alive hc]
    rw [notifyWaiting, if_pos hsuccess]
    intro j hj
    obtain rfl := mem_singleton.1 hj
    obtain ⟨ha, hawake⟩ := Connection.awake_of_notify hc
    refine ⟨c, ha, .inl hawake, fun hsync => ?_⟩
    have hmsgs : (s.notify (some c) .newPoolMessage).1.pool.msgs = s.pool.msgs := by
      rw [notify_alive hc]
      rfl
    have hsync' : ((s.notify (some c) .newPoolMessage).1.pool.msgs.msgvec j).isAsynchronous =
        false := hsync
    rw [hmsgs, hasync] at hsync'
    cases hsync'

theorem Ready.notifySent (cfg : PoolConfiguration) (h : s.Ready Nobody O A C own)
    (hw : s.Woken Nobody O') {flags : MessageFlags}
    (hi : (s.pool.msgs.msgvec i).isAsynchronous = flags.isAsynchronous)
    (hsync : flags.synchronous → s.pool.mainConnectionActive ∨
      ∃ c, s.pool.mainConnectionId = some c ∧ (s.conns c).Awake) (id : MessageId) (started : Bool) :
    (s.notifySent cfg flags id started).Ready Nobody O A C own ∧
      (s.notifySent cfg flags id started).Woken Nobody O' ∧
      (s.notifySent cfg flags id started).Woken Nobody [i] := by
  obtain ⟨c0, hmain, hc0⟩ := h.main
  rw [notifySent_eq cfg (by simp [h.cleanOneShot]), hmain]
  cases hflag : flags.synchronous with
  | true =>
    have hr := h.notify hc0 (e := .newPoolMessage) (by simp)
    have hnotify : (s.notify (some c0) .newPoolMessage).2 := by rw [notify_alive hc0]
    by_cases hactive : s.pool.mainConnectionActive
    · rw [if_pos rfl, if_pos ⟨hactive, hnotify⟩]
      obtain ⟨ha, hawake⟩ := Connection.awake_of_notify hc0
      refine ⟨hr, hw.notify hc0, fun j _ => ⟨c0, ha, .inl hawake, fun _ => ?_⟩⟩
      rw [notify_alive hc0]
      exact hmain
    · rw [if_pos rfl, if_neg (fun hand => hactive hand.1), if_neg hactive]
      obtain ⟨c, hc, hawake⟩ := (hsync hflag).resolve_left hactive
      obtain rfl : c0 = c := Option.some.inj (hmain.symm.trans hc)
      have hnew : s.Woken Nobody [i] := fun j _ => ⟨c0, hc0, .inl hawake, fun _ => hmain⟩
      exact ⟨h.doTryCreateNewConnectionForPool cfg started,
        hw.doTryCreateNewConnectionForPool cfg started h,
        hnew.doTryCreateNewConnectionForPool cfg started h⟩
  | false =>
    have hasync : (s.pool.msgs.msgvec i).isAsynchronous := by
      rw [hi, MessageFlags.isAsynchronous, hflag]
      rfl
    have hr := h.doTryNotifyPoolWaitingConnection
    have hw' := hw.doTryNotifyPoolWaitingConnection h
    have hnew := h.woken_of_notify hasync
    rw [if_neg Bool.false_ne_true]
    split_ifs
    · exact ⟨hr, hw', hnew⟩
    · exact ⟨hr.doTryCreateNewConnectionForPool cfg started,
        hw'.doTryCreateNewConnectionForPool cfg started hr,
        hnew.doTryCreateNewConnectionForPool cfg started hr⟩

theorem Ready.withMsgs (h : s.Ready ex O A C own) {A' C' : List ℕ}
    (hslots : Slots m' s.conns O' A' C' own')
    (hptr : ∀ i ∈ O', (m'.msgvec i).msgbundle.messagePtr.isSome) :
    (s.withMsgs m').Ready ex O' A' C' own' :=
  { h with slots := hslots, ptr := hptr }

theorem Woken.withMsgs (h : s.Woken ex O)
    (hstub : ∀ i ∈ O, (m'.msgvec i).isAsynchronous = (s.pool.msgs.msgvec i).isAsynchronous) :
    (s.withMsgs m').Woken ex O := by
  intro i hi
  obtain ⟨c, hc, hawake, hsync⟩ := h i hi
  exact ⟨c, hc, hawake, fun hnot => hsync ((hstub i hi).symm.trans hnot)⟩

theorem Woken.append (h : s.Woken ex O) (h' : s.Woken ex O') : s.Woken ex (O ++ O') :=
  fun i hi => (mem_append.1 hi).elim (h i) (h' i)

theorem Live.doSendMessage {b : MessageBundle β F} {started ok : Bool} (h : s.Live)
    (hsync : b.messageFlags.synchronous → s.pool.mainConnectionActive ∨
      ∃ c, s.pool.mainConnectionId = some c ∧ (s.conns c).Awake)
    (hsend : s.doSendMessage cfg b cancelable started = some (s', ok)) : s'.Live := by
  obtain ⟨O, A, C, own, hr, hw⟩ := h
  unfold Service.doSendMessage at hsend
  by_cases hrefused : ¬ s.running ∨ b.messagePtr.isNone ∨ s.pool.closing ∨
      s.pool.msgs.isFull cfg.poolMaxMessageQueueSize
  · rw [if_pos hrefused] at hsend
    obtain ⟨rfl, -⟩ := Prod.mk.inj (Option.some.inj hsend)
    exact ⟨O, A, C, own, hr, hw⟩
  rw [if_neg hrefused] at hsend
  obtain ⟨i, m', A', C', hpush, hp, hslots⟩ := hr.slots.pushBackMessage b
  rw [hpush, map_some] at hsend
  obtain ⟨rfl, -⟩ := Prod.mk.inj (Option.some.inj hsend)
  set m := makeCancelable m' i cancelable with hm
  have hbundle : ∀ j, (m.msgvec j).msgbundle = (m'.msgvec j).msgbundle := fun j =>
    makeCancelable_msgbundle m' i j cancelable
  have hold : ∀ j ∈ O, (m.msgvec j).msgbundle = (s.pool.msgs.msgvec j).msgbundle := by
    intro j hj
    rw [hbundle, hp.frame j fun heq => hp.notOrder (heq ▸ hj)]
  have hptr : ∀ j ∈ O ++ [i], (m.msgvec j).msgbundle.messagePtr.isSome := by
    intro j hj
    rcases mem_append.1 hj with hj | hj
    · rw [hold j hj]
      exact hr.ptr j hj
    · rw [mem_singleton.1 hj, hbundle, hp.bundle]
      simp only [not_or] at hrefused
      exact isSome_iff_ne_none.2 fun hnone => hrefused.2.1 (by rw [hnone]; rfl)
  have hr1 : (s.withMsgs m).Ready Nobody (O ++ [i]) A' C' _ :=
    hr.withMsgs (hslots.makeCancelable i cancelable) hptr
  have hw1 : (s.withMsgs m).Woken Nobody O := hw.withMsgs fun j hj => by
    rw [PoolMessages.MessageStub.isAsynchronous, hold j hj]
    rfl
  have hasync : ((s.withMsgs m).pool.msgs.msgvec i).isAsynchronous =
      b.messageFlags.isAsynchronous := by
    have heq : (m.msgvec i).msgbundle = b := by rw [hbundle, hp.bundle]
    exact congrArg (fun b : MessageBundle β F => b.messageFlags.isAsynchronous) heq
  obtain ⟨hr2, hw2, hnew⟩ := hr1.notifySent cfg hw1 hasync hsync (m.messageId i) started
  exact ⟨_, _, _, _, hr2, hw2.append hnew⟩

theorem Live.doSendMessageToConnection {b : MessageBundle β F} {ok : Bool} (h : s.Live)
    (hsend : s.doSendMessageToConnection c b cancelable = some (s', ok)) : s'.Live := by
  obtain ⟨O, A, C, own, hr, hw⟩ := h
  unfold Service.doSendMessageToConnection at hsend
  rw [if_neg (by simp [hr.clientSide])] at hsend
  obtain ⟨i, m', C', hins, hp, hslots, hundone⟩ := hr.slots.insertMessage
    { b with messageFlags := { b.messageFlags with oneShotSend := true } } c
  rw [hins, map_some] at hsend
  have hne : ∀ j ∈ O, j ≠ i := fun j hj heq => hp.notOrder (heq ▸ hj)
  by_cases hc : (s.conns c).alive
  · have hnotify : (s.withMsgs m').notify (some c) (.newConnMessage (m'.messageId i)) =
        ((s.withMsgs m').modifyConn c fun con =>
          { con with events := con.events ++ [.newConnMessage (m'.messageId i)] }, true) :=
      notify_alive (s := s.withMsgs m') hc _
    rw [hnotify] at hsend
    obtain ⟨rfl, -⟩ := Prod.mk.inj (Option.some.inj hsend)
    set m := makeCancelable m' i cancelable with hm
    have hbundle : ∀ j ∈ O, (m.msgvec j).msgbundle = (s.pool.msgs.msgvec j).msgbundle := by
      intro j hj
      rw [hm, makeCancelable_msgbundle, hp.frame j (hne j hj)]
    have hslots1 := hslots (update s.conns c { s.conns c with
      events := (s.conns c).events ++ [.newConnMessage (m'.messageId i)] }) fun c' => by
        rcases eq_or_ne c' c with rfl | hcc
        · rw [update_self, if_pos rfl, Connection.tokens_addEvent]
          exact perm_append_comm.subperm
        · rw [update_of_ne hcc, if_neg hcc]
          exact List.Subperm.refl _
    have hr1 : ((s.withMsgs m).modifyConn c fun con =>
        { con with events := con.events ++ [.newConnMessage (m'.messageId i)] }).Ready Nobody O A C'
          (update own i (.conn c)) := by
      refine hr.update (hslots1.makeCancelable i cancelable) (fun j hj => ?_) rfl (hr.canceled c)
        (fun e he => ?_) (hr.ready c) (fun ha hq => ?_) fun _ _ => id
      · rw [hbundle j hj]
        exact hr.ptr j hj
      · rcases mem_append.1 he with he | he
        · exact .inl he
        · rw [mem_singleton.1 he]
          exact .inr fun id => ⟨nofun, nofun⟩
      · exact (hr.queued c ha hq).imp_right (mem_append_left _)
    have hw1 : (s.withMsgs m).Woken Nobody O := by
      refine hw.withMsgs fun j hj => ?_
      rw [PoolMessages.MessageStub.isAsynchronous, hbundle j hj]
      rfl
    have hw2 : ((s.withMsgs m).modifyConn c fun con =>
        { con with events := con.events ++ [.newConnMessage (m'.messageId i)] }).Woken Nobody O :=
      hw1.modifyConn rfl (fun hawake => hawake.imp_left fun ha => ha.imp_left
        (mem_append_left _)) fun _ _ => id
    exact ⟨O, A, C', _, hr1, hw2⟩
  · have hnotify : (s.withMsgs m').notify (some c) (.newConnMessage (m'.messageId i)) =
        (s.withMsgs m', false) := if_neg hc
    rw [hnotify] at hsend
    obtain ⟨rfl, -⟩ := Prod.mk.inj (Option.some.inj hsend)
    have hstub : ∀ j ∈ O, (m'.clearAndCacheMessage i).msgvec j = s.pool.msgs.msgvec j := by
      intro j hj
      rw [← hp.frame j (hne j hj)]
      exact PoolMessages.modifyStub_of_ne _ _ (hne j hj) _
    refine ⟨O, A, _, _, hr.withMsgs hundone fun j hj => ?_, hw.withMsgs fun j hj => ?_⟩
    · rw [hstub j hj]
      exact hr.ptr j hj
    · rw [hstub j hj]

end Send

/-! ## Steps of a connection -/

section Steps
variable {cfg : PoolConfiguration} {c : ObjectId}

theorem Live.modifyConn (h : s.Live) {f : Connection β F → Connection β F}
    (halive : (f (s.conns c)).alive = (s.conns c).alive)
    (htokens : (f (s.conns c)).tokens.Subperm (s.conns c).tokens)
    (hcanceled : (f (s.conns c)).writer.canceled = 0)
    (hevents : ∀ e ∈ (f (s.conns c)).events, e ∈ (s.conns c).events ∨
      ∀ id, e ≠ .cancelConnMessage id ∧ e ≠ .cancelPoolMessage id)
    (hready : (f (s.conns c)).active → (f (s.conns c)).pollPool ∨ (s.conns c).active ∧
        (f (s.conns c)).pollPool = (s.conns c).pollPool ∧
        (f (s.conns c)).inPoolWaitQueue = (s.conns c).inPoolWaitQueue)
    (hqueued : (f (s.conns c)).inPoolWaitQueue → (s.conns c).inPoolWaitQueue ∧
      (.newPoolMessage ∈ (s.conns c).events → .newPoolMessage ∈ (f (s.conns c)).events))
    (hawake : (s.conns c).Awake → (f (s.conns c)).Awake) : (s.modifyConn c f).Live := by
  obtain ⟨O, A, C, own, hr, hw⟩ := h
  refine ⟨O, A, C, own, hr.modifyConn halive htokens hcanceled hevents (fun ha hact => ?_)
    (fun ha hq => ?_) fun _ _ => id, hw.modifyConn halive (fun hor => hor.imp_left hawake)
    fun _ _ => id⟩
  · rcases hready hact with hpoll | ⟨hact', hpoll, hflag⟩
    · exact .inl hpoll
    · rw [hpoll, hflag]
      exact hr.ready c ha hact'
  · obtain ⟨hflag, hevent⟩ := hqueued hq
    exact (hr.queued c ha hflag).imp_right hevent

theorem Live.canceled (h : s.Live) (c : ObjectId) : (s.conns c).writer.canceled = 0 := by
  obtain ⟨O, A, C, own, hr, -⟩ := h
  exact hr.canceled c

theorem Live.notifyResolve (h : s.Live) (addrvec : List Address) :
    (s.notify (some c) (.resolve addrvec)).1.Live := by
  by_cases hc : (s.conns c).alive
  · obtain ⟨O, A, C, own, hr, hw⟩ := h
    exact ⟨O, A, C, own, hr.notify hc (by simp), hw.notify hc⟩
  · have hnotify : s.notify (some c) (.resolve addrvec) = (s, false) := if_neg hc
    rw [hnotify]
    exact h

theorem Live.modifyMessage (h : s.Live) (k : ℕ) {f : WriterMessage β F → WriterMessage β F}
    (hf : ∀ t, (f t).poolMsgId = t.poolMsgId) :
    (s.modifyConn c fun con => { con with
      writer := { con.writer with messages := con.writer.messages.modify k f } }).Live := by
  refine h.modifyConn rfl ?_ (h.canceled c) (fun e he => .inl he)
    (fun hact => .inr ⟨hact, rfl, rfl⟩) (fun hq => ⟨hq, id⟩) fun hawake => ?_
  · rw [tokens_modify _ k hf]
  · refine hawake.imp_right fun hpoll => hpoll.imp_right fun hmsg => hmsg.imp_left fun hne => ?_
    intro hnil
    refine hne (length_eq_zero_iff.1 ?_)
    rw [← length_modify f _ k]
    exact length_eq_zero_iff.2 hnil

theorem Live.completed (h : s.Live) {k : ℕ} {t : WriterMessage β F}
    (hk : (s.conns c).writer.messages[k]? = some t) (hc : (s.conns c).alive)
    (hmax : 0 < cfg.writer.maxMessageCountMultiplex) :
    ((s.modifyConn c fun con => { con with writer := con.writer.erase k }).completeMessage cfg c
      t.poolMsgId).Live := by
  obtain ⟨O, A, C, own, hr, hw⟩ := h
  obtain ⟨C', own', i, hslots, hi, hother, -⟩ := hr.slots.cacheMessageId hk
  set m' := s.pool.msgs.cacheMessageId t.poolMsgId with hm'
  have hframe : ∀ j ∈ O, m'.msgvec j = s.pool.msgs.msgvec j := fun j hj =>
    hother j fun heq => hi (heq ▸ hj)
  set s1 := (s.withMsgs m').modifyConn c fun con =>
    { con with writer := con.writer.erase k } with hs1
  have hr1 : s1.Ready (· = c) O A C' own' := by
    refine hr.update hslots (fun j hj => ?_) rfl (hr.canceled c) (fun e he => .inl he)
      (fun _ _ => .inr (.inr rfl)) (hr.queued c) fun _ _ => False.elim
    rw [hframe j hj]
    exact hr.ptr j hj
  have hw1 : s1.Woken (· = c) O := by
    refine Woken.modifyConn (s := s.withMsgs m') (hw.withMsgs fun j hj => ?_) rfl
      (fun _ => .inr rfl) fun _ _ => False.elim
    rw [hframe j hj]
  have hc1 : (s1.conns c).alive := by
    rw [hs1, modifyConn_self]
    exact hc
  have hpoll : ∀ s2 : Service β F, s2.pool = s.pool → s2.pollPoolForUpdates cfg c t.poolMsgId =
      ((s2.withMsgs (s2.pool.msgs.cacheMessageId t.poolMsgId)).takeMessages cfg c, false) := by
    intro s2 hs2
    exact pollPoolForUpdates_eq (hs2 ▸ hr.closing) (hs2 ▸ hr.fastClosing)
      (hs2 ▸ hr.mainStopping) c _
  unfold completeMessage
  rw [hpoll (s.modifyConn c fun con => { con with writer := con.writer.erase k }) rfl]
  exact hr1.takeMessages hw1 hc1 hmax

variable {r : Service β F × List (MessageBundle β F × MessageId)}

theorem Live.received (h : s.Live) {request : Option ℕ}
    (hsent : ∀ k ∈ request, ∀ t ∈ (s.conns c).writer.messages[k]?, t.writing = false)
    (hr : s.settleRequest c request = some r) :
    (r.1.modifyConn c fun con => { con with pollPool := true }).Live := by
  have hidle : ∀ s1 : Service β F, s1.Live →
      (s1.modifyConn c fun con => { con with pollPool := true }).Live := fun s1 h1 =>
    h1.modifyConn rfl (List.Subperm.refl _) (h1.canceled c) (fun e he => .inl he)
      (fun _ => .inl rfl) (fun hq => ⟨hq, id⟩) fun _ => .inr (.inl rfl)
  cases request with
  | none =>
    obtain rfl := Option.some.inj hr
    exact hidle s h
  | some k =>
    rw [settleRequest, cancelInWriter] at hr
    cases hk : (s.conns c).writer.messages[k]? with
    | none =>
      have hcancel : (s.conns c).writer.cancelAt k = some (none, (s.conns c).writer) := by
        simp [ConnectionWriter.cancelAt, hk]
      rw [hcancel, map_some] at hr
      obtain rfl := Option.some.inj hr
      refine hidle (s.modifyConn c fun con => { con with writer := (s.conns c).writer }) ?_
      exact h.modifyConn rfl (List.Subperm.refl _) (h.canceled c) (fun e he => .inl he)
        (fun hact => .inr ⟨hact, rfl, rfl⟩) (fun hq => ⟨hq, id⟩) id
    | some t =>
      have hcancel : (s.conns c).writer.cancelAt k = some (some t, (s.conns c).writer.erase k) := by
        simp [ConnectionWriter.cancelAt, hk, hsent k rfl t hk]
      rw [hcancel, map_some] at hr
      obtain rfl := Option.some.inj hr
      simp only [modifyConn_modifyConn]
      refine h.modifyConn rfl ?_ (h.canceled c) (fun e he => .inl he) (fun _ => .inl rfl)
        (fun hq => ⟨hq, id⟩) fun _ => .inr (.inl rfl)
      have hperm := (s.conns c).tokens_erase hk
      exact ((sublist_append_right _ _).subperm).trans hperm.symm.subperm

theorem Live.handleEvent (h : s.Live) {e : ConnectionEvent} {es : List ConnectionEvent}
    (he : (s.conns c).events = e :: es) (hc : (s.conns c).alive)
    (hstop : (s.conns c).stopping = false) (hmax : 0 < cfg.writer.maxMessageCountMultiplex)
    {started : Bool}
    (hr : (s.modifyConn c fun con => { con with events := es }).handleEvent cfg c started
    e = some r) (hstop' : c < r.1.nextId → (r.1.conns c).stopping = false) : r.1.Live := by
  obtain ⟨O, A, C, own, hready, hwoken⟩ := h
  set s1 := s.modifyConn c fun con => { con with events := es } with hs1
  have hself : s1.conns c = { s.conns c with events := es } := modifyConn_self _ _ _
  have htokens : (s.conns c).tokens.Perm (e.messageId?.toList ++
      ({ s.conns c with events := es } : Connection β F).tokens) := (s.conns c).tokens_popEvent he
  have hdrop : ({ s.conns c with events := es } : Connection β F).tokens.Subperm
    (s.conns c).tokens :=
    ((sublist_append_right _ _).subperm).trans htokens.symm.subperm
  have hevents : ∀ e' ∈ es, e' ∈ (s.conns c).events := fun e' he' => he ▸ mem_cons_of_mem e he'
  -- an event that is not about the pool leaves the connection as awake as it was
  have hmem : e ≠ .newPoolMessage → .newPoolMessage ∈ (s.conns c).events →
      .newPoolMessage ∈ es := by
    rw [he, mem_cons]
    exact fun hne hor => hor.resolve_left hne.symm
  have hother : e ≠ .newPoolMessage → s1.Ready Nobody O A C own ∧ s1.Woken Nobody O := by
    intro hne
    refine ⟨hready.modifyConn rfl hdrop (hready.canceled c) (fun e' he' => .inl (hevents e' he'))
      (hready.ready c) (fun ha hq => (hready.queued c ha hq).imp_right (hmem hne)) fun _ _ => id,
      hwoken.modifyConn rfl (fun hor => hor.imp_left fun ha =>
      ha.imp_left (hmem hne)) fun _ _ => id⟩
  cases e with
  | newPoolMessage =>
    rw [Service.handleEvent, if_neg (by simp [hself, hstop])] at hr
    obtain rfl := Option.some.inj hr
    simp only [hs1, modifyConn_modifyConn]
    have hready2 : (s.modifyConn c fun con =>
      { con with events := es, inPoolWaitQueue := false }).Ready
        (· = c) O A C own :=
      hready.modifyConn rfl hdrop (hready.canceled c) (fun e' he' => .inl (hevents e' he'))
        (fun _ _ => .inr (.inr rfl)) (fun _ hq => by cases hq) fun _ _ => False.elim
    have hwoken2 : (s.modifyConn c fun con =>
      { con with events := es, inPoolWaitQueue := false }).Woken
        (· = c) O :=
      hwoken.modifyConn rfl (fun _ => .inr rfl) fun _ _ => False.elim
    exact Live.pollNow hready2 hwoken2 (by rw [modifyConn_self]; exact hc)
      (by rw [modifyConn_self]; exact hstop) hmax
  | newConnMessage id =>
    rw [Service.handleEvent, if_neg (by simp [hself, hstop])] at hr
    have hpending : ({ s.conns c with events := es, pendingMessageVec :=
        (s.conns c).pendingMessageVec ++ [id] } : Connection β F).tokens.Subperm
        (s.conns c).tokens :=
      ((Connection.tokens_addPending { s.conns c with events := es } id).trans htokens.symm).subperm
    obtain ⟨hr1, hw1⟩ := hother nofun
    have hready2 : (s1.modifyConn c fun con =>
        { con with pendingMessageVec := con.pendingMessageVec ++ [id] }).Ready Nobody O A C
        own := by
      rw [hs1, modifyConn_modifyConn]
      exact hready.modifyConn rfl hpending (hready.canceled c) (fun e' he' => .inl (hevents e' he'))
        (hready.ready c) (fun ha hq => (hready.queued c ha hq).imp_right
          (hmem nofun)) fun _ _ h => h
    have hwoken2 : (s1.modifyConn c fun con =>
        { con with pendingMessageVec := con.pendingMessageVec ++ [id] }).Woken Nobody O :=
      hw1.modifyConn rfl (fun hor => hor) fun _ _ hno => hno
    by_cases hraw : (s1.conns c).raw
    · rw [if_pos hraw] at hr
      obtain rfl := Option.some.inj hr
      exact ⟨O, A, C, own, hready2, hwoken2⟩
    · rw [if_neg hraw] at hr
      obtain rfl := Option.some.inj hr
      exact Live.pollNow (hready2.weaken fun _ => False.elim) (hwoken2.weaken fun _ => False.elim)
        (by rw [modifyConn_self, hself]; exact hc)
        (by rw [modifyConn_self, hself]; exact hstop) hmax
  | cancelConnMessage id =>
    exact absurd rfl (hready.events c _ (he ▸ mem_cons_self) id).1
  | cancelPoolMessage id =>
    exact absurd rfl (hready.events c _ (he ▸ mem_cons_self) id).2
  | resolve addrvec =>
    obtain ⟨hr1, hw1⟩ := hother nofun
    rw [Service.handleEvent] at hr
    split_ifs at hr with hempty
    · -- the connection stops
      obtain rfl := Option.some.inj hr
      have hstopped := hstop' (hready.below c hc)
      rw [doStop, modifyConn_self] at hstopped
      cases hstopped
    · obtain rfl := Option.some.inj hr
      exact ⟨O, A, C, own, hr1.forwardResolveMessage cfg started addrvec,
        hw1.forwardResolveMessage cfg started hr1 addrvec⟩
  | stopping =>
    obtain ⟨hr1, hw1⟩ := hother nofun
    obtain rfl := Option.some.inj hr
    exact ⟨O, A, C, own, hr1, hw1⟩

theorem Live.enterActive (h : s.Live) (hc : (s.conns c).alive)
    (hstop : (s.conns c).stopping = false) (started : Bool)
    (hstop' : c < (s.enterActive cfg c started).nextId →
      ((s.enterActive cfg c started).conns c).stopping = false) :
    (s.enterActive cfg c started).Live := by
  obtain ⟨O, A, C, own, hr, hw⟩ := h
  have hactivate : s.activateConnection cfg c started =
      if cfg.poolMaxActiveConnectionCount < s.pool.activeConnectionCount.toNat + 1 then (s, false)
      else ((s.countActive.doTryCreateNewConnectionForPool cfg started).1, true) := by
    rw [activateConnection, if_neg (by simp [hr.mainStopping])]
  unfold Service.enterActive at hstop' ⊢
  rw [if_neg (by simp [hstop]), hactivate] at hstop' ⊢
  by_cases hmany : cfg.poolMaxActiveConnectionCount < s.pool.activeConnectionCount.toNat + 1
  · -- the connection stops
    rw [if_pos hmany, if_neg Bool.false_ne_true, doStop, modifyConn_self] at hstop'
    cases hstop' (hr.below c hc)
  · rw [if_neg hmany, if_pos rfl]
    have hr1 : s.countActive.Ready Nobody O A C own := { hr with }
    have hw1 : s.countActive.Woken Nobody O := hw
    have hlive : (s.countActive.doTryCreateNewConnectionForPool cfg started).1.Live :=
      ⟨O, A, C, own, hr1.doTryCreateNewConnectionForPool cfg started,
        hw1.doTryCreateNewConnectionForPool cfg started hr1⟩
    exact hlive.modifyConn rfl (List.Subperm.refl _) (hlive.canceled c) (fun e he => .inl he)
      (fun _ => .inl rfl) (fun hq => ⟨hq, id⟩) fun _ => .inr (.inl rfl)

theorem Live.enterPassive (h : s.Live) (hc : (s.conns c).alive)
    (hstop : (s.conns c).stopping = false) (hmax : 0 < cfg.writer.maxMessageCountMultiplex) :
    (s.enterPassive cfg c).Live := by
  unfold Service.enterPassive
  by_cases hraw : (s.conns c).raw
  · rw [if_pos hraw]
    have h1 : (s.modifyConn c fun con => { con with raw := false }).Live :=
      h.modifyConn rfl (List.Subperm.refl _) (h.canceled c) (fun e he => .inl he)
        (fun hact => .inr ⟨hact, rfl, rfl⟩) (fun hq => ⟨hq, id⟩) id
    by_cases hempty : (s.conns c).pendingMessageVec.isEmpty
    · rw [if_pos hempty]
      exact h1
    · rw [if_neg hempty]
      obtain ⟨O, A, C, own, hr, hw⟩ := h1
      exact Live.pollNow (hr.weaken fun _ => False.elim) (hw.weaken fun _ => False.elim)
        (by rw [modifyConn_self]; exact hc) (by rw [modifyConn_self]; exact hstop) hmax
  · rw [if_neg hraw]
    exact h

end Steps

end Service

/-! ## Runs -/

/-- The steps of a pool that is not closed and whose connections do not stop: sending,
    delivering events, activating, polling, and what the writer and the reader do. -/
def Action.isQuiet {β F : Type} : Action β F → Bool
  | .cancelMessage _ | .delayClose _ | .forceClose _ | .stop _ | .stopping _ _ _
  | .completeOldest _ | .completePending _ | .stopped _ => false
  | _ => true

namespace Service
variable {β F : Type} {s s' : Service β F} {cfg : PoolConfiguration}

/-- A synchronous message is sent only when the main connection is known to be active, or is
    going to poll; a response is one to a request that was sent to its end. -/
def MainAwake (s : Service β F) : Action β F → Prop
  | .sendMessage b _ _ => b.messageFlags.synchronous = true → s.pool.mainConnectionActive = true ∨
      ∃ c, s.pool.mainConnectionId = some c ∧ (s.conns c).Awake
  | .received c request => ∀ k ∈ request, ∀ t ∈ (s.conns c).writer.messages[k]?, t.writing = false
  | _ => True

instance (s : Service β F) (a : Action β F) : Decidable (s.MainAwake a) :=
  match a with
  | .sendMessage b _ _ => inferInstanceAs (Decidable (b.messageFlags.synchronous = true →
      s.pool.mainConnectionActive = true ∨ ∃ c ∈ s.pool.mainConnectionId, (s.conns c).Awake))
  | .received c request => inferInstanceAs (Decidable
      (∀ k ∈ request, ∀ t ∈ (s.conns c).writer.messages[k]?, t.writing = false))
  | .sendMessageToConnection _ _ _ | .cancelMessage _ | .delayClose _ | .forceClose _
  | .resolved _ _ | .deliver _ _ | .connected _ _ | .enterActive _ _ | .enterPassive _ | .doSend _
  | .startSend _ _ | .sent _ _ | .completed _ _ | .sentCanceled _ | .stop _ | .stopping _ _ _
  | .completeOldest _ | .completePending _ | .stopped _ => isTrue trivial

def NoneStopping (s : Service β F) : Prop := ∀ c < s.nextId, (s.conns c).stopping = false

instance (s : Service β F) : Decidable s.NoneStopping := by
  unfold NoneStopping
  infer_instance

/-- The states that a pool can reach, from its first message on, while no connection stops
    and all steps meet a condition. -/
inductive QuietRun (cfg : PoolConfiguration) (ok : Service β F → Action β F → Prop) :
    Service β F → Prop where
  | start {b : MessageBundle β F} {cancelable started s} :
      b.messagePtr.isSome →
      (initial true).doSendMessageToNewPool cfg b cancelable started = some s →
      QuietRun cfg ok s
  | step {s s' : Service β F} {a : Action β F} {out} :
      QuietRun cfg ok s →
      a.isQuiet = true →
      ok s a →
      s.exec cfg a = some (s', out) →
      s'.NoneStopping →
      QuietRun cfg ok s'

theorem Live.exec {a : Action β F} {out : List (MessageBundle β F × MessageId)} (h : s.Live)
    (hmax : 0 < cfg.writer.maxMessageCountMultiplex) (hstop : s.NoneStopping)
    (hquiet : a.isQuiet) (hok : s.MainAwake a) (hexec : s.exec cfg a = some (s', out))
    (hstop' : s'.NoneStopping) : s'.Live := by
  have hbelow : ∀ c, (s.conns c).alive → c < s.nextId := by
    obtain ⟨O, A, C, own, hr, -⟩ := h
    exact hr.below
  cases exec_step cfg hexec with
  | sendMessage hsend => exact h.doSendMessage hok hsend
  | refused => exact h
  | sendMessageToConnection hb hsend => exact h.doSendMessageToConnection hsend
  | resolved c addrvec => exact h.notifyResolve addrvec
  | deliver hc hevents hhandle =>
    exact h.handleEvent hevents hc (hstop _ (hbelow _ hc)) hmax hhandle (hstop' _)
  | connected hc =>
    exact h.modifyConn rfl (List.Subperm.refl _) (h.canceled _) (fun e he => .inl he)
      (fun hact => .inr ⟨hact, rfl, rfl⟩) (fun hq => ⟨hq, id⟩) id
  | @enterActive c started hc =>
    exact h.enterActive hc (hstop c (hbelow c hc)) started (hstop' c)
  | @enterPassive c hc => exact h.enterPassive hc (hstop c (hbelow c hc)) hmax
  | @doSend c hc => exact h.doSend hc (hstop c (hbelow c hc)) hmax
  | @startSend c k => exact h.modifyMessage k fun _ => rfl
  | @sent c k => exact h.modifyMessage k fun _ => rfl
  | completed hk hc => exact h.completed hk (Bool.and_eq_true_iff.1 hc).1 hmax
  | @sentCanceled c hc =>
    refine h.modifyConn rfl (List.Subperm.refl _) ?_ (fun e he => .inl he)
      (fun hact => .inr ⟨hact, rfl, rfl⟩) (fun hq => ⟨hq, id⟩) id
    exact (congrArg (· - 1) (h.canceled c))
  | received hc hsettle => exact h.received hok hsettle
  | cancelMessage | delayClose | forceClose | stop | stopping | completeOldest | completePending
  | stopped => cases hquiet

/-- The first message of a pool waits for a connection that is not active yet. -/
theorem Live.start {b : MessageBundle β F} {started : Bool} (hb : b.messagePtr.isSome)
    (h : (initial true).doSendMessageToNewPool cfg b cancelable started = some s) :
    s.Live ∧ s.NoneStopping := by
  have hslots0 : Slots (PoolMessages.new : PoolMessages β F) (fun _ => {}) [] [] []
      fun _ => .cache :=
    ⟨PoolMessages.lists_new, by simp, by simp, by simp, fun _ _ hid => absurd hid not_mem_nil,
      fun _ => nodup_nil⟩
  obtain ⟨i, m', A', C', hpush, hp, hslots⟩ := hslots0.pushBackMessage b
  have hpush' : ((initial true : Service β F).pool.msgs.pushBackMessage b) = some (i, m') := hpush
  unfold doSendMessageToNewPool at h
  rw [hpush', bind_some] at h
  unfold doTryCreateNewConnectionForPool at h
  split_ifs at h with hcreate hempty
  rotate_left
  · exact absurd rfl hempty
  · cases h
  obtain rfl := Option.some.inj h
  -- the only connection is the new one
  have hconn : ∀ p : ObjectId → Connection β F → Prop, p 0 { alive := true, events := [] } →
      (∀ c, p c {}) → ∀ c, p c (update (fun _ => ({} : Connection β F)) 0
        { alive := true, events := [] } c) :=
    fun p hnew hall => forall_startConnection (s := initial true) hnew hall
  have hbundle : ((makeCancelable m' i cancelable).msgvec i).msgbundle = b := by
    rw [makeCancelable_msgbundle, hp.bundle]
  refine ⟨⟨[i], A', C', _, ⟨(hslots.makeCancelable i cancelable).congr_tokens ?_, ?_, rfl, rfl, rfl,
    rfl, rfl, ⟨0, rfl, rfl⟩, ?_, ?_, ?_, ?_, ?_, ?_⟩, ?_⟩, ?_⟩
  · exact hconn (fun c con => con.tokens.Subperm _) (List.Subperm.refl _) fun _ =>
      List.Subperm.refl _
  · intro j hj
    obtain rfl := mem_singleton.1 hj
    have hptr : ((makeCancelable m' j cancelable).msgvec j).msgbundle.messagePtr.isSome := by
      rw [hbundle]
      exact hb
    exact hptr
  · exact hconn (fun c con => con.alive → c < 1) (fun _ => zero_lt_one) fun c hc => by
      cases hc
  · exact fun c hc => absurd hc not_mem_nil
  · exact hconn (fun _ con => con.writer.canceled = 0) rfl fun _ => rfl
  · exact hconn (fun _ con => ∀ e ∈ con.events, ∀ id, e ≠ .cancelConnMessage id ∧
      e ≠ .cancelPoolMessage id) (by simp) (by simp)
  · exact hconn (fun c con => con.alive → con.active → con.pollPool ∨
      con.inPoolWaitQueue ∨ Nobody c) (fun _ hact => by cases hact) fun _ _ hact => by cases hact
  · exact hconn (fun c con => con.alive → con.inPoolWaitQueue → c ∈ [] ∨
      .newPoolMessage ∈ con.events) (fun _ hq => by cases hq) fun _ _ hq => by cases hq
  · exact fun j _ => ⟨0, rfl, .inl (.inr (.inr (.inr rfl))), fun _ => rfl⟩
  · exact fun c _ => hconn (fun _ con => con.stopping = false) rfl (fun _ => rfl) c

theorem QuietRun.live (hmax : 0 < cfg.writer.maxMessageCountMultiplex)
    (h : QuietRun cfg MainAwake s) : s.Live ∧ s.NoneStopping := by
  induction h with
  | start hb h => exact Live.start hb h
  | step hrun hquiet hok hexec hstop ih => exact ⟨ih.1.exec hmax ih.2 hquiet hok hexec hstop, hstop⟩

/-- **No lost wake-up** in any state of a pool in which synchronous messages are sent only while
    the main connection is active or going to poll, and responses are those to requests that were
    sent. -/
theorem noLostWakeup_of_run (hmax : 0 < cfg.writer.maxMessageCountMultiplex)
    (h : QuietRun cfg MainAwake s) : s.NoLostWakeup := by
  obtain ⟨⟨O, A, C, own, hr, hw⟩, -⟩ := h.live hmax
  exact hw.noLostWakeup hr.slots.lists

section Check
variable (cfg) (ok : Service β F → Action β F → Prop) [∀ s a, Decidable (ok s a)]

def runQuiet : List (Action β F) → Service β F → Option (Service β F)
  | [], s => some s
  | a :: as, s =>
    if a.isQuiet = true ∧ ok s a then
      (s.exec cfg a).bind fun r => if r.1.NoneStopping then runQuiet as r.1 else none
    else none

theorem QuietRun.of_run {as : List (Action β F)} (h : QuietRun cfg ok s)
    (hrun : runQuiet cfg ok as s = some s') : QuietRun cfg ok s' := by
  induction as generalizing s with
  | nil =>
    obtain rfl := Option.some.inj hrun
    exact h
  | cons a as ih =>
    unfold runQuiet at hrun
    split_ifs at hrun with hquiet
    obtain ⟨⟨s1, out⟩, hexec, hrest⟩ := bind_eq_some_iff.1 hrun
    split_ifs at hrest with hstop
    exact ih (h.step hquiet.1 hquiet.2 hexec hstop) hrest

/-- A run from the first message of a pool on, to a state with a given property. -/
theorem exists_quietRun (b : MessageBundle β F) (as : List (Action β F)) (p : Service β F → Bool)
    (hb : b.messagePtr.isSome)
    (hrun : (((initial true).doSendMessageToNewPool cfg b false true).bind
      (runQuiet cfg ok as)).any p = true) : ∃ s, QuietRun cfg ok s ∧ p s = true := by
  obtain ⟨s, hs, hp⟩ := (Option.any_eq_true _ _).1 hrun
  obtain ⟨s0, hstart, hs⟩ := bind_eq_some_iff.1 hs
  exact ⟨s, QuietRun.of_run cfg ok (.start hb hstart) hs, hp⟩

end Check

def waitingMessage (body : ℕ) (synchronous : Bool) : MessageBundle ℕ ℕ :=
  { messagePtr := some { body := body }, messageFlags := { synchronous := synchronous } }

/-- Two connections take the messages of a pool.  When the response to the first one has come, a
    synchronous and an asynchronous message are sent. -/
theorem noLostWakeup_two_connections :
    ∃ s : Service ℕ ℕ, QuietRun ⟨⟨2, 2, 2, .ok⟩, 2, 2, 8⟩ MainAwake s ∧ s.NoLostWakeup ∧
      s.nextId = 2 ∧ s.pool.msgs.msgorderInnerList.forEach s.pool.msgs.orderLinks = [1, 0] ∧
      (s.pool.msgs.msgvec 0).isAsynchronous = false := by
  obtain ⟨s, hrun, hp⟩ := exists_quietRun ⟨⟨2, 2, 2, .ok⟩, 2, 2, 8⟩ MainAwake
    { messagePtr := some { body := 0 }, messageFlags := { waitResponse := true } }
    [.sendMessage (waitingMessage 1 true) false true,
      .sendMessage (waitingMessage 2 false) false true, .enterActive 0 true, .doSend 0,
      .enterActive 1 true, .doSend 1, .completed 1 0, .startSend 0 0, .sent 0 0,
      .received 0 (some 0), .sendMessage (waitingMessage 3 true) false true,
      .sendMessage (waitingMessage 4 false) false true]
    (fun s : Service ℕ ℕ => decide (s.nextId = 2 ∧
      s.pool.msgs.msgorderInnerList.forEach s.pool.msgs.orderLinks = [1, 0] ∧
      (s.pool.msgs.msgvec 0).isAsynchronous = false)) rfl (by decide +kernel)
  exact ⟨s, hrun, noLostWakeup_of_run (by decide) hrun, of_decide_eq_true hp⟩

/-- The first connection of a pool is activated and has sent its message, when a synchronous
    message is sent: it is notified by nobody, and the message stays in the pool. -/
theorem synchronous_message_lost :
    ∃ s : Service ℕ ℕ, QuietRun ⟨⟨1, 1, 1, .ok⟩, 1, 1, 8⟩ (fun _ _ => True) s ∧
      ¬ s.NoLostWakeup := by
  obtain ⟨s, hrun, hp⟩ := exists_quietRun ⟨⟨1, 1, 1, .ok⟩, 1, 1, 8⟩ (fun _ _ => True)
    { messagePtr := some { body := 0 } }
    [.enterActive 0 true, .doSend 0, .completed 0 0,
      .sendMessage (waitingMessage 1 true) false true]
    (fun s : Service ℕ ℕ => decide
      (s.pool.msgs.msgorderInnerList.forEach s.pool.msgs.orderLinks = [0] ∧
      (s.pool.msgs.msgvec 0).isAsynchronous = false ∧ s.pool.mainConnectionId = some 0 ∧
      (s.conns 0).events = [] ∧ (s.conns 0).pollPool = false ∧
      (s.conns 0).writer.messages.isEmpty ∧ (s.conns 0).active)) rfl
    (by decide +kernel)
  obtain ⟨hlist, hsync, hmain, hevents, hpoll, hempty, hactive⟩ := of_decide_eq_true hp
  refine ⟨s, hrun, fun h => ?_⟩
  obtain ⟨c, -, hawake, hc⟩ := h 0 (by rw [hlist]; exact mem_cons_self)
  obtain rfl : 0 = c := Option.some.inj (hmain.symm.trans (hc hsync))
  rcases hawake with hevent | hflag | hmessages | hpending
  · rw [hevents] at hevent
    exact absurd hevent not_mem_nil
  · exact absurd (hpoll.symm.trans hflag) (by decide)
  · exact hmessages (isEmpty_iff.1 hempty)
  · exact absurd (hactive.symm.trans hpending) (by decide)

end Service

end SolidFrame
