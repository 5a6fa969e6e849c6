/-
  SolidFrame formalization — one-shot messages are cleaned
  (`Service::doMainConnectionStoppingCleanOneShot` in
  `solid/frame/mpipc/src/mpipcservice.cpp`).

  When the last connection of a pool stops, it walks through the order list and hands out
  the one-shot messages, which no other connection shall send.  Between two calls of
  `connectionStopping` the place in the list is kept in the event context, as the index of a
  stub; meanwhile messages are sent, canceled, and events are delivered.
-/
import SolidFrame.Lib.ListCursor
import SolidFrame.Mpipc.PoolTidy
import SolidFrame.Mpipc.ServiceSlots

namespace SolidFrame

open List Option PoolMessages Service

/-! ## The phase -/

/-- `Message::is_one_shot`, for a stub that holds a message. -/
def PoolMessages.MessageStub.isOneShot {β F : Type} (stub : MessageStub β F) : Bool :=
  stub.msgbundle.messagePtr.isSome && stub.msgbundle.messageFlags.oneShotSend

/-- A pool that is cleaned, and what has become of the messages that were in the order list
    at the start: they are still there, were handed out, or were canceled. -/
structure Cleaning (β F : Type) where
  service : Service β F
  left : List ℕ
  handed : List ℕ := []
  canceled : List ℕ := []

/-- The steps during the phase: those of the connection `c` that stops, and requests. -/
def Action.isCleaning {β F : Type} (c : ObjectId) : Action β F → Bool
  | .sendMessage _ _ _ => true
  | .cancelMessage _ => true
  | .deliver c' _ => c' == c
  | .stopping c' _ _ => c' == c
  | _ => false

theorem ConnectionWriter.cancelAt_some {β F : Type} {v v' : ConnectionWriter β F} {k : ℕ}
    {r : Option (WriterMessage β F)} (h : v.cancelAt k = some (r, v')) :
    v'.messages.Sublist v.messages := by
  unfold ConnectionWriter.cancelAt at h
  cases hk : v.messages[k]? with
  | none =>
    rw [hk] at h
    obtain ⟨-, rfl⟩ := Prod.mk.inj (Option.some.inj h)
    exact List.Sublist.refl _
  | some t =>
    have hmessages : v'.messages = v.messages.eraseIdx k := by
      simp only [hk] at h
      split_ifs at h <;> obtain ⟨-, rfl⟩ := Prod.mk.inj (Option.some.inj h) <;> rfl
    rw [hmessages]
    exact eraseIdx_sublist _ _

namespace Service
variable {β F : Type} (s : Service β F)

def orderList : List ℕ := s.pool.msgs.msgorderInnerList.forEach s.pool.msgs.orderLinks

def canceledBy : Action β F → Option ℕ
  | .cancelMessage id => (s.pool.msgs.find id).filter fun i =>
      !(s.pool.msgs.msgvec i).msgbundle.messageFlags.canceled &&
        ((s.pool.msgs.msgvec i).objid.isSome || (s.pool.msgs.msgvec i).msgbundle.messagePtr.isSome)
  | _ => none

def handedBy (out : List (MessageBundle β F × MessageId)) : Action β F → Option ℕ
  | .stopping _ _ _ => out.head?.bind fun p => p.2.index
  | .deliver c _ =>
    ((s.conns c).events.head?.bind ConnectionEvent.messageId?).bind s.pool.msgs.find
  | _ => none

/-- The last connection `c` has entered the phase. -/
structure StartsCleaning (c : ObjectId) : Prop where
  tidy : ∃ O A C, s.pool.msgs.Tidy O A C
  main : s.pool.mainConnectionId = some c
  cleaning : s.pool.cleanOneShotMessages = true
  alive : (s.conns c).alive = true
  stopping : (s.conns c).stopping = true
  started : c < s.nextId
  cursor : (s.conns c).stopContext = some s.pool.msgs.msgorderInnerList.front
  /-- `doFetchResendableMessagesFromConnection` was called -/
  writer : ∀ t ∈ (s.conns c).writer.messages, t.msgbundle.messageFlags.isResendable = false

/-- The condition for a step, on the state before it: no message is canceled in the pool that
    the cursor is at, or that is in the lists though a connection is noted in its stub; and no
    event is delivered that frees a stub of a list. -/
def cleanOk (c : ObjectId) : Action β F → Bool
  | .cancelMessage id =>
    match s.pool.msgs.find id with
    | none => true
    | some i =>
      (s.pool.msgs.msgvec i).msgbundle.messageFlags.canceled ||
        if (s.pool.msgs.msgvec i).objid.isSome then !s.pool.msgs.isLinked i
        else (s.conns c).stopContext != some (some i)
  | .deliver c' _ =>
    match ((s.conns c').events.head?.bind ConnectionEvent.messageId?).bind s.pool.msgs.find with
    | none => true
    | some i => !s.pool.msgs.isLinked i
  | _ => true

end Service

namespace Cleaning
variable {β F : Type} (g : Cleaning β F)

def start (s : Service β F) : Cleaning β F := ⟨s, s.orderList.reverse, [], []⟩

def handOut (i : ℕ) : Cleaning β F :=
  if i ∈ g.left then { g with left := g.left.erase i, handed := g.handed ++ [i] } else g

def cancel (i : ℕ) : Cleaning β F :=
  if i ∈ g.left then { g with left := g.left.erase i, canceled := g.canceled ++ [i] } else g

def next (a : Action β F) (r : Service β F × List (MessageBundle β F × MessageId)) : Cleaning β F :=
  let g₁ := (g.service.canceledBy a).elim g g.cancel
  { (g.service.handedBy r.2 a).elim g₁ g₁.handOut with service := r.1 }

end Cleaning

/-- The runs of the phase, up to its end. -/
inductive CleanRun {β F : Type} (cfg : PoolConfiguration) (ok : Service β F → Action β F → Bool)
    (c : ObjectId) (s₀ : Service β F) : Cleaning β F → Prop where
  | start : CleanRun cfg ok c s₀ (.start s₀)
  | step {g : Cleaning β F} {a : Action β F} {r} :
      CleanRun cfg ok c s₀ g →
      g.service.pool.cleanOneShotMessages = true →
      a.isCleaning c = true →
      ok g.service a = true →
      g.service.exec cfg a = some r →
      CleanRun cfg ok c s₀ (g.next a r)

/-- What a step does to the order list and the asynchronous list: nothing, or one message is
    added at the back, or one that is in them is removed. -/
inductive ListStep {β F : Type} (m : PoolMessages β F) (O A : List ℕ) : List ℕ → List ℕ → Prop where
  | keep : ListStep m O A O A
  | push {i} (hi : i ∉ O) (async : Bool) :
      ListStep m O A (O ++ [i]) (if async then A ++ [i] else A)
  | remove {i} :
      i ∈ O →
      ((m.msgvec i).isAsynchronous = true ↔ i ∈ A) →
      ListStep m O A (O.erase i) (A.erase i)

/-! ## What does not touch the connection that stops -/

/-- The connection stops as before.  It may have other events, and fewer messages in its
    writer. -/
structure Connection.SameStop {β F : Type} (con con' : Connection β F) : Prop where
  alive : con'.alive = con.alive
  stopping : con'.stopping = con.stopping
  stopContext : con'.stopContext = con.stopContext
  writer : con'.writer.messages ⊆ con.writer.messages

theorem Connection.SameStop.refl {β F : Type} (con : Connection β F) : con.SameStop con :=
  ⟨rfl, rfl, rfl, List.Subset.refl _⟩

namespace Service
variable {β F : Type} {cfg : PoolConfiguration} {s s' s'' : Service β F} {c : ObjectId}

/-- The pool keeps its messages, and the connection `c` stops as before. -/
structure Aside (c : ObjectId) (s s' : Service β F) : Prop where
  main : s.pool.mainConnectionId = some c → s'.pool.mainConnectionId = some c
  cleaning : s'.pool.cleanOneShotMessages = s.pool.cleanOneShotMessages
  msgs : s'.pool.msgs = s.pool.msgs
  nextId : s.nextId ≤ s'.nextId
  conn : c < s.nextId → (s.conns c).SameStop (s'.conns c)

namespace Aside

theorem refl (c : ObjectId) (s : Service β F) : Aside c s s :=
  ⟨id, rfl, rfl, le_rfl, fun _ => .refl _⟩

theorem trans (h : Aside c s s') (h' : Aside c s' s'') : Aside c s s'' := by
  refine ⟨h'.main ∘ h.main, h'.cleaning.trans h.cleaning, h'.msgs.trans h.msgs,
    h.nextId.trans h'.nextId, fun hc => ?_⟩
  have h1 := h.conn hc
  have h2 := h'.conn (hc.trans_le h.nextId)
  exact ⟨h2.alive.trans h1.alive, h2.stopping.trans h1.stopping,
    h2.stopContext.trans h1.stopContext, fun t ht => h1.writer (h2.writer ht)⟩

theorem withPool {f : ConnectionPool β F → ConnectionPool β F}
    (hmain : (f s.pool).mainConnectionId = s.pool.mainConnectionId)
    (hcleaning : (f s.pool).cleanOneShotMessages = s.pool.cleanOneShotMessages)
    (hmsgs : (f s.pool).msgs = s.pool.msgs) : Aside c s (s.withPool f) :=
  ⟨fun h => hmain.trans h, hcleaning, hmsgs, le_rfl, fun _ => .refl _⟩

theorem modifyConn {c' : ObjectId} {f : Connection β F → Connection β F}
    (hf : (s.conns c').SameStop (f (s.conns c'))) : Aside c s (s.modifyConn c' f) :=
  ⟨id, rfl, rfl, le_rfl, fun _ =>
    forall_modifyConn (p := fun c con => (s.conns c).SameStop con) hf (fun _ _ => .refl _) c⟩

theorem startConnection (s : Service β F) (events : List ConnectionEvent) :
    Aside c s (s.startConnection events) := by
  refine ⟨id, rfl, rfl, Nat.le_succ _, fun hc => ?_⟩
  have hconn : (s.startConnection events).conns c = s.conns c :=
    Function.update_of_ne hc.ne _ _
  rw [hconn]
  exact .refl _

theorem kept : KeptByStarts (fun _ => True) (Aside c s) where
  notice := trivial
  event h _ := h.trans (modifyConn ⟨rfl, rfl, rfl, List.Subset.refl _⟩)
  waiting _ h := h.trans (withPool rfl rfl rfl)
  start h _ := h.trans (startConnection _ _)
  addresses _ _ h := by
    refine h.trans ⟨fun hmain => ?_, rfl, rfl, le_rfl, fun _ => .refl _⟩
    show Option.or _ _ = some c
    rw [hmain, some_or]

end Aside

structure Cleaner (s : Service β F) (c : ObjectId) : Prop where
  main : s.pool.mainConnectionId = some c
  alive : (s.conns c).alive = true
  stopping : (s.conns c).stopping = true
  started : c < s.nextId
  writer : ∀ t ∈ (s.conns c).writer.messages, t.msgbundle.messageFlags.isResendable = false

theorem Cleaner.aside (h : s.Cleaner c) (ha : Aside c s s') : s'.Cleaner c := by
  have hconn := ha.conn h.started
  exact ⟨ha.main h.main, hconn.alive.trans h.alive, hconn.stopping.trans h.stopping,
    h.started.trans_le ha.nextId, fun t ht => h.writer t (hconn.writer ht)⟩

theorem Cleaner.withMsgs (h : s.Cleaner c) (m : PoolMessages β F) : (s.withMsgs m).Cleaner c :=
  ⟨h.main, h.alive, h.stopping, h.started, h.writer⟩

theorem stopContext_modifyConn (s : Service β F) (c : ObjectId) (cur : Option ℕ) :
    ((s.modifyConn c fun con => { con with stopContext := some cur }).conns c).stopContext =
      some cur := by
  rw [modifyConn_self]

theorem Cleaner.withContext (h : s.Cleaner c) (cur : Option ℕ) :
    (s.modifyConn c fun con => { con with stopContext := some cur }).Cleaner c := by
  have hself : (s.modifyConn c fun con => { con with stopContext := some cur }).conns c =
      { s.conns c with stopContext := some cur } := modifyConn_self _ _ _
  refine ⟨h.main, ?_, ?_, h.started, ?_⟩
  · rw [hself]
    exact h.alive
  · rw [hself]
    exact h.stopping
  · rw [hself]
    exact h.writer

theorem Cleaner.fetch (h : s.Cleaner c) :
    ∃ s', s.doFetchResendableMessagesFromConnection c = some s' ∧ Aside c s s' := by
  have hnone : ((s.conns c).writer.messages.filter
      fun t => t.msgbundle.messageFlags.isResendable) = [] := by
    refine filter_eq_nil_iff.2 fun t ht => ?_
    simp [h.writer t ht]
  unfold doFetchResendableMessagesFromConnection
  dsimp only
  rw [hnone, foldlM_nil]
  have hmsgs : Aside c s (s.withMsgs s.pool.msgs) := .withPool rfl rfl rfl
  exact ⟨_, rfl, hmsgs.trans (.modifyConn ⟨rfl, rfl, rfl, filter_subset_self _⟩)⟩

end Service

/-! ## What every step keeps -/

/-- **The sweep.**  The messages of the start that are left are the first of the order list, in
    their order, and the one-shot ones among them are still before the cursor. -/
structure Sweeping {β F : Type} (c : ObjectId) (s₀ : Service β F) (g : Cleaning β F)
    (O A C : List ℕ) : Prop where
  tidy : g.service.pool.msgs.Tidy O A C
  cleaner : g.service.Cleaner c
  left : ∃ sent, O = g.left ++ sent
  bundles : ∀ i ∈ g.left,
    (g.service.pool.msgs.msgvec i).msgbundle = (s₀.pool.msgs.msgvec i).msgbundle
  swept : g.service.pool.cleanOneShotMessages = true →
    ∃ cur, (g.service.conns c).stopContext = some cur ∧
      Swept (fun i => (s₀.pool.msgs.msgvec i).isOneShot = true) g.left O cur
  done : g.service.pool.cleanOneShotMessages = false →
    ∀ i ∈ g.left, ¬ (s₀.pool.msgs.msgvec i).isOneShot = true
  share : (g.handed ++ g.canceled ++ g.left).Perm s₀.orderList.reverse
  order : g.left.Sublist s₀.orderList.reverse
  only : ∀ i ∈ g.handed, (s₀.pool.msgs.msgvec i).isOneShot = true ∨
    (s₀.pool.msgs.msgvec i).msgbundle.messagePtr = none

namespace Cleaning
variable {β F : Type} (g : Cleaning β F) (i : ℕ)

theorem handOut_left : (g.handOut i).left = g.left.erase i := by
  unfold handOut
  split_ifs with hi
  · rfl
  · exact (erase_of_not_mem hi).symm

theorem cancel_left : (g.cancel i).left = g.left.erase i := by
  unfold cancel
  split_ifs with hi
  · rfl
  · exact (erase_of_not_mem hi).symm

theorem handOut_of_notMem {i : ℕ} (hi : i ∉ g.left) : g.handOut i = g := if_neg hi

theorem cancel_of_notMem {i : ℕ} (hi : i ∉ g.left) : g.cancel i = g := if_neg hi

theorem handOut_share : ((g.handOut i).handed ++ (g.handOut i).canceled ++ (g.handOut i).left).Perm
    (g.handed ++ g.canceled ++ g.left) := by
  unfold handOut
  split_ifs with hi
  · refine List.Perm.trans ?_ ((perm_cons_erase hi).symm.append_left _)
    rw [append_assoc g.handed, append_assoc g.handed, append_assoc g.handed]
    refine List.Perm.append_left _ ?_
    rw [singleton_append, cons_append]
    exact perm_middle.symm
  · exact .refl _

theorem cancel_share : ((g.cancel i).handed ++ (g.cancel i).canceled ++ (g.cancel i).left).Perm
    (g.handed ++ g.canceled ++ g.left) := by
  unfold cancel
  split_ifs with hi
  · refine List.Perm.trans ?_ ((perm_cons_erase hi).symm.append_left _)
    simp only [append_assoc, singleton_append]
    exact .refl _
  · exact .refl _

end Cleaning

namespace Sweeping
variable {β F : Type} {cfg : PoolConfiguration} {c : ObjectId} {s₀ s' : Service β F}
  {g g' : Cleaning β F} {O A C C' : List ℕ} {i : ℕ}

section
variable (h : Sweeping c s₀ g O A C)
include h

theorem notMem_left (hi : i ∉ O) : i ∉ g.left := by
  obtain ⟨sent, hO⟩ := h.left
  exact fun hmem => hi (hO ▸ mem_append_left _ hmem)

theorem keep (ha : Aside c g.service s') :
    Sweeping c s₀ { g with service := s' } O A C := by
  have hconn := ha.conn h.cleaner.started
  exact {
    tidy := ha.msgs ▸ h.tidy
    cleaner := h.cleaner.aside ha
    left := h.left
    bundles := ha.msgs ▸ h.bundles
    swept := fun hphase => by
      obtain ⟨cur, hcur, hswept⟩ := h.swept (ha.cleaning ▸ hphase)
      exact ⟨cur, hconn.stopContext.trans hcur, hswept⟩
    done := fun hphase => h.done (ha.cleaning ▸ hphase)
    share := h.share
    order := h.order
    only := h.only }

theorem withMsgs {m : PoolMessages β F} (htidy : m.Tidy O A C')
    (hbundles : ∀ i ∈ O, (m.msgvec i).msgbundle = (g.service.pool.msgs.msgvec i).msgbundle) :
    Sweeping c s₀ { g with service := g.service.withMsgs m } O A C' :=
  { h with
    tidy := htidy
    cleaner := h.cleaner.withMsgs m
    bundles := fun i hi => by
      obtain ⟨sent, hO⟩ := h.left
      exact (hbundles i (hO ▸ mem_append_left _ hi)).trans (h.bundles i hi) }

theorem erase (hleft : g'.left = g.left.erase i)
    (hshare : (g'.handed ++ g'.canceled ++ g'.left).Perm (g.handed ++ g.canceled ++ g.left))
    (honly : ∀ j ∈ g'.handed, j ∈ g.handed ∨ (s₀.pool.msgs.msgvec j).isOneShot ∨
      (s₀.pool.msgs.msgvec j).msgbundle.messagePtr = none)
    (htidy : g'.service.pool.msgs.Tidy (O.erase i) (A.erase i) C')
    (hcleaner : g'.service.Cleaner c)
    (hframe : ∀ j, j ≠ i → (g'.service.pool.msgs.msgvec j).msgbundle =
      (g.service.pool.msgs.msgvec j).msgbundle)
    (hphase : g'.service.pool.cleanOneShotMessages) {cur : Option ℕ}
    (hcur : (g'.service.conns c).stopContext = some cur)
    (hswept : Swept (fun i => (s₀.pool.msgs.msgvec i).isOneShot) (g.left.erase i)
      (O.erase i) cur) :
    Sweeping c s₀ g' (O.erase i) (A.erase i) C' := by
  obtain ⟨sent, hO⟩ := h.left
  refine
    { tidy := htidy
      cleaner := hcleaner
      left := ?_
      bundles := fun j hj => ?_
      swept := fun _ => ⟨cur, hcur, hleft ▸ hswept⟩
      done := fun hfalse => by rw [hphase] at hfalse; cases hfalse
      share := hshare.trans h.share
      order := hleft ▸ erase_sublist.trans h.order
      only := fun j hj => (honly j hj).elim (h.only j) id }
  · rw [hleft, hO]
    by_cases hi : i ∈ g.left
    · exact ⟨sent, erase_append_left _ hi⟩
    · refine ⟨sent.erase i, ?_⟩
      rw [erase_append_right _ hi, erase_of_not_mem hi]
  · have hnodup : g.left.Nodup := h.tidy.order.nodup.sublist (hO ▸ sublist_append_left _ _)
    rw [hleft, hnodup.mem_erase_iff] at hj
    exact (hframe j hj.1).trans (h.bundles j hj.2)

/-! ## Requests -/

variable {r : Service β F × List (MessageBundle β F × MessageId)} {started : Bool} {id : MessageId}

theorem doSendMessage {b : MessageBundle β F} {cancelable : Bool} {r : Service β F × Bool}
    (hsend : g.service.doSendMessage cfg b cancelable started = some r) :
    ∃ O' A' C', Sweeping c s₀ { g with service := r.1 } O' A' C' ∧
      ListStep g.service.pool.msgs O A O' A' := by
  unfold Service.doSendMessage at hsend
  split_ifs at hsend
  · cases hsend
    exact ⟨O, A, C, h, .keep⟩
  · obtain ⟨i, m, C', hpush, htidy, hp⟩ := h.tidy.pushBackMessage b
    rw [hpush, map_some] at hsend
    cases hsend
    refine ⟨_, _, C', keep (g := { g with
      service := g.service.withMsgs (Service.makeCancelable m i cancelable) }) ?_
      (Service.Aside.kept.notifySent cfg (.refl c _) (fun _ _ => trivial) started),
      .push hp.notOrder b.messageFlags.isAsynchronous⟩
    have htidy' : (Service.makeCancelable m i cancelable).Tidy (O ++ [i])
        (if b.messageFlags.isAsynchronous then A ++ [i] else A) C' := by
      cases cancelable
      · exact htidy
      · exact htidy.modifyStub (f := fun stub => { stub with cancelable := true }) rfl hp.notCache
    obtain ⟨sent, hO⟩ := h.left
    exact { h with
      tidy := htidy'
      cleaner := h.cleaner.withMsgs _
      left := ⟨sent ++ [i], by rw [hO, List.append_assoc]⟩
      bundles := fun j hj => by
        have hne : j ≠ i := fun heq => h.notMem_left hp.notOrder (heq ▸ hj)
        show ((Service.makeCancelable m i cancelable).msgvec j).msgbundle = _
        rw [Service.makeCancelable_msgbundle, hp.frame j hne]
        exact h.bundles j hj
      swept := fun hphase => by
        obtain ⟨cur, hcur, hswept⟩ := h.swept hphase
        exact ⟨cur, hcur, hswept.append [i]⟩ }

theorem cancelPoolMessage (hphase : g.service.pool.cleanOneShotMessages)
    (hptr : (g.service.pool.msgs.msgvec i).msgbundle.messagePtr.isSome)
    (hcur : (g.service.conns c).stopContext ≠ some (some i)) :
    ∃ O' A' C', Sweeping c s₀ { g.cancel i with service := g.service.cancelPoolMessage i id }
      O' A' C' ∧ ListStep g.service.pool.msgs O A O' A' := by
  have hC : i ∉ C := by
    intro hC
    rw [(h.tidy.cleared i hC).1] at hptr
    cases hptr
  set m := g.service.pool.msgs.modifyStub i fun stub =>
    { stub with msgbundle := stub.msgbundle.setCanceled } with hm
  have htidy : m.Tidy O A C := h.tidy.modifyStub rfl hC
  have hframe : ∀ j, j ≠ i → m.msgvec j = g.service.pool.msgs.msgvec j := fun j hj =>
    PoolMessages.modifyStub_of_ne _ _ hj _
  have hnotify := Service.notify_alive (s := g.service.withMsgs m) h.cleaner.alive
    (.cancelPoolMessage id)
  have haside := Service.Aside.kept.notify (.refl c (g.service.withMsgs m)) (some c)
    (e := .cancelPoolMessage id) trivial
  rw [hnotify] at haside
  have hservice : g.service.cancelPoolMessage i id =
      if m.msgorderInnerList.contains m.orderLinks i then
        ((g.service.withMsgs m).modifyConn c fun con =>
          { con with events := con.events ++ [.cancelPoolMessage id] }).withMsgs
          (m.unlink i (m.msgvec i).isAsynchronous)
      else (g.service.withMsgs m).modifyConn c fun con =>
        { con with events := con.events ++ [.cancelPoolMessage id] } := by
    simp [Service.cancelPoolMessage, h.cleaner.main, ← hm, hnotify]
  rw [hservice]
  by_cases hO : i ∈ O
  · rw [if_pos ((htidy.contains_iff hC).2 hO)]
    obtain ⟨cur, hcur', hswept⟩ := h.swept hphase
    refine ⟨_, _, C, ?_, .remove hO (h.tidy.flags i hO)⟩
    refine h.erase (g.cancel_left i) (g.cancel_share i) (fun j hj => .inl ?_) (htidy.unlink hO)
      ((h.cleaner.withMsgs m |>.aside haside).withMsgs _) (fun j hj => ?_) hphase
      (haside.conn h.cleaner.started |>.stopContext.trans hcur') (hswept.erase ?_)
    · unfold Cleaning.cancel at hj
      split_ifs at hj <;> exact hj
    · show ((m.unlink i (m.msgvec i).isAsynchronous).msgvec j).msgbundle = _
      rw [PoolMessages.unlink_msgvec, hframe j hj]
    · intro heq
      exact hcur (heq ▸ hcur')
  · rw [if_neg fun hcontains => hO ((htidy.contains_iff hC).1 hcontains),
      g.cancel_of_notMem (h.notMem_left hO)]
    have hmsgs : Sweeping c s₀ { g with service := g.service.withMsgs m } O A C := by
      refine h.withMsgs htidy fun j hj => ?_
      rw [hframe j fun heq => hO (heq ▸ hj)]
    exact ⟨O, A, C, hmsgs.keep haside, .keep⟩

theorem cancelConnMessage (hlt : i < g.service.pool.msgs.vecSize)
    (hlinked : g.service.pool.msgs.isLinked i = false) {id : Option ObjectId}
    {e : ConnectionEvent} :
    ∃ O' A' C', Sweeping c s₀ { g.cancel i with
      service :=
        if (g.service.notify id e).2 then
          (g.service.notify id e).1.withMsgs (g.service.pool.msgs.clearAndCacheMessage i)
        else
          g.service.withMsgs (g.service.pool.msgs.modifyStub i fun stub =>
            { stub with msgbundle := stub.msgbundle.setCanceled, msgid := {}, objid := none }) }
      O' A' C' ∧ ListStep g.service.pool.msgs O A O' A' := by
  obtain ⟨hO, hC⟩ := h.tidy.notMem_of_isLinked hlinked
  rw [g.cancel_of_notMem (h.notMem_left hO)]
  split_ifs
  · have haside := Aside.kept.notify (.refl c g.service) id (e := e) trivial
    refine ⟨O, A, C ++ [i], (h.keep haside).withMsgs (h.tidy.clearAndCacheMessage hO hC hlt)
      fun j hj => ?_, .keep⟩
    show _ = ((g.service.notify id e).1.pool.msgs.msgvec j).msgbundle
    rw [haside.msgs, clearAndCacheMessage_of_ne fun heq : j = i => hO (heq ▸ hj)]
  · refine ⟨O, A, C, h.withMsgs (h.tidy.modifyStub rfl hC) fun j hj => ?_, .keep⟩
    rw [modifyStub_of_ne _ _ fun heq : j = i => hO (heq ▸ hj)]

theorem cancelMessage (hphase : g.service.pool.cleanOneShotMessages)
    (hok : g.service.cleanOk c (.cancelMessage id)) :
    ∃ O' A' C', Sweeping c s₀ (g.next (.cancelMessage id) (g.service.cancelMessage id, []))
      O' A' C' ∧ ListStep g.service.pool.msgs O A O' A' := by
  have hnext : g.next (.cancelMessage id) (g.service.cancelMessage id, []) =
      { (g.service.canceledBy (.cancelMessage id)).elim g g.cancel with
        service := g.service.cancelMessage id } := rfl
  rw [hnext, Service.canceledBy]
  rw [Service.cleanOk] at hok
  unfold Service.cancelMessage
  cases hfind : g.service.pool.msgs.find id with
  | none => exact ⟨O, A, C, h, .keep⟩
  | some i =>
    rw [hfind] at hok
    dsimp only at hok ⊢
    rw [filter_some]
    by_cases hcanceled : (g.service.pool.msgs.msgvec i).msgbundle.messageFlags.canceled
    · rw [if_pos hcanceled]
      simp only [hcanceled]
      exact ⟨O, A, C, h, .keep⟩
    · rw [if_neg hcanceled]
      rw [Bool.eq_false_iff.2 hcanceled] at hok ⊢
      rw [Bool.false_or] at hok
      rw [Bool.not_false, Bool.true_and]
      by_cases hobjid : (g.service.pool.msgs.msgvec i).objid.isSome
      · rw [if_pos hobjid] at hok
        rw [if_pos hobjid, hobjid, Bool.true_or, if_pos rfl]
        exact h.cancelConnMessage (PoolMessages.find_eq_some.1 hfind).2.1 (by simpa using hok)
      · rw [if_neg hobjid] at hok
        rw [if_neg hobjid, Bool.eq_false_iff.2 hobjid, Bool.false_or]
        by_cases hptr : (g.service.pool.msgs.msgvec i).msgbundle.messagePtr.isSome
        · rw [if_pos hptr, if_pos hptr]
          exact h.cancelPoolMessage hphase hptr (by simpa using hok)
        · rw [if_neg hptr, if_neg hptr]
          exact ⟨O, A, C, h, .keep⟩

/-! ## Events -/

theorem completeFetched (hlinked : ∀ i, g.service.pool.msgs.find id = some i →
      g.service.pool.msgs.isLinked i = false) :
    ∃ C', Sweeping c s₀ { g with service := (g.service.completeFetched id).1 } O A C' := by
  unfold Service.completeFetched Service.fetchCanceledMessage
  cases hfind : g.service.pool.msgs.find id with
  | none => exact ⟨C, h⟩
  | some i =>
    obtain ⟨hO, hC⟩ := h.tidy.notMem_of_isLinked (hlinked i hfind)
    have hlt := (PoolMessages.find_eq_some.1 hfind).2.1
    refine ⟨C ++ [i], h.withMsgs (h.tidy.clearAndCacheMessage hO hC hlt) fun j hj => ?_⟩
    rw [PoolMessages.clearAndCacheMessage_of_ne fun heq : j = i => hO (heq ▸ hj)]

theorem handleEvent {e : ConnectionEvent}
    (hlinked : ∀ i, e.messageId?.bind g.service.pool.msgs.find = some i →
      g.service.pool.msgs.isLinked i = false)
    (hhandle : g.service.handleEvent cfg c started e = some r) :
    ∃ C', Sweeping c s₀ { g with service := r.1 } O A C' := by
  have hstop := h.cleaner.stopping
  cases e with
  | newPoolMessage =>
    simp only [Service.handleEvent, hstop, if_true] at hhandle
    cases hhandle
    have haside : Service.Aside c g.service
        (g.service.modifyConn c fun con => { con with inPoolWaitQueue := false }) :=
      .modifyConn ⟨rfl, rfl, rfl, List.Subset.refl _⟩
    exact ⟨C, h.keep (Aside.kept.doTryNotifyPoolWaitingConnection haside)⟩
  | newConnMessage id =>
    simp only [Service.handleEvent, hstop, if_true] at hhandle
    cases hhandle
    exact h.completeFetched hlinked
  | cancelPoolMessage id =>
    cases hhandle
    exact h.completeFetched hlinked
  | cancelConnMessage id =>
    obtain ⟨q, hq, rfl⟩ := map_eq_some_iff.1 hhandle
    have haside : Service.Aside c g.service
        (g.service.modifyConn c fun con => { con with writer := q.2 }) :=
      .modifyConn ⟨rfl, rfl, rfl, (ConnectionWriter.cancelAt_some hq).subset⟩
    exact ⟨C, h.keep haside⟩
  | resolve addrvec =>
    rw [Service.handleEvent] at hhandle
    split_ifs at hhandle
    · cases hhandle
      have haside : Service.Aside c g.service (g.service.doStop c) :=
        .modifyConn ⟨rfl, hstop.symm, rfl, List.Subset.refl _⟩
      exact ⟨C, h.keep haside⟩
    · cases hhandle
      exact ⟨C, h.keep (Aside.kept.forwardResolveMessage cfg (.refl c _) addrvec started)⟩
  | stopping =>
    cases hhandle
    exact ⟨C, h⟩

/-! ## The connection stops -/

section
variable (hphase : g.service.pool.cleanOneShotMessages = true)
include hphase

theorem popMessage (hcur : (g.service.conns c).stopContext = some (some i))
    (honly : i ∈ g.left → (s₀.pool.msgs.msgvec i).isOneShot ∨
      (s₀.pool.msgs.msgvec i).msgbundle.messagePtr = none) :
    ∃ C', i ∈ O ∧ Sweeping c s₀ { g.handOut i with
      service := ((g.service.modifyConn c fun con => { con with
        stopContext := some (InnerList.previousIndex g.service.pool.msgs.orderLinks i) }).popMessage
          i).service } (O.erase i) (A.erase i) C' := by
  obtain ⟨cur, hcur', hswept⟩ := h.swept hphase
  obtain rfl : cur = some i := some.inj (hcur'.symm.trans hcur)
  obtain ⟨sent, hO⟩ := h.left
  have hsub : g.left.Sublist O := hO ▸ sublist_append_left _ _
  obtain ⟨as, bs, hsplit, htaken, -⟩ := hswept.advance h.tidy.order.nodup hsub
  have hi : i ∈ O := hswept.mem
  have hprev : InnerList.previousIndex g.service.pool.msgs.orderLinks i = bs.head? :=
    (hsplit ▸ h.tidy.order).previousIndex
  rw [hprev]
  refine ⟨C ++ [i], hi, h.erase (g.handOut_left i) (g.handOut_share i) (fun j hj => ?_)
    (h.tidy.clearPopAndCacheMessage hi) ((h.cleaner.withContext bs.head?).withMsgs _)
    (fun j hj => ?_) hphase ?_ htaken⟩
  · have hj' : j ∈ (g.handOut i).handed := hj
    unfold Cleaning.handOut at hj'
    split_ifs at hj' with hleft
    · rcases mem_append.1 hj' with hj' | hj'
      · exact .inl hj'
      · exact .inr (mem_singleton.1 hj' ▸ honly hleft)
    · exact .inl hj'
  · exact congrArg _ (clearPopAndCacheMessage_of_ne hj)
  · exact stopContext_modifyConn g.service c bs.head?

/-- **A call of `doMainConnectionStoppingCleanOneShot`.** -/
theorem cleanOneShot {r : Stopping β F}
    (hr : g.service.doMainConnectionStoppingCleanOneShot c = some r) :
    ∃ O' A' C', Sweeping c s₀ { (r.msgBundle.toList.head?.bind fun p => p.2.index).elim g g.handOut
      with service := r.service } O' A' C' ∧ ListStep g.service.pool.msgs O A O' A' := by
  obtain ⟨cur, hcur, hswept⟩ := h.swept hphase
  unfold doMainConnectionStoppingCleanOneShot at hr
  rw [hcur, map_some] at hr
  cases cur with
  | none =>
    cases hr
    refine ⟨O, A, C, { h with
      tidy := h.tidy
      cleaner := ⟨h.cleaner.main, h.cleaner.alive, h.cleaner.stopping, h.cleaner.started,
        h.cleaner.writer⟩
      swept := fun hclean => by cases hclean
      done := fun _ => hswept.done }, .keep⟩
  | some i =>
    dsimp only at hr
    split_ifs at hr with hone hclose
    · cases hr
      obtain ⟨C', hi, hsweep⟩ := h.popMessage hphase hcur fun hleft => .inl (by
        rw [MessageStub.isOneShot, ← h.bundles i hleft]
        simpa using hone)
      exact ⟨_, _, C', hsweep, .remove hi (h.tidy.flags i hi)⟩
    · cases hr
      obtain ⟨C', hi, hsweep⟩ := h.popMessage hphase hcur fun hleft => .inr (by
        rw [← h.bundles i hleft]
        simpa using hclose.1)
      exact ⟨_, _, C', hsweep, .remove hi (h.tidy.flags i hi)⟩
    · cases hr
      obtain ⟨sent, hO⟩ := h.left
      have hsub : g.left.Sublist O := hO ▸ sublist_append_left _ _
      obtain ⟨as, bs, hsplit, -, hstays⟩ := hswept.advance h.tidy.order.nodup hsub
      have hprev : InnerList.previousIndex g.service.pool.msgs.orderLinks i = bs.head? :=
        (hsplit ▸ h.tidy.order).previousIndex
      have hnext := hstays fun hleft hshot => hone (by
        rw [MessageStub.isOneShot, ← h.bundles i hleft] at hshot
        simpa using hshot)
      rw [hprev]
      refine ⟨O, A, C, { h with
        tidy := h.tidy
        cleaner := h.cleaner.withContext bs.head?
        swept := fun _ => ⟨bs.head?, ?_, hnext⟩ }, .keep⟩
      exact stopContext_modifyConn g.service c bs.head?

theorem connectionStopping {resolveError : Bool} {r : Service.Stopping β F}
    (hr : g.service.connectionStopping cfg c resolveError started = some r) :
    ∃ O' A' C', Sweeping c s₀ { (r.msgBundle.toList.head?.bind fun p => p.2.index).elim g g.handOut
      with service := r.service } O' A' C' ∧ ListStep g.service.pool.msgs O A O' A' := by
  unfold Service.connectionStopping at hr
  rw [if_neg (not_not.2 h.cleaner.main)] at hr
  split_ifs at hr
  · exact h.cleanOneShot hphase hr
  · -- a connection was started meanwhile
    unfold Service.doMainConnectionStoppingNotLast at hr
    set s1 := g.service.withPool fun p =>
      { p with mainConnectionStopping := true, mainConnectionActive := false } with hs1
    have haside : Service.Aside c g.service s1 := .withPool rfl rfl rfl
    dsimp only at hr
    split_ifs at hr
    · cases hr
      exact ⟨O, A, C, h.keep haside, .keep⟩
    · obtain ⟨s2, hfetch, haside2⟩ := (h.cleaner.aside haside).fetch
      rw [hfetch] at hr
      cases hr
      exact ⟨O, A, C, h.keep (haside.trans haside2), .keep⟩

/-- **Every step of the phase.** -/
theorem exec {a : Action β F}
    (ha : a.isCleaning c) (hok : g.service.cleanOk c a)
    (hexec : g.service.exec cfg a = some r) :
    ∃ O' A' C', Sweeping c s₀ (g.next a r) O' A' C' ∧ ListStep g.service.pool.msgs O A O' A' := by
  obtain ⟨s', out⟩ := r
  have hstep := exec_step cfg hexec
  cases a with
  | sendMessage b cancelable started =>
    cases hstep with
    | sendMessage hsend => exact h.doSendMessage hsend
  | cancelMessage id =>
    cases hexec
    exact h.cancelMessage hphase hok
  | deliver c' started =>
    obtain rfl : c' = c := by simpa [Action.isCleaning] using ha
    cases hstep with
    | @deliver _ _ e es r _ hevents hhandle =>
      have haside : Aside c' g.service
          (g.service.modifyConn c' fun con => { con with events := es }) :=
        .modifyConn ⟨rfl, rfl, rfl, List.Subset.refl _⟩
      have hhanded : ((g.service.conns c').events.head?.bind ConnectionEvent.messageId?).bind
          g.service.pool.msgs.find = e.messageId?.bind g.service.pool.msgs.find := by
        rw [hevents]
        rfl
      have hlinked : ∀ i, e.messageId?.bind g.service.pool.msgs.find = some i →
          g.service.pool.msgs.isLinked i = false := by
        intro i hi
        rw [cleanOk, hhanded, hi] at hok
        simpa using hok
      obtain ⟨C', hsweep⟩ := (h.keep haside).handleEvent hlinked hhandle
      refine ⟨O, A, C', ?_, .keep⟩
      -- the message that is handed out, if any, is not one of those that are left
      have hnone : (e.messageId?.bind g.service.pool.msgs.find).elim g g.handOut = g := by
        cases hfind : e.messageId?.bind g.service.pool.msgs.find with
        | none => rfl
        | some i =>
          have hO := (h.tidy.notMem_of_isLinked (hlinked i hfind)).1
          exact g.handOut_of_notMem (h.notMem_left hO)
      have hnext : g.next (.deliver c' started) r = { g with service := r.1 } := by
        rw [← hhanded] at hnone
        exact congrArg (fun g' : Cleaning β F => { g' with service := r.1 }) hnone
      rw [hnext]
      exact hsweep
  | stopping c' resolveError started =>
    obtain rfl : c' = c := by simpa [Action.isCleaning] using ha
    cases hstep with
    | @stopping _ _ _ r _ _ _ hr =>
      obtain ⟨O', A', C', hsweep, hlists⟩ := h.connectionStopping hphase hr
      have haside : Aside c' r.service
          (r.service.modifyConn c' fun con => { con with canStop := r.canStop }) :=
        .modifyConn ⟨rfl, rfl, rfl, List.Subset.refl _⟩
      exact ⟨O', A', C', hsweep.keep haside, hlists⟩
  | _ => cases ha

end

end

theorem start {s : Service β F} (h : s.StartsCleaning c) :
    ∃ O A C, Sweeping c s (.start s) O A C := by
  obtain ⟨O, A, C, htidy⟩ := h.tidy
  have hlist : s.orderList.reverse = O := by
    rw [orderList, htidy.order.forEach, reverse_reverse]
  refine ⟨O, A, C,
    { tidy := htidy
      cleaner := ⟨h.main, h.alive, h.stopping, h.started, h.writer⟩
      left := ⟨[], by rw [append_nil]; exact hlist.symm⟩
      bundles := fun _ _ => rfl
      swept := fun _ => ⟨_, h.cursor, ?_⟩
      done := fun hfalse => ?_
      share := .refl _
      order := .refl _
      only := fun i hi => absurd hi not_mem_nil }⟩
  · rw [htidy.order.front]
    show Swept _ s.orderList.reverse O O.head?
    rw [hlist]
    exact Swept.start _ O
  · have htrue : s.pool.cleanOneShotMessages = false := hfalse
    rw [h.cleaning] at htrue
    cases htrue

theorem mem_orderList (h : Sweeping c s₀ g O A C) : i ∈ g.service.orderList ↔ i ∈ O := by
  rw [orderList, h.tidy.order.forEach, mem_reverse]

/-- A one-shot message of the start that was not canceled has been handed out at the end. -/
theorem handed_of_done (h : Sweeping c s₀ g O A C) (hnodup : s₀.orderList.Nodup)
    (hdone : g.service.pool.cleanOneShotMessages = false) (hi : i ∈ s₀.orderList)
    (hone : (s₀.pool.msgs.msgvec i).isOneShot) (hcanceled : i ∉ g.canceled) :
    g.handed.count i = 1 := by
  have hall : (g.handed ++ g.canceled ++ g.left).Nodup :=
    h.share.nodup_iff.2 (nodup_reverse.2 hnodup)
  have hmem : i ∈ g.handed ++ g.canceled ++ g.left :=
    h.share.mem_iff.2 (mem_reverse.2 hi)
  have hhanded : i ∈ g.handed := by
    rw [mem_append, mem_append] at hmem
    rcases hmem with (hmem | hmem) | hmem
    · exact hmem
    · exact absurd hmem hcanceled
    · exact absurd hone (h.done hdone i hmem)
  exact count_eq_one_of_mem hall.of_append_left.of_append_left hhanded

end Sweeping

/-! ## Runs -/

section Runs
variable {β F : Type} {cfg : PoolConfiguration} {c : ObjectId} {s₀ : Service β F} {g : Cleaning β F}

theorem CleanRun.sweeping (hstart : s₀.StartsCleaning c)
    (h : CleanRun cfg (cleanOk · c ·) c s₀ g) : ∃ O A C, Sweeping c s₀ g O A C := by
  induction h with
  | start => exact Sweeping.start hstart
  | step _ hphase ha hok hexec ih =>
    obtain ⟨O, A, C, hsweep⟩ := ih
    obtain ⟨O', A', C', hsweep', -⟩ := hsweep.exec hphase ha hok hexec
    exact ⟨O', A', C', hsweep'⟩

structure CleanedOneShot (cfg : PoolConfiguration) (c : ObjectId) (s₀ : Service β F)
    (g : Cleaning β F) : Prop where
  /-- the index in the event context is invalid, or in the order list -/
  cursor : g.service.pool.cleanOneShotMessages = true →
    ∃ cur, (g.service.conns c).stopContext = some cur ∧ ∀ i, cur = some i → i ∈ g.service.orderList
  /-- the lists are good ones, the messages that are left are the first ones, and a step
      removes only a message that is in the lists -/
  lists : ∃ O A C, g.service.pool.msgs.Tidy O A C ∧ (∃ sent, O = g.left ++ sent) ∧
    ∀ a r, g.service.pool.cleanOneShotMessages = true → a.isCleaning c = true →
      g.service.cleanOk c a = true → g.service.exec cfg a = some r →
      ∃ O' A' C', r.1.pool.msgs.Tidy O' A' C' ∧ ListStep g.service.pool.msgs O A O' A'
  /-- each message of the start is left, was handed out once, or was canceled once -/
  share : (g.handed ++ g.canceled ++ g.left).Perm s₀.orderList
  order : g.left.Sublist s₀.orderList.reverse
  /-- no other message is handed out, but a close request that is alone -/
  only : ∀ i ∈ g.handed, (s₀.pool.msgs.msgvec i).isOneShot = true ∨
    (s₀.pool.msgs.msgvec i).msgbundle.messagePtr = none
  complete : g.service.pool.cleanOneShotMessages = false → ∀ i ∈ s₀.orderList,
    (s₀.pool.msgs.msgvec i).isOneShot = true → i ∉ g.canceled → g.handed.count i = 1

/-- **One-shot cleaning.**  In every run of the phase whose steps meet their conditions, the
    cursor is in the order list or at its end, messages are removed only while they are in the
    lists, and when the phase ends every one-shot message of the start that was not canceled
    was handed out once, while the other ones have kept their order. -/
theorem CleanRun.cleaned (hstart : s₀.StartsCleaning c)
    (h : CleanRun cfg (cleanOk · c ·) c s₀ g) : CleanedOneShot cfg c s₀ g := by
  obtain ⟨O, A, C, hsweep⟩ := h.sweeping hstart
  obtain ⟨O₀, A₀, C₀, htidy⟩ := hstart.tidy
  have hnodup : s₀.orderList.Nodup := by
    rw [orderList, htidy.order.forEach]
    exact nodup_reverse.2 htidy.order.nodup
  refine
    { cursor := fun hphase => ?_
      lists := ⟨O, A, C, hsweep.tidy, hsweep.left, fun a r hphase ha hok hexec => ?_⟩
      share := hsweep.share.trans (reverse_perm _)
      order := hsweep.order
      only := hsweep.only
      complete := fun hdone i hi hone hcanceled =>
        hsweep.handed_of_done hnodup hdone hi hone hcanceled }
  · obtain ⟨cur, hcur, hswept⟩ := hsweep.swept hphase
    refine ⟨cur, hcur, fun i hi => hsweep.mem_orderList.2 ?_⟩
    subst hi
    exact hswept.mem
  · obtain ⟨O', A', C', hsweep', hlists⟩ := hsweep.exec hphase ha hok hexec
    exact ⟨O', A', C', hsweep'.tidy, hlists⟩

/-- The connection after `doFetchResendableMessagesFromConnection`. -/
def Connection.withoutResendable (con : Connection β F) : Connection β F :=
  { con with writer := { con.writer with
      messages := con.writer.messages.filter fun t => !t.msgbundle.messageFlags.isResendable } }

theorem Service.startsCleaning_of_prepare {s : Service β F} {r : Stopping β F}
    (hmain : s.pool.mainConnectionId = some c) (halive : (s.conns c).alive = true)
    (hstop : (s.conns c).stopping = true) (hlt : c < s.nextId)
    (hr : s.doMainConnectionStoppingPrepareCleanOneShot c = some r) (hwait : r.canStop = false)
    (htidy : ∃ O A C, r.service.pool.msgs.Tidy O A C) : r.service.StartsCleaning c := by
  unfold doMainConnectionStoppingPrepareCleanOneShot at hr
  obtain ⟨s1, hfetch, hr⟩ := bind_eq_some_iff.mp hr
  obtain ⟨m, -, rfl⟩ := map_eq_some_iff.mp hfetch
  dsimp only at hr
  split_ifs at hr with hsize
  · cases hr
    set s2 := ((s.withMsgs m).modifyConn c Connection.withoutResendable).withPool fun p =>
      { p with mainConnectionActive := false, cleanOneShotMessages := true } with hs2
    have hself : (s2.modifyConn c fun con =>
        { con with stopContext := some m.msgorderInnerList.front }).conns c =
        { (s.conns c).withoutResendable with stopContext := some m.msgorderInnerList.front } := by
      rw [modifyConn_self]
      exact congrArg (fun con : Connection β F =>
        { con with stopContext := some m.msgorderInnerList.front })
        (modifyConn_self (s.withMsgs m) c Connection.withoutResendable)
    have hwriter : ∀ t ∈ (s.conns c).withoutResendable.writer.messages,
        t.msgbundle.messageFlags.isResendable = false := by
      intro t ht
      simpa using (mem_filter.mp ht).2
    exact
      { tidy := htidy
        main := hmain
        cleaning := rfl
        alive := (congrArg Connection.alive hself).trans halive
        stopping := (congrArg Connection.stopping hself).trans hstop
        started := hlt
        cursor := congrArg Connection.stopContext hself
        writer := fun t ht => hwriter t
          ((congrArg (fun con : Connection β F => t ∈ con.writer.messages) hself).mp ht) }
  · cases hr
    cases hwait

def runClean (cfg : PoolConfiguration) (ok : Service β F → Action β F → Bool) (c : ObjectId) :
    List (Action β F) → Cleaning β F → Option (Cleaning β F)
  | [], g => some g
  | a :: as, g =>
    if g.service.pool.cleanOneShotMessages = true ∧ a.isCleaning c = true ∧
        ok g.service a = true then
      (g.service.exec cfg a).bind fun r => runClean cfg ok c as (g.next a r)
    else none

theorem CleanRun.of_run {ok : Service β F → Action β F → Bool} {as : List (Action β F)}
    {g' : Cleaning β F} (h : CleanRun cfg ok c s₀ g) (hrun : runClean cfg ok c as g = some g') :
    CleanRun cfg ok c s₀ g' := by
  induction as generalizing g with
  | nil =>
    obtain rfl := some.inj hrun
    exact h
  | cons a as ih =>
    unfold runClean at hrun
    split_ifs at hrun with hstep
    obtain ⟨r, hexec, hrest⟩ := bind_eq_some_iff.1 hrun
    exact ih (h.step hstep.1 hstep.2.1 hstep.2.2 hexec) hrest

def Service.afterSteps (cfg : PoolConfiguration) (b : MessageBundle β F)
    (as : List (Action β F)) : Option (Service β F) :=
  ((initial true).doSendMessageToNewPool cfg b true true).bind fun s =>
    as.foldlM (fun s a => (s.exec cfg a).map Prod.fst) s

/-- A run of the phase in a pool after the steps `as`, to a state with a given property. -/
theorem exists_cleanRun (cfg : PoolConfiguration) (ok : Service β F → Action β F → Bool)
    (c : ObjectId) (b : MessageBundle β F) (as phase : List (Action β F))
    (p : Service β F → Cleaning β F → Bool)
    (h : ((afterSteps cfg b as).bind fun s₀ =>
      (runClean cfg ok c phase (.start s₀)).map (p s₀)) = some true) :
    ∃ s₀ g, afterSteps cfg b as = some s₀ ∧ CleanRun cfg ok c s₀ g ∧ p s₀ g = true := by
  obtain ⟨s₀, hs0, hrun⟩ := bind_eq_some_iff.1 h
  obtain ⟨g, hg, hp⟩ := map_eq_some_iff.1 hrun
  exact ⟨s₀, g, hs0, CleanRun.of_run .start hg, hp⟩

end Runs

def pooled (body : ℕ) (oneShot : Bool) : MessageBundle ℕ ℕ :=
  { messagePtr := some { body := body }, messageFlags := { oneShotSend := oneShot } }

/-- Six messages are sent, three of them one-shot, and the connection stops. -/
def sixSent : List (Action ℕ ℕ) :=
  [.sendMessage (pooled 1 true) true true, .sendMessage (pooled 2 false) true true,
    .sendMessage (pooled 3 true) true true, .sendMessage (pooled 4 true) true true,
    .sendMessage (pooled 5 false) true true, .stop 0, .stopping 0 false true]

def Service.sixLeft : Service ℕ ℕ :=
  (afterSteps ⟨⟨1, 1, 1, .ok⟩, 1, 1, 8⟩ (pooled 0 false) sixSent).getD (initial true)

theorem Service.startsCleaning_sixLeft : sixLeft.StartsCleaning 0 where
  tidy := by
    refine ⟨[0, 1, 2, 3, 4, 5], [0, 1, 2, 3, 4, 5], [], ?_⟩
    exact
      { order := ⟨rfl, rfl, rfl, by decide, by simp only [Seg]; decide +kernel⟩
        cache := ⟨rfl, rfl, rfl, nodup_nil, trivial⟩
        async := ⟨rfl, rfl, rfl, by decide, by simp only [Seg]; decide +kernel⟩
        disjoint := disjoint_nil_right _
        asyncSub := List.Subset.refl _
        orderLt := by decide +kernel
        cacheLt := by simp
        flags := by decide +kernel
        cleared := by simp
        free := fun i hi _ => by
          obtain ⟨k, rfl⟩ : ∃ k, i = k + 6 := ⟨i - 6, by simp at hi; omega⟩
          rfl }
  main := rfl
  cleaning := rfl
  alive := rfl
  stopping := rfl
  started := by decide +kernel
  cursor := rfl
  writer := fun t ht => absurd (show t ∈ [] from ht) not_mem_nil

/-- While the connection walks through the list a message is sent, a one-shot message behind
    the cursor is canceled and its event delivered, and a one-shot message is sent, which gets
    the stub of the canceled one. -/
def sixCleaned : List (Action ℕ ℕ) :=
  [.stopping 0 false true, .sendMessage (pooled 6 false) true true, .cancelMessage ⟨some 3, 0⟩,
    .deliver 0 true, .stopping 0 false true, .sendMessage (pooled 7 true) true true] ++
  replicate 6 (.stopping 0 false true)

theorem cleaned_sixLeft : ∃ g : Cleaning ℕ ℕ,
    afterSteps ⟨⟨1, 1, 1, .ok⟩, 1, 1, 8⟩ (pooled 0 false) sixSent = some sixLeft ∧
      CleanRun ⟨⟨1, 1, 1, .ok⟩, 1, 1, 8⟩ (cleanOk · 0 ·) 0 sixLeft g ∧
      CleanedOneShot ⟨⟨1, 1, 1, .ok⟩, 1, 1, 8⟩ 0 sixLeft g ∧
      g.service.pool.cleanOneShotMessages = false ∧
      g.handed = [1, 4] ∧ g.canceled = [3] ∧ g.left = [0, 2, 5] ∧
      g.service.orderList.reverse = [0, 2, 5, 6] := by
  obtain ⟨g, hg, hp⟩ := map_eq_some_iff.1 (show (runClean ⟨⟨1, 1, 1, .ok⟩, 1, 1, 8⟩
    (cleanOk · 0 ·) 0 sixCleaned (.start sixLeft)).map (fun g => decide
      (g.service.pool.cleanOneShotMessages = false ∧ g.handed = [1, 4] ∧ g.canceled = [3] ∧
        g.left = [0, 2, 5] ∧ g.service.orderList.reverse = [0, 2, 5, 6])) = some true by
    decide +kernel)
  have hrun := CleanRun.of_run .start hg
  exact ⟨g, rfl, hrun, CleanRun.cleaned startsCleaning_sixLeft hrun, of_decide_eq_true hp⟩

def oneShotSecond : List (Action ℕ ℕ) :=
  [.sendMessage (pooled 1 true) false true, .stop 0, .stopping 0 false true]

/-- The message at the cursor is canceled, so that the walk ends there, and the one-shot
    message behind it stays; and a one-shot message that is sent during the phase is freed when
    its event is delivered, while it is in the order list. -/
theorem cleaning_loses_place : (∃ (s₀ : Service ℕ ℕ) (g : Cleaning ℕ ℕ),
      afterSteps ⟨⟨1, 1, 1, .ok⟩, 1, 1, 8⟩ (pooled 0 false) oneShotSecond = some s₀ ∧
      CleanRun ⟨⟨1, 1, 1, .ok⟩, 1, 1, 8⟩ (fun _ _ => true) 0 s₀ g ∧
      g.service.pool.cleanOneShotMessages = false ∧ 1 ∈ s₀.orderList ∧
      (s₀.pool.msgs.msgvec 1).isOneShot = true ∧ 1 ∉ g.canceled ∧ 1 ∉ g.handed) ∧
    ∃ (s₀ : Service ℕ ℕ) (g : Cleaning ℕ ℕ),
      afterSteps ⟨⟨1, 1, 1, .ok⟩, 1, 1, 8⟩ (pooled 0 false)
        [.stop 0, .stopping 0 false true] = some s₀ ∧
      CleanRun ⟨⟨1, 1, 1, .ok⟩, 1, 1, 8⟩ (fun _ _ => true) 0 s₀ g ∧
      1 ∈ g.service.orderList ∧ g.service.pool.msgs.msgcacheInnerList.front = some 1 := by
  constructor
  · obtain ⟨s₀, g, hs₀, hrun, hp⟩ := exists_cleanRun ⟨⟨1, 1, 1, .ok⟩, 1, 1, 8⟩ (fun _ _ => true) 0
      (pooled 0 false) oneShotSecond
      [.cancelMessage ⟨some 0, 0⟩, .stopping 0 false true, .stopping 0 false true]
      (fun s₀ g => decide (g.service.pool.cleanOneShotMessages = false ∧ 1 ∈ s₀.orderList ∧
        (s₀.pool.msgs.msgvec 1).isOneShot ∧ 1 ∉ g.canceled ∧ 1 ∉ g.handed))
      (by decide +kernel)
    exact ⟨s₀, g, hs₀, hrun, of_decide_eq_true hp⟩
  · obtain ⟨s₀, g, hs₀, hrun, hp⟩ := exists_cleanRun ⟨⟨1, 1, 1, .ok⟩, 1, 1, 8⟩ (fun _ _ => true) 0
      (pooled 0 false) [.stop 0, .stopping 0 false true]
      [.sendMessage (pooled 1 true) false true, .deliver 0 true]
      (fun (_ : Service ℕ ℕ) (g : Cleaning ℕ ℕ) => decide (1 ∈ g.service.orderList ∧
        g.service.pool.msgs.msgcacheInnerList.front = some 1)) (by decide +kernel)
    exact ⟨s₀, g, hs₀, hrun, of_decide_eq_true hp⟩

end SolidFrame
