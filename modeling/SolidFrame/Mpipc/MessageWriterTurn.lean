/-
  SolidFrame formalization — one turn of the loop that fills a packet
  (`solid/frame/mpipc/src/mpipcmessagewriter.cpp`, `doFillPacket`).

  A turn looks at the message `i` at the front of the write list.  It moves `i`
  to the back, because another synchronous message is being sent; or it drops
  `i`, because it was canceled; or it serializes a piece of `i`, after which
  `i` stays at the front, goes to the back, or is sent to its end.
-/
import SolidFrame.Mpipc.MessageWriterLists

namespace SolidFrame

open Function List

namespace MessageWriter
variable {β F σ : Type}

/-! ## Enqueues from a callback -/

structure MessageStub.Fresh (s : MessageStub β F σ) : Prop extends s.Live where
  packetCount : s.packetCount = 0
  serializerPtr : s.serializerPtr = none

def enqueuedBundles (events : List (WriterEvent β F)) : List (MessageBundle β F) :=
  events.filterMap fun e => match e with
    | .enqueued b _ _ => some b
    | _ => none

theorem enqueuedBundles_append (es fs : List (WriterEvent β F)) :
    enqueuedBundles (es ++ fs) = enqueuedBundles es ++ enqueuedBundles fs :=
  filterMap_append

/-- From `w` to `w'` the messages of the stubs `N` were enqueued. -/
structure Grows (cfg : WriterConfiguration) (w : MessageWriter β F σ) (W O N : List ℕ)
    (events : List (WriterEvent β F)) (w' : MessageWriter β F σ) : Prop where
  inv : ∃ C', w'.Inv (W ++ N) C' (O ++ N)
  fresh : ∀ j ∈ N, j ∉ W ∧ j ∉ O ∧ (w'.messageVec j).Fresh
  vec : ∀ j, j ∉ N → w'.messageVec j = w.messageVec j
  current : w'.currentSynchronousMessageIdx = w.currentSynchronousMessageIdx
  length : N = [] ∨ (W ++ N).length ≤ cfg.maxMessageCountMultiplex
  bundles : N.map (fun j => (w'.messageVec j).msgbundle) =
    (enqueuedBundles events).map clearDisruptingFlags
  only : ∀ e ∈ events, ∃ b p c, e = .enqueued b p c
  balanced : Balanced w O events w' (O ++ N)

section Grows
variable {cfg : WriterConfiguration} {w w' : MessageWriter β F σ} {W C O : List ℕ}

theorem Grows.refl (h : w.Inv W C O) : Grows cfg w W O [] [] w where
  inv := ⟨C, by simpa using h⟩
  fresh j hj := absurd hj not_mem_nil
  vec _ _ := rfl
  current := rfl
  length := .inl rfl
  bundles := rfl
  only e he := absurd he not_mem_nil
  balanced := by
    rw [append_nil]
    exact Balanced.refl w O

theorem Grows.trans {w'' : MessageWriter β F σ} {N M : List ℕ} {es fs : List (WriterEvent β F)}
    (h : Grows cfg w W O N es w') (h' : Grows cfg w' (W ++ N) (O ++ N) M fs w'') :
    Grows cfg w W O (N ++ M) (es ++ fs) w'' where
  inv := by simpa using h'.inv
  fresh j hj := by
    rcases mem_append.1 hj with hN | hM
    · obtain ⟨hW, hO, hfresh⟩ := h.fresh j hN
      have hM : j ∉ M := fun hM => (h'.fresh j hM).1 (by simp [hN])
      exact ⟨hW, hO, h'.vec j hM ▸ hfresh⟩
    · obtain ⟨hW, hO, hfresh⟩ := h'.fresh j hM
      simp only [mem_append, not_or] at hW hO
      exact ⟨hW.1, hO.1, hfresh⟩
  vec j hj := by
    simp only [mem_append, not_or] at hj
    exact (h'.vec j hj.2).trans (h.vec j hj.1)
  current := h'.current.trans h.current
  length := by
    rcases h'.length with rfl | hle
    · simpa using h.length
    · exact .inr (by simpa using hle)
  bundles := by
    have hold : N.map (fun j => (w''.messageVec j).msgbundle) =
        N.map (fun j => (w'.messageVec j).msgbundle) := by
      refine map_congr_left fun j hj => ?_
      rw [h'.vec j fun hM => (h'.fresh j hM).1 (by simp [hj])]
    rw [map_append, hold, h.bundles, h'.bundles, enqueuedBundles_append, map_append]
  only e he := (mem_append.1 he).elim (h.only e) (h'.only e)
  balanced := by
    rw [← append_assoc]
    exact h.balanced.trans h'.balanced

theorem Grows.enqueue (h : w.Inv W C O) {b : MessageBundle β F} (hb : Enqueueable b)
    {poolMsgId connMsgId : MessageId}
    (he : w.enqueue cfg b poolMsgId = some (some connMsgId, w')) :
    ∃ i, Grows cfg w W O [i] [.enqueued b poolMsgId connMsgId] w' := by
  rcases enqueue_spec h hb he with heq | ⟨i, C', u, hid, hlen, hW, hO, hinv, hvec, hcur⟩
  · cases heq
  refine ⟨i, ⟨C', hinv⟩, fun j hj => ?_, fun j hj => ?_, hcur, .inr ?_, ?_, fun e he => ?_, ?_⟩
  · obtain rfl := mem_singleton.1 hj
    refine ⟨hW, hO, ?_⟩
    rw [show w'.messageVec = _ from hvec, update_self]
    exact ⟨⟨hb.1, hb.2, rfl⟩, rfl, rfl⟩
  · rw [show w'.messageVec = _ from hvec, update_of_ne (by simpa using hj)]
  · simpa using hlen
  · rw [map_singleton, show w'.messageVec = _ from hvec, update_self]
    rfl
  · exact ⟨b, poolMsgId, connMsgId, mem_singleton.1 he⟩
  · have hold : w'.ownedBy O = w.ownedBy O := by
      refine ownedBy_congr fun j hj => ?_
      rw [show w'.messageVec = _ from hvec, update_of_ne (fun heq : j = i => hO (heq ▸ hj))]
    have hnew : w'.ownedBy [i] = [entryOf b poolMsgId] := by
      rw [ownedBy, map_singleton, show w'.messageVec = _ from hvec, update_self]
      rfl
    unfold Balanced
    rw [show w'.ownedBy (O ++ [i]) = w'.ownedBy O ++ w'.ownedBy [i] from map_append, hold, hnew]
    exact perm_append_comm

/-- **The messages that a callback enqueues** are added to the back of the lists. -/
theorem enqueueAll_spec {reqs : List (MessageBundle β F × MessageId)}
    {events : List (WriterEvent β F)} (h : w.Inv W C O) (hreqs : ∀ r ∈ reqs, Enqueueable r.1)
    (he : enqueueAll cfg reqs w = some (events, w')) :
    ∃ N, Grows cfg w W O N events w' := by
  induction reqs generalizing w W C O events with
  | nil =>
    cases he
    exact ⟨[], Grows.refl h⟩
  | cons r reqs ih =>
    obtain ⟨b, poolMsgId⟩ := r
    have hb : Enqueueable b := hreqs (b, poolMsgId) mem_cons_self
    have hrest : ∀ r ∈ reqs, Enqueueable r.1 := fun r hr => hreqs r (mem_cons_of_mem _ hr)
    rw [enqueueAll] at he
    obtain ⟨⟨conn, w₁⟩, he1, he⟩ := Option.bind_eq_some_iff.1 he
    obtain ⟨⟨es, w2⟩, he2, he⟩ := Option.bind_eq_some_iff.1 he
    cases conn with
    | none =>
      have hsame : w₁ = w := by
        rcases enqueue_spec h hb he1 with heq | ⟨i, C', u, hid, -⟩
        · exact congrArg Prod.snd heq
        · cases hid
      cases he
      rw [hsame] at he2
      exact ih h hrest he2
    | some connMsgId =>
      cases he
      obtain ⟨i, hgrow⟩ := Grows.enqueue h hb he1
      obtain ⟨C1, hinv⟩ := hgrow.inv
      obtain ⟨N, hgrows⟩ := ih hinv hrest he2
      exact ⟨_, hgrow.trans hgrows⟩

end Grows

/-! ## The switch to a message -/

namespace MessageStub

def switchType (s : MessageStub β F σ) : PacketType :=
  match s.serializerPtr with
  | none => .switchToNewMessage
  | some _ =>
    if s.isCanceled then
      if s.packetCount = 0 then .switchToOldCanceledMessage else .continuedCanceledMessage
    else if s.packetCount = 0 then .switchToOldMessage else .continuedMessage

def prepared (P : Protocol β σ) (tmp : Option σ) (s : MessageStub β F σ) : MessageStub β F σ :=
  match s.serializerPtr with
  | none => { s with
      serializerPtr := some (P.push (P.reset (tmp.getD P.createSerializer)) s.msgbundle.messagePtr
        s.msgbundle.messageTypeId)
      msgbundle := { s.msgbundle with messageFlags :=
        { s.msgbundle.messageFlags with startedSend := true } } }
  | some _ => s

variable {P : Protocol β σ} {tmp : Option σ} {s : MessageStub β F σ}

theorem prepared_serializerPtr : (s.prepared P tmp).serializerPtr.isSome := by
  unfold prepared
  cases h : s.serializerPtr with
  | none => rfl
  | some ser => simp [h]

theorem prepared_messagePtr : (s.prepared P tmp).msgbundle.messagePtr = s.msgbundle.messagePtr := by
  unfold prepared
  cases s.serializerPtr <;> rfl

theorem prepared_canceled : (s.prepared P tmp).isCanceled = s.isCanceled := by
  unfold prepared
  cases s.serializerPtr <;> rfl

theorem prepared_waitResponse : (s.prepared P tmp).msgbundle.messageFlags.waitResponse =
    s.msgbundle.messageFlags.waitResponse := by
  unfold prepared
  cases s.serializerPtr <;> rfl

theorem prepared_synchronous : (s.prepared P tmp).msgbundle.messageFlags.synchronous =
    s.msgbundle.messageFlags.synchronous := by
  unfold prepared
  cases s.serializerPtr <;> rfl

theorem prepared_messageTypeId :
    (s.prepared P tmp).msgbundle.messageTypeId = s.msgbundle.messageTypeId := by
  unfold prepared
  cases s.serializerPtr <;> rfl

theorem prepared_poolMsgId : (s.prepared P tmp).poolMsgId = s.poolMsgId := by
  unfold prepared
  cases s.serializerPtr <;> rfl

theorem prepared_completeFnc :
    (s.prepared P tmp).msgbundle.completeFnc = s.msgbundle.completeFnc := by
  unfold prepared
  cases s.serializerPtr <;> rfl

theorem prepared_doneSending {x : Option σ} :
    { s.prepared P tmp with serializerPtr := x }.doneSending = s.doneSending := by
  unfold prepared
  cases s.serializerPtr <;> rfl

theorem prepared_entry : entryOf (s.prepared P tmp).msgbundle (s.prepared P tmp).poolMsgId =
    entryOf s.msgbundle s.poolMsgId := by
  unfold prepared
  cases s.serializerPtr <;> rfl

theorem Live.prepared (h : s.Live) : (s.prepared P tmp).Live := by
  unfold MessageStub.prepared
  cases s.serializerPtr
  · exact ⟨h.messagePtr, h.canceled, h.doneSend⟩
  · exact h

theorem Dropped.prepared (h : s.Dropped) : s.prepared P tmp = s := by
  unfold MessageStub.prepared
  cases hser : s.serializerPtr with
  | none => exact absurd h.serializerPtr (by simp [hser])
  | some ser => rfl

end MessageStub

theorem doPrepareMessageForSending_eq (P : Protocol β σ) (w : MessageWriter β F σ) (i : ℕ)
    (tmp : Option σ) : w.doPrepareMessageForSending P i tmp =
      ((w.messageVec i).switchType, w.modifyStub i (MessageStub.prepared P tmp),
        if (w.messageVec i).serializerPtr.isNone then none else tmp) := by
  unfold doPrepareMessageForSending MessageStub.switchType modifyStub MessageStub.prepared
  cases hser : (w.messageVec i).serializerPtr with
  | none => rfl
  | some ser =>
    simp only [update_eq_self, Option.isNone_some, Bool.false_eq_true, if_false]
    split_ifs <;> rfl

/-- The locals of `doFillPacket` after the switch to the message `i`. -/
def switched (P : Protocol β σ) (i : ℕ) (st : FillState β F σ) : FillState β F σ :=
  let s := st.writer.messageVec i
  { st with
    writer := { st.writer.modifyStub i (MessageStub.prepared P st.tmpSerializer) with
      currentSynchronousMessageIdx :=
        if s.msgbundle.messageFlags.synchronous then some i
        else st.writer.currentSynchronousMessageIdx }
    tmpSerializer := if s.serializerPtr.isNone then none else st.tmpSerializer
    out := if st.packetMessageCount = 0 then st.out else st.out ++ [s.switchType.toByte]
    packetType := if st.packetMessageCount = 0 then s.switchType else st.packetType
    packetMessageCount := st.packetMessageCount + 1 }

variable {st' : FillState β F σ} {j : ℕ}

section Switch
variable {P : Protocol β σ} {cap i : ℕ} {st : FillState β F σ} {W C O : List ℕ}

theorem doSwitch_eq : doSwitch P i { st with writer :=
      if (st.writer.messageVec i).msgbundle.messageFlags.synchronous then
        { st.writer with currentSynchronousMessageIdx := some i } else st.writer } =
      switched P i st := by
  unfold doSwitch
  rw [doPrepareMessageForSending_eq]
  unfold switched
  by_cases hcount : st.packetMessageCount = 0 <;> simp only [hcount, if_true, if_false] <;>
    cases hsync : (st.writer.messageVec i).msgbundle.messageFlags.synchronous <;> rfl

theorem switched_self : (switched P i st).writer.messageVec i =
    (st.writer.messageVec i).prepared P st.tmpSerializer := modifyStub_self _ _ _

theorem switched_of_ne (hj : j ≠ i) :
    (switched P i st).writer.messageVec j = st.writer.messageVec j := modifyStub_of_ne _ hj _

theorem Inv.switched (h : st.writer.Inv (i :: W) C O) :
    (switched P i st).writer.Inv (i :: W) C O := by
  have hphase : ((st.writer.messageVec i).prepared P st.tmpSerializer).Live ∨
      ((st.writer.messageVec i).prepared P st.tmpSerializer).Dropped := by
    rcases h.written i mem_cons_self with hlive | hdropped
    · exact .inl hlive.prepared
    · rw [hdropped.prepared]
      exact .inr hdropped
  have hmod := h.modify mem_cons_self hphase MessageStub.prepared_messagePtr
    fun _ => MessageStub.prepared_serializerPtr
  refine ⟨⟨hmod.write, hmod.cache, hmod.order, hmod.disjoint⟩, hmod.writeLt, hmod.cacheLt,
    hmod.cached, hmod.written, hmod.waiting, hmod.owned, fun j hj => ?_⟩
  change (if _ then _ else _) = some j at hj
  split_ifs at hj with hsync
  · cases hj
    refine ⟨mem_cons_self, ?_⟩
    rw [switched_self]
    exact MessageStub.prepared_serializerPtr
  · exact hmod.current j hj

end Switch

/-! ## A turn -/

/-- The turn with the locals `st` serializes a piece of the message `m` of the stub `i` at
    the front of the write list, and `run` returns `r`. -/
structure Serializes (P : Protocol β σ) (cap : ℕ) (st : FillState β F σ) (i : ℕ) (m : Message β)
    (ser : σ) (r : SerializerRun σ) : Prop where
  free : P.minimumFreePacketDataSize ≤ st.freesz
  turn : (st.writer.messageVec i).msgbundle.messageFlags.synchronous = true →
    st.writer.currentSynchronousMessageIdx = none ∨ st.writer.currentSynchronousMessageIdx = some i
  live : (st.writer.messageVec i).Live
  message : (st.writer.messageVec i).msgbundle.messagePtr = some m
  serializer : ((st.writer.messageVec i).prepared P st.tmpSerializer).serializerPtr = some ser
  run : P.run (contextOf i (st.writer.messageVec i).unique m) ser
    (cap - (switched P i st).out.length) = some r

def ran (i : ℕ) (r : SerializerRun σ) (st : FillState β F σ) : FillState β F σ :=
  { st with
    writer := st.writer.modifyStub i fun s => { s with serializerPtr := some r.serializer }
    out := st.out ++ r.out
    freesz := st.freesz - r.retval.toNat }

/-- The end of a turn: an error of the callback ends the packet. -/
def endTurn (st : FillState β F σ) : FillTurn β F σ :=
  if st.rerror.isSome then .done st else .next st

/-- The synchronous message that is being sent, after the message `i` was sent to its
    end. -/
def currentAfter (P : Protocol β σ) (i : ℕ) (st : FillState β F σ) : Option ℕ :=
  if (switched P i st).writer.currentSynchronousMessageIdx = some i then none
  else (switched P i st).writer.currentSynchronousMessageIdx

/-- **All that a turn can do**, when the lists of the writer are `W`, `C` and `O`. -/
inductive TurnCase (P : Protocol β σ) (cfg : WriterConfiguration) (complete : CompleteFunction β F)
    (cap : ℕ) (st : FillState β F σ) (C O : List ℕ) : List ℕ → FillTurn β F σ → Prop where
  /-- no message, or no room -/
  | done {W : List ℕ} (h : W = [] ∨ st.freesz < P.minimumFreePacketDataSize) :
      TurnCase P cfg complete cap st C O W (.done st)
  /-- another synchronous message is being sent -/
  | rotate {i j : ℕ} {W : List ℕ} (hfree : P.minimumFreePacketDataSize ≤ st.freesz)
      (hsync : (st.writer.messageVec i).msgbundle.messageFlags.synchronous = true)
      (hcur : st.writer.currentSynchronousMessageIdx = some j) (hne : j ≠ i)
      (hinv : ((st.writer.writeErase i).writePushBack i).Inv (W ++ [i]) C O) :
      TurnCase P cfg complete cap st C O (i :: W)
        (.next { st with writer := (st.writer.writeErase i).writePushBack i })
  /-- the message was canceled -/
  | drop {i : ℕ} {W : List ℕ} {w' : MessageWriter β F σ}
      (hfree : P.minimumFreePacketDataSize ≤ st.freesz)
      (hdropped : (st.writer.messageVec i).Dropped) (hinv : w'.Inv W (i :: C) O)
      (hvec : ∀ j, j ≠ i → w'.messageVec j = st.writer.messageVec j)
      (hcur : w'.currentSynchronousMessageIdx = none ∨
        w'.currentSynchronousMessageIdx = st.writer.currentSynchronousMessageIdx) :
      TurnCase P cfg complete cap st C O (i :: W) (.next { switched P i st with writer := w' })
  /-- `run` makes no progress -/
  | fail {i : ℕ} {W : List ℕ} {m : Message β} {ser : σ} {r : SerializerRun σ}
      (hs : Serializes P cap st i m ser r) (hr : r.retval ≤ 0) :
      TurnCase P cfg complete cap st C O (i :: W) (.failed { switched P i st with
          writer := (switched P i st).writer.modifyStub i fun s =>
            { s with serializerPtr := some r.serializer }
          rerror := P.error r.serializer })
  /-- a piece is sent, and the message stays at the front -/
  | stay {i : ℕ} {W : List ℕ} {m : Message β} {ser : σ} {r : SerializerRun σ}
      {w' : MessageWriter β F σ} (hs : Serializes P cap st i m ser r) (hr : 0 < r.retval)
      (hempty : P.empty r.serializer = false)
      (hcount : (st.writer.messageVec i).packetCount + 1 < cfg.maxMessageContinuousPacketCount)
      (hinv : w'.Inv (i :: W) C O)
      (hvec : w'.messageVec = update st.writer.messageVec i
        { (st.writer.messageVec i).prepared P st.tmpSerializer with
          serializerPtr := some r.serializer
          packetCount := (st.writer.messageVec i).packetCount + 1 })
      (hcur : w'.currentSynchronousMessageIdx =
        (switched P i st).writer.currentSynchronousMessageIdx) :
      TurnCase P cfg complete cap st C O (i :: W)
        (endTurn { ran i r (switched P i st) with writer := w' })
  /-- a piece is sent, and the message goes to the back -/
  | back {i : ℕ} {W : List ℕ} {m : Message β} {ser : σ} {r : SerializerRun σ}
      {w' : MessageWriter β F σ} (hs : Serializes P cap st i m ser r) (hr : 0 < r.retval)
      (hempty : P.empty r.serializer = false)
      (hcount : cfg.maxMessageContinuousPacketCount ≤ (st.writer.messageVec i).packetCount + 1)
      (hinv : w'.Inv (W ++ [i]) C O)
      (hvec : w'.messageVec = update st.writer.messageVec i
        { (st.writer.messageVec i).prepared P st.tmpSerializer with
          serializerPtr := some r.serializer, packetCount := 0 })
      (hcur : w'.currentSynchronousMessageIdx =
        (switched P i st).writer.currentSynchronousMessageIdx) :
      TurnCase P cfg complete cap st C O (i :: W)
        (endTurn { ran i r (switched P i st) with writer := w' })
  /-- a request is sent to its end -/
  | wait {i : ℕ} {W : List ℕ} {m : Message β} {ser : σ} {r : SerializerRun σ}
      {w' : MessageWriter β F σ} (hs : Serializes P cap st i m ser r) (hr : 0 < r.retval)
      (hempty : P.empty r.serializer = true)
      (hwait : (st.writer.messageVec i).msgbundle.messageFlags.waitResponse = true)
      (hinv : w'.Inv W C O)
      (hvec : ∀ j, j ≠ i → w'.messageVec j = st.writer.messageVec j)
      (hstub : w'.messageVec i = (st.writer.messageVec i).doneSending)
      (hcur : w'.currentSynchronousMessageIdx = currentAfter P i st) :
      TurnCase P cfg complete cap st C O (i :: W) (endTurn { ran i r (switched P i st) with
          writer := w'
          tmpSerializer := some r.serializer
          events := st.events ++ [.sent m (st.writer.messageVec i).msgbundle.messageTypeId
            (st.writer.messageVec i).msgbundle.messageFlags.synchronous
            (contextOf i (st.writer.messageVec i).unique m)] })
  /-- another message is sent to its end: it is completed, and the callback enqueues the
      messages of the stubs `N` -/
  | complete {i : ℕ} {W N : List ℕ} {m : Message β} {ser : σ} {r : SerializerRun σ}
      {w₁ w' : MessageWriter β F σ} {b : MessageBundle β F} {es : List (WriterEvent β F)}
      {err : Option MpipcError} {reqs : List (MessageBundle β F × MessageId)}
      (hs : Serializes P cap st i m ser r) (hr : 0 < r.retval)
      (hempty : P.empty r.serializer = true) (hinv : w₁.Inv W (i :: C) (O.erase i))
      (hvec : ∀ j, j ≠ i → w₁.messageVec j = st.writer.messageVec j)
      (hcur : w₁.currentSynchronousMessageIdx = currentAfter P i st)
      (hentry : entryOf b (st.writer.messageVec i).poolMsgId =
        entryOf (st.writer.messageVec i).msgbundle (st.writer.messageVec i).poolMsgId)
      (hgrows : Grows cfg w₁ W (O.erase i) N es w') (hreqs : ∀ q ∈ reqs, Enqueueable q.1)
      (henq : enqueueAll cfg reqs w₁ = some (es, w'))
      (hwait : (st.writer.messageVec i).msgbundle.messageFlags.waitResponse = false) :
      TurnCase P cfg complete cap st C O (i :: W) (endTurn { ran i r (switched P i st) with
          writer := w'
          tmpSerializer := some r.serializer
          rerror := err
          events := st.events ++ [.sent m (st.writer.messageVec i).msgbundle.messageTypeId
            (st.writer.messageVec i).msgbundle.messageFlags.synchronous
            (contextOf i (st.writer.messageVec i).unique m)] ++
              .completed b (st.writer.messageVec i).poolMsgId :: es })

section Cases
variable {P : Protocol β σ} {cfg : WriterConfiguration} {complete : CompleteFunction β F} {cap : ℕ}
  {st : FillState β F σ} {turn : FillTurn β F σ} {i : ℕ} {W C O : List ℕ}

theorem Inv.drop {w : MessageWriter β F σ} (h : w.Inv (i :: W) C O)
    (hdropped : (w.messageVec i).Dropped) :
    (((w.writeErase i).doUnprepareMessageStub i).resetCurrentSynchronous i).Inv W (i :: C) O := by
  have hi : i ∉ O := by
    intro hmem
    have hptr := ((h.owned i).1 hmem).2
    rw [hdropped.messagePtr] at hptr
    cases hptr
  have hW : i ∉ W := (nodup_cons.1 h.write.nodup).1
  have hC : i ∉ C := fun hmem => h.disjoint mem_cons_self hmem
  have hlists := (h.toLists.writePopFront.2.doUnprepareMessageStub hW hC).resetCurrentSynchronous i
  rw [← erase_cons_head (a := i) (l := W), ← erase_of_not_mem hi] at hlists ⊢
  refine h.retire (h.writeLt i mem_cons_self) hlists ?_ (fun j hj => ?_) ?_ fun j hj => ?_
  · unfold resetCurrentSynchronous
    split_ifs <;> rfl
  · rw [resetCurrentSynchronous_vec]
    exact doUnprepareMessageStub_of_ne _ hj
  · rw [resetCurrentSynchronous_vec, doUnprepareMessageStub_self]
    exact clear_blank _
  · rw [resetCurrentSynchronous_current] at hj
    exact ⟨hj.1, hj.2⟩

/-- After a drop, no synchronous message is being sent, or the one that was before. -/
theorem dropped_current :
    ((((switched P i st).writer.writeErase i).doUnprepareMessageStub i).resetCurrentSynchronous
        i).currentSynchronousMessageIdx = none ∨
    ((((switched P i st).writer.writeErase i).doUnprepareMessageStub i).resetCurrentSynchronous
        i).currentSynchronousMessageIdx = st.writer.currentSynchronousMessageIdx := by
  rw [or_iff_not_imp_left]
  intro hsome
  obtain ⟨j, hj⟩ := Option.ne_none_iff_exists'.1 hsome
  obtain ⟨hne, hj'⟩ := (resetCurrentSynchronous_current _ _).1 hj
  rw [hj]
  change (if _ then _ else _) = some j at hj'
  split_ifs at hj'
  · exact absurd (Option.some.inj hj').symm hne
  · exact hj'.symm

variable {m : Message β} {ser : σ} {r : SerializerRun σ}

theorem Serializes.inv (hs : Serializes P cap st i m ser r) (h : st.writer.Inv (i :: W) C O) :
    (ran i r (switched P i st)).writer.Inv (i :: W) C O := by
  have hlive : ((st.writer.messageVec i).prepared P st.tmpSerializer).Live := hs.live.prepared
  refine h.switched.modify (f := fun s => { s with serializerPtr := some r.serializer })
    mem_cons_self (.inl ?_) rfl fun _ => rfl
  rw [switched_self]
  exact ⟨hlive.messagePtr, hlive.canceled, hlive.doneSend⟩

theorem ran_self (r : SerializerRun σ) : (ran i r (switched P i st)).writer.messageVec i =
    { (st.writer.messageVec i).prepared P st.tmpSerializer with
      serializerPtr := some r.serializer } := by
  rw [ran, modifyStub_self, switched_self]

theorem ran_of_ne (r : SerializerRun σ) (hj : j ≠ i) :
    (ran i r (switched P i st)).writer.messageVec j = st.writer.messageVec j := by
  rw [ran, modifyStub_of_ne _ hj, switched_of_ne hj]

/-- The writer after the message at the front is sent to its end. -/
def finished (w : MessageWriter β F σ) (i : ℕ) : MessageWriter β F σ :=
  ((w.writeErase i).resetCurrentSynchronous i).modifyStub i MessageStub.doneSending

section Finished
variable {w : MessageWriter β F σ}

theorem finished_self : (finished w i).messageVec i = (w.messageVec i).doneSending := by
  rw [finished, modifyStub_self, resetCurrentSynchronous_vec, writeErase_vec]

theorem finished_of_ne (hj : j ≠ i) : (finished w i).messageVec j = w.messageVec j := by
  rw [finished, modifyStub_of_ne _ hj, resetCurrentSynchronous_vec, writeErase_vec]

theorem finished_vecSize : (finished w i).vecSize = w.vecSize := by
  unfold finished resetCurrentSynchronous
  split_ifs <;> rfl

theorem finished_current : (finished w i).currentSynchronousMessageIdx = some j ↔
    j ≠ i ∧ w.currentSynchronousMessageIdx = some j := resetCurrentSynchronous_current _ _

theorem Lists.finished (h : w.Lists (i :: W) C O) : (finished w i).Lists W C O :=
  (h.writePopFront.2.resetCurrentSynchronous i).modifyStub i _

theorem Inv.finished_wait (h : w.Inv (i :: W) C O) (hlive : (w.messageVec i).Live)
    (hwait : (w.messageVec i).msgbundle.messageFlags.waitResponse) :
    (finished w i).Inv W C O := by
  have hlt : i < w.vecSize := h.writeLt i mem_cons_self
  have hW : i ∉ W := (nodup_cons.1 h.write.nodup).1
  have hC : i ∉ C := fun hmem => h.disjoint mem_cons_self hmem
  have hsize : (finished w i).vecSize = w.vecSize := finished_vecSize
  refine h.update (i := i) h.toLists.finished (hsize ▸ hlt) (fun j _ => by rw [hsize])
    (fun j hj => finished_of_ne hj) (fun j hj => by simp [hj]) (fun _ _ => Iff.rfl)
    (fun _ _ => Iff.rfl) (fun j hj => ?_) (.inr (.inr ⟨hW, hC, ?_⟩)) ?_
  · obtain ⟨hne, hj⟩ := finished_current.1 hj
    obtain ⟨hjW, hser⟩ := h.current j hj
    rw [finished_of_ne hne]
    exact ⟨by simpa [hne] using hjW, hser⟩
  · rw [finished_self]
    exact ⟨hlive.messagePtr, hlive.canceled, rfl, hwait, rfl⟩
  · rw [finished_self, h.owned i]
    exact and_iff_right hlt

theorem Inv.finished_complete (h : w.Inv (i :: W) C O) (hlive : (w.messageVec i).Live) :
    (((finished w i).orderErase i).doUnprepareMessageStub i).Inv W (i :: C) (O.erase i) := by
  have hlt : i < w.vecSize := h.writeLt i mem_cons_self
  have hi : i ∈ O := (h.owned i).2 ⟨hlt, hlive.messagePtr⟩
  have hW : i ∉ W := (nodup_cons.1 h.write.nodup).1
  have hlists :=
    (h.toLists.finished.orderErase hi).doUnprepareMessageStub hW (h.notMem_cache hi)
  rw [← erase_cons_head (a := i) (l := W)] at hlists ⊢
  refine h.retire hlt hlists finished_vecSize (fun j hj => ?_) ?_ fun j hj => finished_current.1 hj
  · exact (doUnprepareMessageStub_of_ne _ hj).trans (finished_of_ne hj)
  · rw [doUnprepareMessageStub_self]
    exact clear_blank _

end Finished

theorem turnCase_unfinished
    (h : st.writer.Inv (i :: W) C O) (hs : Serializes P cap st i m ser r) (hr : 0 < r.retval)
    (hempty : P.empty r.serializer = false) {ctx : ConnectionContext}
    (ht : doTryCompleteMessageAfterSerialization P cfg complete i ctx (ran i r (switched P i st)) =
      some st') : TurnCase P cfg complete cap st C O (i :: W) (endTurn st') := by
  have hinv := hs.inv h
  have hcount : ((st.writer.messageVec i).prepared P st.tmpSerializer).packetCount =
      (st.writer.messageVec i).packetCount := by
    unfold MessageStub.prepared
    cases (st.writer.messageVec i).serializerPtr <;> rfl
  have hlive : ((st.writer.messageVec i).prepared P st.tmpSerializer).Live := hs.live.prepared
  -- the packet count is the only thing that changes
  have hmod : ∀ n : ℕ, ((ran i r (switched P i st)).writer.modifyStub i
      fun s => { s with packetCount := n }).Inv (i :: W) C O := by
    intro n
    refine hinv.modify (f := fun s => { s with packetCount := n }) mem_cons_self (.inl ?_) rfl id
    rw [ran_self]
    exact ⟨hlive.messagePtr, hlive.canceled, hlive.doneSend⟩
  have hvec : ∀ n : ℕ, ((ran i r (switched P i st)).writer.modifyStub i
      fun s => { s with packetCount := n }).messageVec = update st.writer.messageVec i
        { (st.writer.messageVec i).prepared P st.tmpSerializer with
          serializerPtr := some r.serializer, packetCount := n } := by
    intro n
    funext j
    rcases eq_or_ne j i with rfl | hne
    · rw [modifyStub_self, update_self, ran_self]
    · rw [modifyStub_of_ne _ hne, update_of_ne hne, ran_of_ne r hne]
  have hser : ((ran i r (switched P i st)).writer.messageVec i).serializerPtr =
      some r.serializer := by rw [ran_self]
  have hnext : ((ran i r (switched P i st)).writer.messageVec i).packetCount + 1 =
      (st.writer.messageVec i).packetCount + 1 := by rw [ran_self, hcount]
  unfold doTryCompleteMessageAfterSerialization at ht
  simp only [hser, Option.bind_eq_bind, Option.bind_some, hempty, Bool.false_eq_true, if_false,
    modifyStub_self, hnext] at ht
  by_cases hmax : cfg.maxMessageContinuousPacketCount ≤ (st.writer.messageVec i).packetCount + 1
  · rw [if_pos hmax] at ht
    have hzero : ∀ w : MessageWriter β F σ, ((w.modifyStub i fun s =>
        { s with packetCount := s.packetCount + 1 }).modifyStub i fun s =>
          { s with packetCount := 0 }) = w.modifyStub i fun s => { s with packetCount := 0 } := by
      intro w
      simp [modifyStub]
    rw [hzero, (hmod 0).toLists.writePopFront.1] at ht
    cases ht
    exact .back hs hr hempty hmax (hmod 0).rotate (hvec 0) rfl
  · rw [if_neg hmax] at ht
    cases ht
    refine .stay hs hr hempty (by omega) (hmod (_ + 1)) ?_ rfl
    rw [← hnext]
    exact hvec _

theorem turnCase_finished
    (h : st.writer.Inv (i :: W) C O) (hs : Serializes P cap st i m ser r) (hr : 0 < r.retval)
    (hempty : P.empty r.serializer)
    (hcb : ∀ n b id, ∀ q ∈ (complete n b id).1, Enqueueable q.1)
    (ht : doTryCompleteMessageAfterSerialization P cfg complete i
      (contextOf i (st.writer.messageVec i).unique m) (ran i r (switched P i st)) = some st') :
    TurnCase P cfg complete cap st C O (i :: W) (endTurn st') := by
  have hinv := hs.inv h
  have hlive : ((st.writer.messageVec i).prepared P st.tmpSerializer).Live := hs.live.prepared
  have hstub : (ran i r (switched P i st)).writer.messageVec i = _ := ran_self r
  have hlive2 : ((ran i r (switched P i st)).writer.messageVec i).Live := by
    rw [hstub]
    exact ⟨hlive.messagePtr, hlive.canceled, hlive.doneSend⟩
  have hmessage : ((st.writer.messageVec i).prepared P st.tmpSerializer).msgbundle.messagePtr =
      some m := MessageStub.prepared_messagePtr.trans hs.message
  have htype : ((st.writer.messageVec i).prepared P st.tmpSerializer).msgbundle.messageTypeId =
      (st.writer.messageVec i).msgbundle.messageTypeId := MessageStub.prepared_messageTypeId
  have hpool : ((st.writer.messageVec i).prepared P st.tmpSerializer).poolMsgId =
      (st.writer.messageVec i).poolMsgId := MessageStub.prepared_poolMsgId
  have hvec : ∀ j, j ≠ i → (finished (ran i r (switched P i st)).writer i).messageVec j =
      st.writer.messageVec j := fun j hj => (finished_of_ne hj).trans (ran_of_ne r hj)
  have hsync : ((st.writer.messageVec i).prepared P
      st.tmpSerializer).msgbundle.messageFlags.synchronous =
      (st.writer.messageVec i).msgbundle.messageFlags.synchronous :=
      MessageStub.prepared_synchronous
  have hcur : (finished (ran i r (switched P i st)).writer i).currentSynchronousMessageIdx =
      currentAfter P i st := by
    have hsame : ((ran i r (switched P i st)).writer.writeErase i).currentSynchronousMessageIdx =
        (switched P i st).writer.currentSynchronousMessageIdx := rfl
    unfold currentAfter finished resetCurrentSynchronous
    rw [hsame]
    split_ifs <;> rfl
  have hser : ((ran i r (switched P i st)).writer.messageVec i).serializerPtr =
      some r.serializer := by rw [ran_self]
  have hself : (finished (ran i r (switched P i st)).writer i).messageVec i =
      MessageStub.doneSending _ := finished_self
  unfold doTryCompleteMessageAfterSerialization at ht
  simp only [hser, Option.bind_eq_bind, Option.bind_some, hempty, if_true,
    hinv.toLists.writePopFront.1] at ht
  change completeMessage cfg complete i _ _ (finished _ i) = _ at ht
  unfold completeMessage at ht
  rw [hself, hstub] at ht
  simp only [MessageStub.doneSending, hmessage, htype, hpool, hsync, Option.bind_eq_bind,
    Option.bind_some] at ht
  cases hwait : (st.writer.messageVec i).msgbundle.messageFlags.waitResponse with
  | true =>
    have hwait' : ((st.writer.messageVec i).prepared P
        st.tmpSerializer).msgbundle.messageFlags.waitResponse :=
      MessageStub.prepared_waitResponse.trans hwait
    rw [if_pos hwait'] at ht
    cases ht
    refine .wait hs hr hempty hwait (hinv.finished_wait hlive2 ?_) hvec ?_ hcur
    · rw [hstub]
      exact hwait'
    · rw [hself, hstub]
      exact MessageStub.prepared_doneSending
  | false =>
    have hwait' : ((st.writer.messageVec i).prepared P
        st.tmpSerializer).msgbundle.messageFlags.waitResponse = false :=
      MessageStub.prepared_waitResponse.trans hwait
    rw [if_neg (by simp [hwait'])] at ht
    obtain ⟨⟨es, w'⟩, henq, ht⟩ := Option.bind_eq_some_iff.1 ht
    obtain ⟨N, hgrows⟩ := enqueueAll_spec (hinv.finished_complete hlive2) (hcb _ _ _) henq
    cases ht
    refine .complete hs hr hempty (hinv.finished_complete hlive2) (fun j hj => ?_) hcur ?_ hgrows
      (hcb _ _ _) henq hwait
    · exact (doUnprepareMessageStub_of_ne _ hj).trans (hvec j hj)
    · simp only [entryOf, hs.message, MessageStub.prepared_completeFnc]

theorem turnCase_serialize (h : st.writer.Inv (i :: W) C O) (hlive : (st.writer.messageVec i).Live)
    (hfree : P.minimumFreePacketDataSize ≤ st.freesz)
    (hturn : (st.writer.messageVec i).msgbundle.messageFlags.synchronous →
      st.writer.currentSynchronousMessageIdx = none ∨
        st.writer.currentSynchronousMessageIdx = some i)
    (hcb : ∀ n b id, ∀ q ∈ (complete n b id).1, Enqueueable q.1)
    (ht : doSerialize P cfg complete cap i (switched P i st) = some turn) :
    TurnCase P cfg complete cap st C O (i :: W) turn := by
  obtain ⟨m, hm⟩ := Option.isSome_iff_exists.1 hlive.messagePtr
  have hunique : ((st.writer.messageVec i).prepared P st.tmpSerializer).unique =
      (st.writer.messageVec i).unique := by
    unfold MessageStub.prepared
    cases (st.writer.messageVec i).serializerPtr <;> rfl
  have hm' : ((st.writer.messageVec i).prepared P st.tmpSerializer).msgbundle.messagePtr = some m :=
    MessageStub.prepared_messagePtr.trans hm
  unfold doSerialize at ht
  rw [switched_self] at ht
  simp only [hm', hunique, Option.bind_eq_bind, Option.bind_some] at ht
  obtain ⟨ser, hser, ht⟩ := Option.bind_eq_some_iff.1 ht
  obtain ⟨r, hrun, ht⟩ := Option.bind_eq_some_iff.1 ht
  have hs : Serializes P cap st i m ser r := ⟨hfree, hturn, hlive, hm, hser, hrun⟩
  by_cases hr : 0 < r.retval
  · rw [if_pos hr] at ht
    obtain ⟨st', hst', ht⟩ := Option.bind_eq_some_iff.1 ht
    have hend : turn = endTurn st' := by
      unfold endTurn
      split_ifs at ht ⊢
      · exact (Option.some.inj ht).symm
      · exact (Option.some.inj ht).symm
    rw [hend]
    cases hempty : P.empty r.serializer with
    | false => exact turnCase_unfinished h hs hr hempty hst'
    | true => exact turnCase_finished h hs hr hempty hcb hst'
  · rw [if_neg hr] at ht
    cases ht
    exact .fail hs (by omega)

/-- **What a turn does is one of the cases.** -/
theorem fillTurn_cases (h : st.writer.Inv W C O)
    (hcb : ∀ n b id, ∀ q ∈ (complete n b id).1, Enqueueable q.1)
    (ht : fillTurn P cfg complete cap st = some turn) :
    TurnCase P cfg complete cap st C O W turn := by
  unfold fillTurn at ht
  cases W with
  | nil =>
    have hsize : st.writer.writeInnerList.size = 0 := h.write.size
    rw [if_neg (by simp [hsize])] at ht
    cases ht
    exact .done (.inl rfl)
  | cons i W =>
    have hfront : st.writer.writeInnerList.front = some i := h.write.front
    by_cases hfree : P.minimumFreePacketDataSize ≤ st.freesz
    · rw [if_pos ⟨h.write.size_pos, hfree⟩, hfront] at ht
      simp only [Option.bind_eq_bind, Option.bind_some] at ht
      by_cases hother : (st.writer.messageVec i).msgbundle.messageFlags.synchronous ∧
          st.writer.currentSynchronousMessageIdx ≠ none ∧
          st.writer.currentSynchronousMessageIdx ≠ some i
      · rw [if_pos hother, h.toLists.writePopFront.1] at ht
        cases ht
        obtain ⟨hsync, hsome, hne⟩ := hother
        obtain ⟨j, hj⟩ := Option.ne_none_iff_exists'.1 hsome
        exact .rotate hfree hsync hj (fun heq => hne (heq ▸ hj)) h.rotate
      · rw [if_neg hother] at ht
        rw [doSwitch_eq, switched_self, MessageStub.prepared_canceled] at ht
        rcases h.written i mem_cons_self with hlive | hdropped
        · have hcanceled : (st.writer.messageVec i).isCanceled = false := hlive.canceled
          rw [if_neg (by simp [hcanceled])] at ht
          refine turnCase_serialize h hlive hfree (fun hsync => ?_) hcb ht
          by_contra hcur
          rw [not_or] at hcur
          exact hother ⟨hsync, hcur⟩
        · have hcanceled : (st.writer.messageVec i).isCanceled := hdropped.canceled
          rw [if_pos hcanceled] at ht
          cases ht
          have hdropped1 : ((switched P i st).writer.messageVec i).Dropped := by
            rw [switched_self, hdropped.prepared]
            exact hdropped
          refine .drop hfree hdropped (h.switched.drop hdropped1) (fun j hj => ?_) ?_
          · rw [resetCurrentSynchronous_vec, doUnprepareMessageStub_of_ne _ hj, writeErase_vec,
              switched_of_ne hj]
          · exact dropped_current
    · rw [if_neg (by simp [hfree])] at ht
      cases ht
      exact .done (.inr (by omega))

end Cases

end MessageWriter

end SolidFrame
