/-
  SolidFrame formalization — what a connection sees of its writer (`MessageWriter` in
  `solid/frame/mpipc/src/mpipcmessagewriter.cpp`).

  The service sees of a writer the messages of its order list.  `MessageWriter` has the
  lists, the serializers and the packets; what its `enqueue`, `cancel` and `write` do is seen
  as steps of `ConnectionWriter`.  The ids of the messages are not compared.
-/
import SolidFrame.Mpipc.ConnectionPool
import SolidFrame.Mpipc.MessageWriterRuns

namespace SolidFrame

open List Function Relation MessageWriter

variable {β F σ : Type}

/-- A message without its id, and without its serializer when it is not being sent. -/
def WriterMessage.seen (m : WriterMessage β F) : WriterMessage β F :=
  { m with connMsgId := {}, started := m.writing && m.started }

/-- The message of the stub `i` of a writer with the write list `W`. -/
def MessageWriter.shown (w : MessageWriter β F σ) (W : List ℕ) (i : ℕ) : WriterMessage β F where
  msgbundle := (w.messageVec i).msgbundle
  connMsgId := {}
  poolMsgId := (w.messageVec i).poolMsgId
  writing := decide (i ∈ W)
  started := decide (i ∈ W) && (w.messageVec i).serializerPtr.isSome

theorem MessageWriter.shown_congr {w w' : MessageWriter β F σ} {W W' : List ℕ} {i : ℕ}
    (hvec : w'.messageVec i = w.messageVec i) (hW : i ∈ W' ↔ i ∈ W) :
    w'.shown W' i = w.shown W i := by
  simp only [shown, hvec, hW]

namespace ConnectionWriter
variable {v v' : ConnectionWriter β F} {w w' : MessageWriter β F σ} {W W' C O : List ℕ} {i : ℕ}
  {cfg : WriterConfiguration}

/-- `v` is what is seen of a writer with the write list `W` and the order list `O`. -/
structure Shows (v : ConnectionWriter β F) (w : MessageWriter β F σ) (W O : List ℕ) : Prop where
  messages : v.messages.map WriterMessage.seen = O.map (w.shown W)
  canceled : v.canceled = (W.filter (· ∉ O)).length

namespace Shows

theorem length_eq (h : v.Shows w W O) : v.messages.length = O.length := by
  simpa using congrArg length h.messages

/-- The write list has the messages that are being sent and the canceled ones. -/
theorem writeSize_eq (h : v.Shows w W O) (hinv : w.Inv W C O) : v.writeSize = W.length := by
  have hcount : (v.messages.filter WriterMessage.writing).length = (O.filter (· ∈ W)).length := by
    have hmap := congrArg (fun l => (l.filter WriterMessage.writing).length) h.messages
    simpa [filter_map, Function.comp_def, WriterMessage.seen, shown] using hmap
  have hperm : O.filter (· ∈ W) ~ W.filter (· ∈ O) := by
    refine (perm_ext_iff_of_nodup (hinv.orderNodup.filter _) (hinv.write.nodup.filter _)).2 ?_
    simp [and_comm]
  rw [writeSize, hcount, hperm.length_eq, h.canceled]
  simpa using (length_eq_length_filter_add (l := W) (· ∈ O)).symm

/-- **The message of the stub `i`** has a place `k`; what is done there and to the stub alone is
    seen. -/
theorem place (h : v.Shows w W O) (hinv : w.Inv W C O) (hi : i ∈ O) :
    ∃ k m, v.messages[k]? = some m ∧ m.seen = w.shown W i ∧
      (∀ (w' : MessageWriter β F σ) W', (∀ j, j ≠ i → w'.shown W' j = w.shown W j) →
        (v.messages.eraseIdx k).map WriterMessage.seen = (O.erase i).map (w'.shown W') ∧
        ∀ f, (f m).seen = w'.shown W' i →
          (v.messages.modify k f).map WriterMessage.seen = O.map (w'.shown W')) := by
  obtain ⟨A, B, rfl⟩ := append_of_mem hi
  have hmessages := h.messages
  rw [map_append, map_cons] at hmessages
  obtain ⟨A', l, hv, hA, hl⟩ := map_eq_append_iff.1 hmessages
  obtain ⟨m, B', rfl, hm, hB⟩ := map_eq_cons_iff.1 hl
  have hnot : i ∉ A ∧ i ∉ B := by
    have hnodup := hinv.orderNodup
    simp only [nodup_append, nodup_cons, mem_cons] at hnodup
    exact ⟨fun hmem => hnodup.2.2 i hmem i (.inl rfl) rfl, hnodup.2.1.1⟩
  have hlen : A'.length ≤ A'.length := le_rfl
  refine ⟨A'.length, m, by simp [hv], hm, fun w' W' hsame => ?_⟩
  have hother : ∀ l : List ℕ, i ∉ l → l.map (w'.shown W') = l.map (w.shown W) :=
    fun l hl => map_congr_left fun j hj => hsame j fun heq => hl (heq ▸ hj)
  refine ⟨?_, fun f hf => ?_⟩
  · rw [hv, eraseIdx_append_of_length_le hlen, erase_append_right _ hnot.1]
    simp [hA, hB, hother A hnot.1, hother B hnot.2]
  · rw [hv, modify_eq_take_drop]
    simp [hA, hB, hf, hother A hnot.1, hother B hnot.2]

/-- **`enqueue`** refuses the same messages. -/
theorem enqueue (h : v.Shows w W O) (hinv : w.Inv W C O) {b : MessageBundle β F}
    (hb : Enqueueable b) {poolMsgId : MessageId} {connMsgId : Option MessageId}
    (he : w.enqueue cfg b poolMsgId = some (connMsgId, w')) :
    (connMsgId = none ∧ w' = w ∧ v.enqueue cfg b poolMsgId = none) ∨
    ∃ id v' W' C' O', connMsgId.isSome ∧ v.enqueue cfg b poolMsgId = some (id, v') ∧
      w'.Inv W' C' O' ∧ v'.Shows w' W' O' := by
  have hspec := enqueue_spec hinv hb he
  rw [MessageWriter.enqueue, hinv.write.size, hinv.order.size, ← h.writeSize_eq hinv,
    ← h.length_eq] at he
  unfold ConnectionWriter.enqueue
  split_ifs at he ⊢ with hfull hresponse
  · cases he
    exact .inl ⟨rfl, rfl, rfl⟩
  · cases he
    exact .inl ⟨rfl, rfl, rfl⟩
  rcases hspec with heq | ⟨i, C', u, hid, -, hW, hO, hinv', hvec, -⟩
  · obtain ⟨p, -, hp⟩ := Option.map_eq_some_iff.1 he
    cases heq
    cases hp
  dsimp only at hvec
  have hne : ∀ {l : List ℕ} {j}, i ∉ l → j ∈ l → j ≠ i := fun hl hj heq => hl (heq ▸ hj)
  refine .inr ⟨_, _, _, C', _, Option.isSome_iff_exists.2 ⟨_, hid⟩, rfl, hinv', ?_, ?_⟩
  · have hold : O.map (w'.shown (W ++ [i])) = O.map (w.shown W) := by
      refine map_congr_left fun j hj => shown_congr ?_ ?_
      · rw [hvec, update_of_ne (hne hO hj)]
      · simp [hne hO hj]
    rw [map_append, map_append, h.messages, hold]
    simp [WriterMessage.seen, shown, hvec]
  · have hold : W.filter (· ∉ O ++ [i]) = W.filter (· ∉ O) :=
      filter_congr fun j hj => by simp [hne hW hj]
    rw [filter_append, hold]
    simpa using h.canceled

theorem filter_erase (hinv : w.Inv W C O) (hi : i ∈ O) :
    (W.erase i).filter (· ∉ O.erase i) = W.filter (· ∉ O) := by
  rw [hinv.write.nodup.erase_eq_filter, filter_filter]
  refine filter_congr fun j _ => ?_
  rcases eq_or_ne j i with rfl | hne
  · simp [hi]
  · simp [hne, mem_erase_of_ne hne]

/-- **`cancel`** of a message; a request must have been started. -/
theorem cancel (P : Protocol β σ) (h : v.Shows w W O) (hinv : w.Inv W C O) (hi : i ∈ O)
    (hstarted : ¬ Unstarted (w.messageVec i)) :
    ∃ k m v' w' W' C', v.cancelAt k = some (some m, v') ∧ m.seen = w.shown W i ∧
      w.doCancel P i = (some ((w.messageVec i).msgbundle.setCanceled,
        (w.messageVec i).poolMsgId), w') ∧
      w'.Inv W' C' (O.erase i) ∧ v'.Shows w' W' (O.erase i) := by
  obtain ⟨k, m, hk, hm, hplace⟩ := h.place hinv hi
  obtain ⟨w', hcancel, hvec, -, hcase⟩ := doCancel_spec P hinv hi hstarted
  have hbundle : m.msgbundle = (w.messageVec i).msgbundle := congrArg WriterMessage.msgbundle hm
  have hwriting : m.writing = decide (i ∈ W) := congrArg WriterMessage.writing hm
  have hstart : (m.writing && m.started) =
      (decide (i ∈ W) && (w.messageVec i).serializerPtr.isSome) :=
    congrArg WriterMessage.started hm
  rcases hcase with ⟨ser, hser, hW, hinv', -⟩ | ⟨hser, hinv'⟩
  · refine ⟨k, m, { v.erase k with canceled := v.canceled + 1 }, w', W, C, ?_, hm, hcancel, hinv',
      (hplace w' W fun j hj => shown_congr (hvec j hj) .rfl).1, ?_⟩
    · have hmw : m.writing = true := by simp [hwriting, hW]
      have hms : m.started = true := by simpa [hmw, hW, hser] using hstart
      simp [cancelAt, hk, hmw, hms]
    · rw [((perm_cons_erase hW).filter _).length_eq, filter_cons_of_pos, filter_erase hinv hi,
        length_cons, h.canceled]
      simpa using hinv.orderNodup.not_mem_erase
  · refine ⟨k, m, v.erase k, w', W.erase i, i :: C, ?_, hm, hcancel, hinv',
      (hplace w' _ fun j hj => shown_congr (hvec j hj) (mem_erase_of_ne hj)).1, ?_⟩
    · by_cases hW : i ∈ W
      · have hmw : m.writing = true := by simp [hwriting, hW]
        have hms : m.started = false := by simpa [hmw, hW, hser] using hstart
        have hwait : m.msgbundle.messageFlags.waitResponse = false := by
          rcases hinv.live_or_waiting hi with ⟨-, hlive⟩ | ⟨hnot, -⟩
          · rw [hbundle]
            by_contra hwait
            exact hstarted ⟨hser, by simpa using hwait, hlive.doneSend⟩
          · exact absurd hW hnot
        simp [cancelAt, hk, hmw, hms, hwait]
      · have hmw : m.writing = false := by simp [hwriting, hW]
        simp [cancelAt, hk, hmw]
    · exact (filter_erase hinv hi) ▸ h.canceled

end Shows

/-! ## A packet is filled -/

/-- The steps of the service on the writer of a connection that sends. -/
inductive Sends (cfg : WriterConfiguration) (v : ConnectionWriter β F) :
    ConnectionWriter β F → Prop where
  | startSend (k : ℕ) : Sends cfg v (v.startSend k)
  | sent {k : ℕ} {m : WriterMessage β F} (hk : v.messages[k]? = some m) (hwriting : m.writing)
      (hwait : m.msgbundle.messageFlags.waitResponse) : Sends cfg v (v.sent k)
  | completed {k : ℕ} {m : WriterMessage β F} (hk : v.messages[k]? = some m)
      (hwriting : m.writing) (hwait : ¬ m.msgbundle.messageFlags.waitResponse) :
      Sends cfg v (v.erase k)
  | sentCanceled (h : 0 < v.canceled) : Sends cfg v { v with canceled := v.canceled - 1 }
  | enqueue {b : MessageBundle β F} {poolMsgId id : MessageId} {v' : ConnectionWriter β F}
      (h : v.enqueue cfg b poolMsgId = some (id, v')) : Sends cfg v v'

/-- What is seen of `w` comes from `v` by steps of the service. -/
def Follows (cfg : WriterConfiguration) (v : ConnectionWriter β F) (w : MessageWriter β F σ) :
    Prop :=
  ∃ v' W C O, ReflTransGen (Sends cfg) v v' ∧ w.Inv W C O ∧ v'.Shows w W O

theorem Follows.enqueueAll {reqs : List (MessageBundle β F × MessageId)}
    {es : List (WriterEvent β F)} (h : v.Follows cfg w) (hreqs : ∀ q ∈ reqs, Enqueueable q.1)
    (he : MessageWriter.enqueueAll cfg reqs w = some (es, w')) : v.Follows cfg w' := by
  induction reqs generalizing w es with
  | nil =>
    cases he
    exact h
  | cons q reqs ih =>
    rw [MessageWriter.enqueueAll] at he
    obtain ⟨⟨id, w₁⟩, he1, he⟩ := Option.bind_eq_some_iff.1 he
    obtain ⟨⟨es', w₂⟩, he2, he⟩ := Option.bind_eq_some_iff.1 he
    have hw : w₂ = w' := by
      cases id <;> cases he <;> rfl
    obtain ⟨v₁, W, C, O, hsends, hinv, hshows⟩ := h
    refine ih ?_ (fun q hq => hreqs q (mem_cons_of_mem _ hq)) (hw ▸ he2)
    rcases hshows.enqueue hinv (hreqs q mem_cons_self) he1 with
      ⟨-, rfl, -⟩ | ⟨id', v', W', C', O', -, henq, hinv', hshows'⟩
    · exact ⟨v₁, W, C, O, hsends, hinv, hshows⟩
    · exact ⟨v', W', C', O', hsends.tail (.enqueue henq), hinv', hshows'⟩

section Turn
variable {P : Protocol β σ} {complete : CompleteFunction β F} {cap : ℕ}
  {st st' : FillState β F σ}

/-- The stub `i` has a serializer now. -/
theorem Shows.started (h : v.Shows w W O) (hinv : w.Inv W C O) (hi : i ∈ O) (hW : i ∈ W)
    (hperm : W' ~ W) {tmp : Option σ} {ser : σ} {n : ℕ}
    (hvec : w'.messageVec = update w.messageVec i { (w.messageVec i).prepared P tmp with
      serializerPtr := some ser, packetCount := n }) :
    ∃ v', ReflTransGen (Sends cfg) v v' ∧ v'.Shows w' W' O := by
  have hother : ∀ j, j ≠ i → w'.shown W' j = w.shown W j := fun j hj =>
    shown_congr (by rw [hvec, update_of_ne hj]) hperm.mem_iff
  have hcanceled : v.canceled = (W'.filter (· ∉ O)).length :=
    h.canceled.trans (hperm.filter _).length_eq.symm
  cases hser : (w.messageVec i).serializerPtr with
  | none =>
    obtain ⟨k, m, -, hm, hplace⟩ := h.place hinv hi
    refine ⟨v.startSend k, .single (.startSend k), (hplace w' W' hother).2 _ ?_, hcanceled⟩
    simp only [WriterMessage.seen, shown, WriterMessage.mk.injEq, hW, decide_true] at hm
    simp [WriterMessage.seen, shown, hvec, MessageStub.prepared, hser, hperm.mem_iff, hW, hm]
  | some ser' =>
    refine ⟨v, .refl, h.messages.trans (map_congr_left fun j _ => ?_), hcanceled⟩
    rcases eq_or_ne j i with rfl | hne
    · simp [shown, hvec, MessageStub.prepared, hser, hperm.mem_iff]
    · exact (hother j hne).symm

/-- **A turn of the loop is seen as steps of the service.** -/
theorem Shows.fillTurn {turn : FillTurn β F σ} (h : v.Shows st.writer W O)
    (hinv : st.writer.Inv W C O) (hcase : TurnCase P cfg complete cap st C O W turn)
    (hturn : turn.state? = some st') : v.Follows cfg st'.writer := by
  have howned : ∀ {i}, i ∈ W → (st.writer.messageVec i).Live → i ∈ O := fun hW hlive =>
    (hinv.owned _).2 ⟨hinv.writeLt _ hW, hlive.messagePtr⟩
  cases hcase with
  | done =>
    cases hturn
    exact ⟨v, W, C, O, .refl, hinv, h⟩
  | @rotate i j W hfree hsync hcur hne hinv' =>
    cases hturn
    have hperm : W ++ [i] ~ i :: W := perm_append_singleton i W
    refine ⟨v, _, C, O, .refl, hinv', ?_, h.canceled.trans (hperm.filter _).length_eq.symm⟩
    exact h.messages.trans (map_congr_left fun j _ => (shown_congr rfl hperm.mem_iff).symm)
  | @drop i W w' hfree hdropped hinv' hvec hcur =>
    cases hturn
    have hi : i ∉ O := fun hmem => by simpa [hdropped.messagePtr] using ((hinv.owned i).1 hmem).2
    have hcanceled := h.canceled
    rw [filter_cons_of_pos (by simpa using hi), length_cons] at hcanceled
    refine ⟨_, W, _, O, .single (.sentCanceled (by omega)), hinv', ?_,
      Nat.sub_eq_of_eq_add hcanceled⟩
    refine h.messages.trans (map_congr_left fun j hj => (shown_congr ?_ ?_).symm)
    · exact hvec j fun heq => hi (heq ▸ hj)
    · simp [show j ≠ i from fun heq => hi (heq ▸ hj)]
  | fail => cases hturn
  | @stay i W m ser r w' hs hr hempty hcount hinv' hvec hcur =>
    rw [endTurn_state?] at hturn
    cases hturn
    obtain ⟨v', hsends, h'⟩ := h.started hinv (howned mem_cons_self hs.live) mem_cons_self
      (Perm.refl _) hvec
    exact ⟨v', _, C, O, hsends, hinv', h'⟩
  | @back i W m ser r w' hs hr hempty hcount hinv' hvec hcur =>
    rw [endTurn_state?] at hturn
    cases hturn
    obtain ⟨v', hsends, h'⟩ := h.started hinv (howned mem_cons_self hs.live) mem_cons_self
      (perm_append_singleton i W) hvec
    exact ⟨v', _, C, O, hsends, hinv', h'⟩
  | @wait i W m ser r w' hs hr hempty hwait hinv' hvec hstub hcur =>
    rw [endTurn_state?] at hturn
    cases hturn
    have hi : i ∈ O := howned mem_cons_self hs.live
    have hW : i ∉ W := (nodup_cons.1 hinv.write.nodup).1
    obtain ⟨k, m, hk, hm, hplace⟩ := h.place hinv hi
    simp only [WriterMessage.seen, shown, WriterMessage.mk.injEq] at hm
    refine ⟨v.sent k, W, C, O, .single (.sent hk (by simp [hm]) (by simp [hm, hwait])), hinv',
      (hplace w' W fun j hj => shown_congr (hvec j hj) (by simp [hj])).2 _ ?_, ?_⟩
    · simp [WriterMessage.seen, shown, hstub, MessageStub.doneSending, hW, hm]
    · exact h.canceled.trans (by rw [filter_cons_of_neg (by simpa using hi)])
  | @complete i W N m ser r w₁ w' b es err reqs hs hr hempty hinv' hvec hcur hentry hgrows hreqs
      henq hwait =>
    rw [endTurn_state?] at hturn
    cases hturn
    have hi : i ∈ O := howned mem_cons_self hs.live
    obtain ⟨k, m, hk, hm, hplace⟩ := h.place hinv hi
    simp only [WriterMessage.seen, shown, WriterMessage.mk.injEq] at hm
    have hcanceled := filter_erase hinv hi
    rw [erase_cons_head] at hcanceled
    refine Follows.enqueueAll ⟨v.erase k, W, _, _, .single (.completed hk (by simp [hm])
      (by simp [hm, hwait])), hinv', ?_, hcanceled ▸ h.canceled⟩ hreqs henq
    exact (hplace w₁ W fun j hj => shown_congr (hvec j hj) (by simp [hj])).1

/-- **A call of `write` is seen as steps of the service.** -/
theorem Shows.write {fuel bufsz : ℕ} {keepAlive : Bool} {st : WriteState β F σ}
    (hcb : ∀ n b id, ∀ q ∈ (complete n b id).1, Enqueueable q.1) (h : v.Shows w W O)
    (hinv : w.Inv W C O)
    (hwrite : MessageWriter.write P cfg complete fuel bufsz keepAlive w = some st) :
    v.Follows cfg st.writer := by
  refine write_invariant (I := fun w' _ _ => v.Follows cfg w') (fun _ _ _ => id) ?_
    ⟨v, W, C, O, .refl, hinv, h⟩ writeAlong_true hwrite
  rintro cap st turn st' ⟨v₁, W₁, C₁, O₁, hsends, hinv₁, h₁⟩ hturn hstate -
  obtain ⟨v₂, W₂, C₂, O₂, hsends₂, hinv₂, h₂⟩ :=
    h₁.fillTurn hinv₁ (fillTurn_cases hinv₁ hcb hturn) hstate
  exact ⟨v₂, W₂, C₂, O₂, hsends.trans hsends₂, hinv₂, h₂⟩

end Turn

end ConnectionWriter

end SolidFrame
