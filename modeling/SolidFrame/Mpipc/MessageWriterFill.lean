/-
  SolidFrame formalization — the loop that fills a packet
  (`MessageWriter::doFillPacket` in `solid/frame/mpipc/src/mpipcmessagewriter.cpp`).

  A turn of the loop moves a synchronous message behind the one that is being sent, drops a
  message that was cancelled, or gives a message the room that is left.
-/
import SolidFrame.Mpipc.MessageWriterRuns

namespace SolidFrame

open List MessageWriter Option

/-- A successful `run` writes as many bytes as it returns, into the buffer it was given. -/
def Protocol.Bounded {β σ : Type} (P : Protocol β σ) : Prop :=
  ∀ ctx ser n r, P.run ctx ser n = some r → 0 < r.retval →
    (r.out.length : ℤ) = r.retval ∧ r.out.length ≤ n

namespace MessageWriter
variable {β F σ : Type}

/-! ## The two lists -/

/-- The write list and the cache list of a writer, of stubs of its vector. -/
structure Queues (w : MessageWriter β F σ) (W C : List ℕ) : Prop where
  write : w.writeInnerList.Repr w.statusLinks W
  cache : w.cacheInnerList.Repr w.statusLinks C
  disjoint : W.Disjoint C
  writeLt : ∀ i ∈ W, i < w.vecSize
  cacheLt : ∀ i ∈ C, i < w.vecSize

namespace Queues
variable {w w' : MessageWriter β F σ} {W C W' C' : List ℕ} {i : ℕ}

theorem lists (h : w.Queues W C) : ({ w with orderInnerList := .empty }).Lists W C [] :=
  ⟨h.write, h.cache, InnerList.repr_empty _, h.disjoint⟩

/-- Neither the stubs nor the order list nor the message that is being sent count. -/
theorem congr (h : w.Queues W C) (hwrite : w'.writeInnerList = w.writeInnerList)
    (hcache : w'.cacheInnerList = w.cacheInnerList) (hlinks : w'.statusLinks = w.statusLinks)
    (hsize : w'.vecSize = w.vecSize) : w'.Queues W C := by
  refine ⟨?_, ?_, h.disjoint, ?_, ?_⟩
  · rw [hwrite, hlinks]
    exact h.write
  · rw [hcache, hlinks]
    exact h.cache
  · rw [hsize]
    exact h.writeLt
  · rw [hsize]
    exact h.cacheLt

theorem modifyStub (h : w.Queues W C) (i : ℕ) (f : MessageStub β F σ → MessageStub β F σ) :
    (w.modifyStub i f).Queues W C := h.congr rfl rfl rfl rfl

theorem resetCurrentSynchronous (h : w.Queues W C) (i : ℕ) :
    (w.resetCurrentSynchronous i).Queues W C := by
  unfold MessageWriter.resetCurrentSynchronous
  split_ifs
  · exact h.congr rfl rfl rfl rfl
  · exact h

theorem writePushBack (h : w.Queues W C) (hW : i ∉ W) (hC : i ∉ C) (hi : i < w.vecSize) :
    (w.writePushBack i).Queues (W ++ [i]) C := by
  have hlists := h.lists.writePushBack hW hC
  refine ⟨hlists.write, hlists.cache, hlists.disjoint, fun j hj => ?_, h.cacheLt⟩
  rcases mem_append.1 hj with hj | hj
  · exact h.writeLt j hj
  · rw [mem_singleton.1 hj]
    exact hi

theorem writeErase (h : w.Queues (i :: W) C) : (w.writeErase i).Queues W C := by
  have hlists := h.lists.writePopFront.2
  exact ⟨hlists.write, hlists.cache, hlists.disjoint,
    fun j hj => h.writeLt j (mem_cons_of_mem i hj), h.cacheLt⟩

theorem writePopFront (h : w.Queues (i :: W) C) : w.writePopFront = some (w.writeErase i) := by
  obtain ⟨hpop, -, -⟩ := h.write.popFront
  rw [MessageWriter.writePopFront, hpop]
  rfl

theorem notMem (h : w.Queues (i :: W) C) : i ∉ W ∧ i ∉ C :=
  ⟨(nodup_cons.1 h.write.nodup).1, fun hC => h.disjoint mem_cons_self hC⟩

theorem rotate (h : w.Queues (i :: W) C) : ((w.writeErase i).writePushBack i).Queues (W ++ [i]) C :=
  h.writeErase.writePushBack h.notMem.1 h.notMem.2 (h.writeLt i mem_cons_self)

theorem doUnprepareMessageStub (h : w.Queues W C) (hW : i ∉ W) (hC : i ∉ C)
    (hi : i < w.vecSize) : (w.doUnprepareMessageStub i).Queues W (i :: C) := by
  have hlists := h.lists.doUnprepareMessageStub hW hC
  refine ⟨hlists.write, hlists.cache, hlists.disjoint, h.writeLt, fun j hj => ?_⟩
  rcases mem_cons.1 hj with rfl | hj
  · exact hi
  · exact h.cacheLt j hj

theorem allocateStub (h : w.Queues W C) : ∃ i w1 C', w.allocateStub = some (i, w1) ∧
    w1.Queues W C' ∧ i ∉ W ∧ i ∉ C' ∧ i < w1.vecSize ∧
    w1.currentSynchronousMessageIdx = w.currentSynchronousMessageIdx := by
  unfold MessageWriter.allocateStub
  cases C with
  | nil =>
    have hsize : w.cacheInnerList.size = 0 := h.cache.size
    have hW : w.vecSize ∉ W := fun hmem => absurd (h.writeLt _ hmem) (Nat.lt_irrefl _)
    rw [if_neg (not_not.2 hsize)]
    refine ⟨w.vecSize, _, [], rfl, ⟨?_, ?_, h.disjoint, ?_, ?_⟩, hW, List.not_mem_nil,
      Nat.lt_succ_self _, rfl⟩
    · exact h.write.congr fun x hx =>
        Function.update_of_ne (fun heq : x = w.vecSize => hW (heq ▸ hx)) _ _
    · exact h.cache.congr fun x hx => absurd hx List.not_mem_nil
    · exact fun j hj => Nat.lt_succ_of_lt (h.writeLt j hj)
    · exact fun j hj => absurd hj List.not_mem_nil
  | cons i C =>
    obtain ⟨hpop, hcache, hframe⟩ := h.cache.popFront
    have hW : i ∉ W := fun hmem => h.disjoint hmem List.mem_cons_self
    have hC : i ∉ C := (List.nodup_cons.1 h.cache.nodup).1
    rw [if_pos h.cache.size_pos, hpop]
    refine ⟨i, _, C, rfl, ⟨?_, hcache, ?_, h.writeLt, ?_⟩, hW, hC,
      h.cacheLt i List.mem_cons_self, rfl⟩
    · exact h.write.congr fun x hx => hframe x fun hxC => h.disjoint hx hxC
    · exact fun x hx hxC => h.disjoint hx (List.mem_cons_of_mem i hxC)
    · exact fun j hj => h.cacheLt j (List.mem_cons_of_mem i hj)

variable (cfg : WriterConfiguration)

theorem enqueue (h : w.Queues W C) (b : MessageBundle β F) (id : MessageId) :
    ∃ conn w' N C', w.enqueue cfg b id = some (conn, w') ∧ w'.Queues (W ++ N) C' ∧
      w'.currentSynchronousMessageIdx = w.currentSynchronousMessageIdx := by
  have hrefused : w.Queues (W ++ []) C := by rwa [List.append_nil]
  unfold MessageWriter.enqueue
  split_ifs
  · exact ⟨none, w, [], C, rfl, hrefused, rfl⟩
  · exact ⟨none, w, [], C, rfl, hrefused, rfl⟩
  · obtain ⟨i, w1, C', halloc, hw1, hW, hC, hi, hcur⟩ := h.allocateStub
    rw [halloc, Option.map_some]
    refine ⟨_, _, [i], C', rfl, Queues.writePushBack ?_ hW hC hi, hcur⟩
    exact hw1.congr rfl rfl rfl rfl

theorem enqueueAll (h : w.Queues W C) (reqs : List (MessageBundle β F × MessageId)) :
    ∃ events w' N C', enqueueAll cfg reqs w = some (events, w') ∧ w'.Queues (W ++ N) C' ∧
      w'.currentSynchronousMessageIdx = w.currentSynchronousMessageIdx := by
  induction reqs generalizing w W C with
  | nil => exact ⟨[], w, [], C, rfl, by rwa [append_nil], rfl⟩
  | cons req reqs ih =>
    obtain ⟨conn, w1, N, C1, henqueue, hq1, hcur1⟩ := h.enqueue cfg req.1 req.2
    obtain ⟨es, w2, M, C2, hrest, hq2, hcur2⟩ := ih hq1
    rw [append_assoc] at hq2
    simp only [MessageWriter.enqueueAll, henqueue, hrest, bind_eq_bind, bind_some]
    cases conn with
    | none => exact ⟨es, w2, N ++ M, C2, rfl, hq2, hcur2.trans hcur1⟩
    | some id => exact ⟨_, w2, N ++ M, C2, rfl, hq2, hcur2.trans hcur1⟩

end Queues

/-- The lists of a writer, with the synchronous message that is being sent. -/
structure Sending (w : MessageWriter β F σ) (W C : List ℕ) : Prop extends w.Queues W C where
  current : ∀ j, w.currentSynchronousMessageIdx = some j → j ∈ W

theorem Inv.sending {w : MessageWriter β F σ} {W C O : List ℕ} (h : w.Inv W C O) :
    w.Sending W C :=
  ⟨⟨h.write, h.cache, h.disjoint, h.writeLt, h.cacheLt⟩, fun j hj => (h.current j hj).1⟩

/-! ## The end of a turn -/

section Turn
variable {P : Protocol β σ} {cfg : WriterConfiguration} {complete : CompleteFunction β F}
  {cap i : ℕ} {st st' : FillState β F σ} {W C : List ℕ}
variable {w : MessageWriter β F σ} {ctx : ConnectionContext}

theorem Sending.finished (h : w.Sending (i :: W) C) : (finished w i).Sending W C := by
  refine ⟨((h.writeErase.resetCurrentSynchronous i).modifyStub i _), fun j hj => ?_⟩
  obtain ⟨hne, hj⟩ := finished_current.1 hj
  exact (mem_cons.1 (h.current j hj)).resolve_left hne

/-- From the locals `st` to `st'` nothing is written, and the lists are in order. -/
def Settles (st st' : FillState β F σ) : Prop :=
  st'.out = st.out ∧ st'.freesz = st.freesz ∧ ∃ W C, st'.writer.Sending W C

theorem completeMessage_returns (h : w.Sending W C) (hW : i ∉ W) (hC : i ∉ C)
    (hi : i < w.vecSize) {m : Message β} (hm : (w.messageVec i).msgbundle.messagePtr = some m) :
    ∃ st', completeMessage cfg complete i ctx st w = some st' ∧ Settles st st' := by
  unfold completeMessage
  simp only [hm, bind_eq_bind, bind_some]
  split_ifs
  · exact ⟨_, rfl, rfl, rfl, W, C, h⟩
  · have horder : (w.orderErase i).Queues W C := h.congr rfl rfl rfl rfl
    have hfree := horder.doUnprepareMessageStub hW hC hi
    obtain ⟨es, w', N, C', hall, hq, hcur⟩ := hfree.enqueueAll cfg (complete _ _ _).1
    rw [hall, bind_some]
    refine ⟨_, rfl, rfl, rfl, W ++ N, C', hq, fun j hj => ?_⟩
    exact mem_append_left N (h.current j (hcur ▸ hj))

variable (P cfg complete ctx) in
theorem doTryComplete_returns (h : st.writer.Sending (i :: W) C) {m : Message β} {ser : σ}
    (hm : (st.writer.messageVec i).msgbundle.messagePtr = some m)
    (hser : (st.writer.messageVec i).serializerPtr = some ser) :
    ∃ st', doTryCompleteMessageAfterSerialization P cfg complete i ctx st = some st' ∧
      Settles st st' := by
  unfold doTryCompleteMessageAfterSerialization
  rw [hser, bind_eq_bind, bind_some]
  split_ifs
  · rw [h.writePopFront, bind_eq_bind, bind_some]
    have hi : i < (finished st.writer i).vecSize := by
      rw [finished_vecSize]
      exact h.writeLt i mem_cons_self
    have hm' : ((finished st.writer i).messageVec i).msgbundle.messagePtr = some m := by
      rw [finished_self]
      exact hm
    exact completeMessage_returns h.finished h.notMem.1 h.notMem.2 hi hm'
  · -- the message goes on, here or at the back of the list
    have hmodify : ∀ f, (st.writer.modifyStub i f).Sending (i :: W) C :=
      fun f => ⟨h.toQueues.modifyStub i f, h.current⟩
    have hcount := hmodify fun s => { s with packetCount := s.packetCount + 1 }
    dsimp only
    split_ifs
    · have hzero := hcount.toQueues.modifyStub i fun s => { s with packetCount := 0 }
      rw [hzero.writePopFront, bind_eq_bind, bind_some]
      refine ⟨_, rfl, rfl, rfl, W ++ [i], C, hzero.rotate, fun j hj => ?_⟩
      rcases mem_cons.1 (h.current j hj) with rfl | hj
      · simp
      · exact mem_append_left _ hj
    · exact ⟨_, rfl, rfl, rfl, i :: W, C, hcount⟩

/-! ## A turn -/

def afterDrop (P : Protocol β σ) (i : ℕ) (st : FillState β F σ) : FillState β F σ :=
  let w := (switched P i st).writer
  { switched P i st with
    writer := ((w.writeErase i).doUnprepareMessageStub i).resetCurrentSynchronous i }

/-- The loop goes on: there is a message to send, and enough room by `freesz`. -/
abbrev GoesOn (P : Protocol β σ) (st : FillState β F σ) : Prop :=
  st.writer.writeInnerList.size ≠ 0 ∧ P.minimumFreePacketDataSize ≤ st.freesz

abbrev HasToWait (st : FillState β F σ) (i : ℕ) : Prop :=
  (st.writer.messageVec i).msgbundle.messageFlags.synchronous = true ∧
    st.writer.currentSynchronousMessageIdx ≠ none ∧ st.writer.currentSynchronousMessageIdx ≠ some i

def Switches (P : Protocol β σ) (st : FillState β F σ) : Prop :=
  GoesOn P st ∧ ∀ i, st.writer.writeInnerList.front = some i → ¬ HasToWait st i

/-- The call of `run` that the next turn makes for the message `i`. -/
def runResult (P : Protocol β σ) (cap i : ℕ) (st : FillState β F σ) : Option (SerializerRun σ) := do
  let stub := (switched P i st).writer.messageVec i
  let m ← stub.msgbundle.messagePtr
  let ser ← stub.serializerPtr
  P.run (contextOf i stub.unique m) ser (cap - (switched P i st).out.length)

/-- The next turn serializes the message `i`. -/
structure Calls (P : Protocol β σ) (st : FillState β F σ) (i : ℕ) : Prop where
  switch : Switches P st
  front : st.writer.writeInnerList.front = some i
  canceled : (st.writer.messageVec i).isCanceled = false

/-- What a turn can do, when the lists of the writer are in order. -/
inductive TurnShape (P : Protocol β σ) (cap : ℕ) (st : FillState β F σ) :
    FillTurn β F σ → Prop where
  | done (hnot : ¬ GoesOn P st) : TurnShape P cap st (.done st)
  /-- another synchronous message is being sent -/
  | rotate {i : ℕ} :
      GoesOn P st →
      st.writer.writeInnerList.front = some i →
      HasToWait st i →
      TurnShape P cap st (.next { st with writer := (st.writer.writeErase i).writePushBack i })
  /-- the message was cancelled -/
  | drop {i : ℕ} :
      Switches P st →
      st.writer.writeInnerList.front = some i →
      (st.writer.messageVec i).isCanceled = true →
      TurnShape P cap st (.next (afterDrop P i st))
  | fail {i : ℕ} {r : SerializerRun σ} {st' : FillState β F σ} :
      Calls P st i →
      runResult P cap i st = some r →
      r.retval ≤ 0 →
      TurnShape P cap st (.failed st')
  /-- the message is given the room that is left -/
  | serialize {i : ℕ} {r : SerializerRun σ} {st' : FillState β F σ} :
      Calls P st i →
      runResult P cap i st = some r →
      0 < r.retval →
      Settles (ran i r (switched P i st)) st' →
      TurnShape P cap st (endTurn st')

theorem Sending.switched (h : st.writer.Sending (i :: W) C) :
    (switched P i st).writer.Sending (i :: W) C := by
  refine ⟨h.congr rfl rfl rfl rfl, fun j hj => ?_⟩
  unfold MessageWriter.switched at hj
  dsimp only at hj
  split_ifs at hj
  · cases hj
    exact List.mem_cons_self
  · exact h.current j hj

theorem fillTurn_calls (h : Calls P st i) :
    fillTurn P cfg complete cap st = doSerialize P cfg complete cap i (switched P i st) := by
  have hnot : ¬ ((switched P i st).writer.messageVec i).isCanceled := by
    rw [switched_self, MessageStub.prepared_canceled, h.canceled]
    exact Bool.false_ne_true
  unfold fillTurn
  rw [if_pos h.switch.1, h.front]
  simp only [bind_eq_bind, bind_some]
  rw [if_neg (h.switch.2 i h.front), doSwitch_eq, if_neg hnot]

theorem doSerialize_none (hrun : runResult P cap i st = none) :
    doSerialize P cfg complete cap i (switched P i st) = none := by
  refine eq_none_iff_forall_ne_some.2 fun turn hturn => ?_
  obtain ⟨m, hm, hturn⟩ := bind_eq_some_iff.1 hturn
  obtain ⟨ser, hser, hturn⟩ := bind_eq_some_iff.1 hturn
  obtain ⟨r, hr, -⟩ := bind_eq_some_iff.1 hturn
  simp only [runResult, hm, hser, hr, bind_eq_bind, bind_some] at hrun
  cases hrun

theorem doSerialize_some (h : st.writer.Sending (i :: W) C) (hcalls : Calls P st i)
    {r : SerializerRun σ} (hrun : runResult P cap i st = some r) :
    ∃ turn, doSerialize P cfg complete cap i (switched P i st) = some turn ∧
      TurnShape P cap st turn := by
  obtain ⟨m, hm, hrest⟩ := bind_eq_some_iff.1 hrun
  obtain ⟨ser, hser, hrest⟩ := bind_eq_some_iff.1 hrest
  unfold doSerialize
  simp only [hm, hser, hrest, bind_eq_bind, bind_some]
  by_cases hr : 0 < r.retval
  · have hswitched := h.switched (P := P)
    have hran : (ran i r (switched P i st)).writer.Sending (i :: W) C :=
      ⟨hswitched.congr rfl rfl rfl rfl, hswitched.current⟩
    have hm' : ((ran i r (switched P i st)).writer.messageVec i).msgbundle.messagePtr = some m := by
      rw [ran, modifyStub_self]
      exact hm
    have hser' : ((ran i r (switched P i st)).writer.messageVec i).serializerPtr =
        some r.serializer := by rw [ran, modifyStub_self]
    obtain ⟨st', hst', hsettles⟩ := doTryComplete_returns P cfg complete
      (contextOf i ((switched P i st).writer.messageVec i).unique m) hran hm' hser'
    have hshape : TurnShape P cap st (endTurn st') := .serialize hcalls hrun hr hsettles
    refine ⟨endTurn st', ?_, hshape⟩
    rw [if_pos hr]
    unfold ran at hst'
    rw [hst', bind_some]
    unfold endTurn
    split_ifs <;> rfl
  · rw [if_neg hr]
    exact ⟨_, rfl, .fail hcalls hrun (not_lt.1 hr)⟩

/-- **What a turn does is one of the cases**; without a result it is only when `run` has
    none. -/
theorem fillTurn_shape (h : st.writer.Sending W C) (cfg : WriterConfiguration)
    (complete : CompleteFunction β F) (cap : ℕ) :
    (∃ turn, fillTurn P cfg complete cap st = some turn ∧ TurnShape P cap st turn) ∨
      fillTurn P cfg complete cap st = none ∧ ∃ i, Calls P st i ∧ runResult P cap i st = none := by
  by_cases hgo : GoesOn P st
  swap
  · refine .inl ⟨.done st, ?_, .done hgo⟩
    rw [fillTurn, if_neg hgo]
  cases W with
  | nil => exact absurd h.write.size hgo.1
  | cons i W =>
    have hfront : st.writer.writeInnerList.front = some i := h.write.front
    by_cases hwait : HasToWait st i
    · refine .inl ⟨_, ?_, .rotate hgo hfront hwait⟩
      rw [fillTurn, if_pos hgo, hfront]
      simp only [bind_eq_bind, bind_some]
      rw [if_pos hwait, h.writePopFront]
      rfl
    have hswitch : Switches P st := by
      refine ⟨hgo, fun j hj => ?_⟩
      obtain rfl : i = j := Option.some.inj (hfront.symm.trans hj)
      exact hwait
    cases hcanceled : (st.writer.messageVec i).isCanceled with
    | true =>
      refine .inl ⟨_, ?_, .drop hswitch hfront hcanceled⟩
      rw [fillTurn, if_pos hgo, hfront]
      simp only [bind_eq_bind, bind_some]
      rw [if_neg hwait, doSwitch_eq, if_pos]
      · rfl
      · rw [switched_self, MessageStub.prepared_canceled, hcanceled]
    | false =>
      have hcalls : Calls P st i := ⟨hswitch, hfront, hcanceled⟩
      rw [fillTurn_calls hcalls]
      cases hrun : runResult P cap i st with
      | none => exact .inr ⟨doSerialize_none hrun, i, hcalls, hrun⟩
      | some r => exact .inl (doSerialize_some h hcalls hrun)

theorem TurnShape.of_eq {turn : FillTurn β F σ} (h : st.writer.Sending W C)
    (ht : fillTurn P cfg complete cap st = some turn) : TurnShape P cap st turn := by
  rcases fillTurn_shape (P := P) h cfg complete cap with ⟨turn', ht', hshape⟩ | ⟨hnone, -⟩
  · rwa [Option.some.inj (ht.symm.trans ht')]
  · rw [hnone] at ht
    cases ht

theorem TurnShape.failed (h : TurnShape P cap st (.failed st')) :
    ∃ i r, Calls P st i ∧ runResult P cap i st = some r ∧ r.retval ≤ 0 := by
  generalize hturn : FillTurn.failed st' = turn at h
  cases h with
  | fail hcalls hrun hr => exact ⟨_, _, hcalls, hrun, hr⟩
  | serialize =>
    unfold endTurn at hturn
    split_ifs at hturn
  | _ => cases hturn

/-! ## The loop ends -/

/-- What every turn keeps: `freesz` is at least the room that is left. -/
structure Filling (cap : ℕ) (st : FillState β F σ) (W C : List ℕ) : Prop
    extends st.writer.Sending W C where
  room : cap ≤ st.out.length + st.freesz

/-- The room that is left, then the number of messages, then how far the synchronous message
    that is being sent is from the front. -/
def fillMeasure (st : FillState β F σ) (W : List ℕ) : ℕ ×ₗ ℕ ×ₗ ℕ :=
  toLex (st.freesz, toLex (W.length,
    (st.writer.currentSynchronousMessageIdx.map (W.idxOf ·)).getD 0))

theorem switched_out_length (P : Protocol β σ) (i : ℕ) (st : FillState β F σ) :
    (switched P i st).out.length =
      st.out.length + if st.packetMessageCount = 0 then 0 else 1 := by
  unfold switched
  dsimp only
  split_ifs <;> simp

theorem runResult_le (hP : P.Bounded) {r : SerializerRun σ} (hrun : runResult P cap i st = some r)
    (hr : 0 < r.retval) : (r.out.length : ℤ) = r.retval ∧
      r.out.length ≤ cap - (switched P i st).out.length := by
  obtain ⟨m, -, hrun⟩ := bind_eq_some_iff.1 hrun
  obtain ⟨ser, -, hrun⟩ := bind_eq_some_iff.1 hrun
  exact hP _ _ _ _ hrun hr

/-- **A turn keeps the lists in order**, and one that goes on makes the measure smaller. -/
theorem Filling.turn (hP : P.Bounded) (h : Filling cap st W C) {turn : FillTurn β F σ}
    (ht : fillTurn P cfg complete cap st = some turn) (hstate : turn.state? = some st') :
    ∃ W' C', Filling cap st' W' C' ∧
      (turn = .next st' → fillMeasure st' W' < fillMeasure st W) := by
  -- the front of the write list is the message of the turn
  have hfront : ∀ i, st.writer.writeInnerList.front = some i → ∃ W', W = i :: W' := by
    intro i hi
    rw [h.write.front] at hi
    exact head?_eq_some_iff.1 hi
  cases TurnShape.of_eq h.toSending ht with
  | done =>
    cases hstate
    exact ⟨W, C, h, nofun⟩
  | @rotate i _ hi hwait =>
    obtain ⟨W, rfl⟩ := hfront i hi
    cases hstate
    obtain ⟨j, hcur⟩ := ne_none_iff_exists'.1 hwait.2.1
    have hne : j ≠ i := fun heq => hwait.2.2 (heq ▸ hcur)
    have hj : j ∈ W := (mem_cons.1 (h.current j hcur)).resolve_left hne
    refine ⟨W ++ [i], C, ⟨⟨h.toQueues.rotate, fun k hk => ?_⟩, h.room⟩, fun _ => ?_⟩
    · obtain rfl : j = k := Option.some.inj (hcur.symm.trans hk)
      exact mem_append_left _ hj
    · -- the synchronous message is one place nearer
      have hcur' : ((st.writer.writeErase i).writePushBack i).currentSynchronousMessageIdx =
          some j := hcur
      refine Prod.Lex.right _ (Prod.Lex.right' _ ?_ ?_)
      · simp
      · rw [hcur, hcur']
        simp [idxOf_append_of_mem hj, idxOf_cons_ne W hne.symm]
  | @drop i _ hi hcanceled =>
    obtain ⟨W, rfl⟩ := hfront i hi
    cases hstate
    have hswitched := h.toSending.switched (P := P)
    have hqueues := (hswitched.toQueues.writeErase.doUnprepareMessageStub hswitched.notMem.1
      hswitched.notMem.2 (hswitched.writeLt i mem_cons_self)).resetCurrentSynchronous i
    refine ⟨W, i :: C, ⟨⟨hqueues, fun j hj => ?_⟩, ?_⟩, fun _ => ?_⟩
    · obtain ⟨hne, hj⟩ := (resetCurrentSynchronous_current _ _).1 hj
      exact (mem_cons.1 (hswitched.current j hj)).resolve_left hne
    · refine h.room.trans (Nat.add_le_add_right ?_ _)
      exact (Nat.le_add_right _ _).trans (switched_out_length P i st).ge
    · exact Prod.Lex.right _ (Prod.Lex.left _ _ (Nat.lt_succ_self _))
  | fail => cases hstate
  | @serialize i r st₁ hcalls hrun hr hsettles =>
    rw [endTurn_state?] at hstate
    cases hstate
    obtain ⟨hout, hle⟩ := runResult_le hP hrun hr
    have hlength := switched_out_length P i st
    have hfreesz : (MessageWriter.switched P i st).freesz = st.freesz := rfl
    obtain ⟨hout', hfreesz', W', C', hsending⟩ := hsettles
    have hroom := h.room
    refine ⟨W', C', ⟨hsending, ?_⟩, fun _ => Prod.Lex.left _ _ ?_⟩
    · rw [hout', hfreesz']
      simp only [ran, length_append]
      omega
    · rw [hfreesz']
      simp only [ran]
      omega

/-- The states of the loop of `doFillPacket` after a number of turns that went on. -/
inductive FillTurns (P : Protocol β σ) (cfg : WriterConfiguration)
    (complete : CompleteFunction β F) (cap : ℕ) :
    ℕ → FillState β F σ → FillState β F σ → Prop where
  | refl (st : FillState β F σ) : FillTurns P cfg complete cap 0 st st
  | next {n : ℕ} {st st₁ st' : FillState β F σ} :
      fillTurn P cfg complete cap st = some (.next st₁) →
      FillTurns P cfg complete cap n st₁ st' →
      FillTurns P cfg complete cap (n + 1) st st'

theorem FillTurns.fillLoop {n : ℕ} (h : FillTurns P cfg complete cap n st st')
    (hlast : ∀ st'', fillTurn P cfg complete cap st' ≠ some (.next st'')) {fuel : ℕ}
    (hfuel : n < fuel) :
    fillLoop P cfg complete cap fuel st = fillTurn P cfg complete cap st' := by
  induction h generalizing fuel with
  | refl st =>
    obtain ⟨fuel, rfl⟩ := Nat.exists_eq_succ_of_ne_zero (by omega : fuel ≠ 0)
    rw [MessageWriter.fillLoop]
    cases hturn : fillTurn P cfg complete cap st with
    | none => rfl
    | some turn =>
      cases turn with
      | next st'' => exact absurd hturn (hlast st'')
      | done st'' => rfl
      | failed st'' => rfl
  | next ht _ ih =>
    obtain ⟨fuel, rfl⟩ := Nat.exists_eq_succ_of_ne_zero (by omega : fuel ≠ 0)
    rw [MessageWriter.fillLoop, ht]
    exact ih hlast (by omega)

theorem FillTurns.filling {n : ℕ} (hP : P.Bounded) (h : Filling cap st W C)
    (hturns : FillTurns P cfg complete cap n st st') : ∃ W' C', Filling cap st' W' C' := by
  induction hturns generalizing W C with
  | refl => exact ⟨W, C, h⟩
  | next ht _ ih =>
    obtain ⟨W', C', h', -⟩ := h.turn hP ht rfl
    exact ih h'

theorem Filling.terminates (h : Filling cap st W C) (hP : P.Bounded) (cfg : WriterConfiguration)
    (complete : CompleteFunction β F) :
    ∃ n st', FillTurns P cfg complete cap n st st' ∧
      ∀ st'', fillTurn P cfg complete cap st' ≠ some (.next st'') := by
  generalize hm : fillMeasure st W = m
  induction m using WellFounded.induction
    (wellFounded_lt (α := ℕ ×ₗ ℕ ×ₗ ℕ)) generalizing st W C with
  | _ m ih =>
    by_cases hlast : ∀ st'', fillTurn P cfg complete cap st ≠ some (.next st'')
    · exact ⟨0, st, .refl st, hlast⟩
    · obtain ⟨st₁, ht⟩ := not_forall_not.1 hlast
      obtain ⟨W', C', h', hlt⟩ := h.turn hP ht rfl
      obtain ⟨n, st', hturns, hlast⟩ := ih _ (hm ▸ hlt rfl) h' rfl
      exact ⟨n + 1, st', .next ht hturns, hlast⟩

theorem filling_start {st : WriteState β F σ} (h : st.writer.Sending W C) :
    Filling cap (fillStart cap st) W C := ⟨h, by simp [fillStart]⟩

theorem doFillPacket_ends {st : WriteState β F σ} (hP : P.Bounded) (h : st.writer.Sending W C)
    (cfg : WriterConfiguration) (complete : CompleteFunction β F) (cap : ℕ) :
    ∃ n st', FillTurns P cfg complete cap n (fillStart cap st) st' ∧
      (∀ st'', fillTurn P cfg complete cap st' ≠ some (.next st'')) ∧
      (∀ fuel, n < fuel → doFillPacket P cfg complete fuel cap st =
        fillTurn P cfg complete cap st') ∧ ∃ W' C', Filling cap st' W' C' := by
  have hstart : Filling cap (fillStart cap st) W C := filling_start h
  obtain ⟨n, st', hturns, hlast⟩ := hstart.terminates hP cfg complete
  exact ⟨n, st', hturns, hlast, fun fuel hfuel => hturns.fillLoop hlast hfuel,
    hturns.filling hP hstart⟩

end Turn

theorem zeros_bounded : zeros.Bounded := by
  intro ctx ser n r hrun hr
  cases hrun
  simp


def silent : CompleteFunction ℕ ℕ := fun _ _ _ => ([], none)

def oneByOne : WriterConfiguration := { smallConfig with maxMessageContinuousPacketCount := 1 }

end MessageWriter

end SolidFrame
