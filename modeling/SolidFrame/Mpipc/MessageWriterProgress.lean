/-
  SolidFrame formalization — the calls of `Serializer::run` in `doFillPacket`
  (`solid/frame/mpipc/src/mpipcmessagewriter.cpp`).

  `doFillPacket` gives up, without an error, when `run` stores nothing.  It asks for
  `minimumFreePacketDataSize` bytes before it switches to a message, but a byte of them is
  for the switch: the stream of a message that goes on in a packet may find less than
  `MIN_STREAM_BUFFER_SIZE` bytes.
-/
import SolidFrame.Mpipc.BinaryProtocol
import SolidFrame.Mpipc.MessageWriterErrors

namespace SolidFrame

open List MessageSerializer Option

namespace MessageWriter
variable {β F σ : Type}

/-! ## Invariants of the locals -/

section Locals
variable {P : Protocol β σ} {cfg : WriterConfiguration} {complete : CompleteFunction β F}
  {I : MessageWriter β F σ → List (WriterEvent β F) → Option σ → Prop}
  (hreset : ∀ w es tmp, I w es tmp → I w es none)
  (hkeep : ∀ cap st turn st', I st.writer st.events st.tmpSerializer →
    fillTurn P cfg complete cap st = some turn → turn.state? = some st' → True →
    I st'.writer st'.events st'.tmpSerializer)
include hkeep

theorem FillTurns.invariant {cap n : ℕ} {st st' : FillState β F σ}
    (hturns : FillTurns P cfg complete cap n st st') (h : I st.writer st.events st.tmpSerializer) :
    I st'.writer st'.events st'.tmpSerializer := by
  induction hturns with
  | refl st => exact h
  | next ht _ ih => exact ih (hkeep _ _ _ _ h ht rfl trivial)

include hreset

theorem WriteTurns.locals {bufsz : ℕ} {st st' : WriteState β F σ}
    (hwrite : WriteTurns P cfg complete bufsz st st') (h : I st.writer st.events none) :
    I st'.writer st'.events none := by
  induction hwrite with
  | refl st => exact h
  | next _ ht _ ih => exact ih (writeTurn_invariant hreset hkeep h fillAlong_true ht)

theorem Iteration.locals {bufsz cap : ℕ} {w : MessageWriter β F σ} {fs : FillState β F σ}
    (hit : Iteration P cfg complete bufsz w cap fs) (h : I w [] none) :
    I fs.writer fs.events fs.tmpSerializer := by
  obtain ⟨st, n, hwrite, -, -, hturns⟩ := hit
  exact hturns.invariant hkeep (hwrite.locals hreset hkeep h)

end Locals

/-! ## The serializers of the messages -/

/-- Rules for the serializers of a protocol: `Z` holds of those without a message, `R` of
    those that are at a message for which `M` holds. -/
structure SerializerRule (P : Protocol β σ) (M : Message β → Option ℕ → Prop) (R Z : σ → Prop) :
    Prop where
  create : Z P.createSerializer
  empty : ∀ s, P.empty s = true → Z s
  push : ∀ s m msgTypeIdx, Z s → M m msgTypeIdx → R (P.push (P.reset s) (some m) msgTypeIdx)
  run : ∀ ctx s room r, R s → P.run ctx s room = some r → 0 < r.retval →
    P.empty r.serializer = false → R r.serializer

def BundleOk (M : Message β → Option ℕ → Prop) (b : MessageBundle β F) : Prop :=
  ∀ m, b.messagePtr = some m → M m b.messageTypeId

structure StubOk (M : Message β → Option ℕ → Prop) (R : σ → Prop) (s : MessageStub β F σ) :
    Prop where
  bundle : BundleOk M s.msgbundle
  serializer : s.isCanceled = false → ∀ ser, s.serializerPtr = some ser → R ser

section Serializers
variable {P : Protocol β σ} {M : Message β → Option ℕ → Prop} {R Z : σ → Prop}
  {cfg : WriterConfiguration} {complete : CompleteFunction β F} {cap : ℕ}
  {w w' : MessageWriter β F σ} {W C O : List ℕ} {s : MessageStub β F σ}

theorem MessageStub.Blank.ok (h : s.Blank) : StubOk M R s where
  bundle m hm := by
    rw [h.msgbundle] at hm
    cases hm
  serializer _ ser hser := by
    rw [h.serializerPtr] at hser
    cases hser

/-- A bundle that waits for its turn, or for its response, has no serializer. -/
theorem stubOk_of_none (hbundle : BundleOk M s.msgbundle) (hser : s.serializerPtr = none) :
    StubOk M R s where
  bundle := hbundle
  serializer _ ser hsome := by
    rw [hser] at hsome
    cases hsome

theorem BundleOk.congr {b b' : MessageBundle β F} {p p' : MessageId} (h : BundleOk M b)
    (hentry : entryOf b' p' = entryOf b p) : BundleOk M b' := by
  have htype : b'.messageTypeId = b.messageTypeId := congrArg Prod.fst hentry
  have hptr : b'.messagePtr = b.messagePtr := congrArg (fun e => e.2.1) hentry
  intro m hm
  rw [htype]
  exact h m (hptr ▸ hm)

theorem SerializerRule.prepared (hrule : SerializerRule P M R Z) {tmp : Option σ} {m : Message β}
    {ser : σ} (h : StubOk M R s) (htmp : ∀ z, tmp = some z → Z z) (hlive : s.isCanceled = false)
    (hm : s.msgbundle.messagePtr = some m) (hser : (s.prepared P tmp).serializerPtr = some ser) :
    R ser := by
  unfold MessageStub.prepared at hser
  cases hold : s.serializerPtr with
  | some old =>
    rw [hold] at hser
    exact h.serializer hlive ser (hold.trans (hold.symm.trans hser))
  | none =>
    rw [hold] at hser
    cases hser
    rw [hm]
    refine hrule.push _ _ _ ?_ (h.bundle m hm)
    cases tmp with
    | none => exact hrule.create
    | some z => exact htmp z rfl

theorem Grows.stubs {N : List ℕ} {es : List (WriterEvent β F)} (h : Grows cfg w W O N es w')
    (hok : ∀ i, StubOk M R (w.messageVec i)) (hes : ∀ b ∈ enqueuedBundles es, BundleOk M b)
    (i : ℕ) : StubOk M R (w'.messageVec i) := by
  by_cases hN : i ∈ N
  · refine stubOk_of_none ?_ (h.fresh i hN).2.2.serializerPtr
    have hmem : (w'.messageVec i).msgbundle ∈ (enqueuedBundles es).map clearDisruptingFlags :=
      h.bundles ▸ mem_map_of_mem hN
    obtain ⟨b, hb, heq⟩ := mem_map.1 hmem
    rw [← heq]
    exact hes b hb
  · rw [h.vec i hN]
    exact hok i

theorem TurnCase.tmp (hrule : SerializerRule P M R Z) {st st' : FillState β F σ}
    {turn : FillTurn β F σ} (hcase : TurnCase P cfg complete cap st C O W turn)
    (hturn : turn.state? = some st') (htmp : ∀ z, st.tmpSerializer = some z → Z z) :
    ∀ z, st'.tmpSerializer = some z → Z z := by
  have hswitched : ∀ i z, (switched P i st).tmpSerializer = some z → Z z := by
    intro i z hz
    change (if _ then _ else _) = some z at hz
    split_ifs at hz
    exact htmp z hz
  cases hcase with
  | done | rotate =>
    cases hturn
    exact htmp
  | drop =>
    cases hturn
    exact hswitched _
  | fail => cases hturn
  | stay | back =>
    rw [endTurn_state?] at hturn
    cases hturn
    exact hswitched _
  | wait _ _ hempty | complete _ _ hempty =>
    rw [endTurn_state?] at hturn
    cases hturn
    intro z hz
    cases hz
    exact hrule.empty _ hempty

theorem Serializes.stub (hrule : SerializerRule P M R Z) {st : FillState β F σ} {i : ℕ}
    {m : Message β} {ser : σ} {r : SerializerRun σ} (hs : Serializes P cap st i m ser r)
    (hr : 0 < r.retval) (hempty : P.empty r.serializer = false)
    (hok : StubOk M R (st.writer.messageVec i)) (htmp : ∀ z, st.tmpSerializer = some z → Z z)
    (n : ℕ) : StubOk M R { (st.writer.messageVec i).prepared P st.tmpSerializer with
      serializerPtr := some r.serializer, packetCount := n } := by
  have hold := hrule.prepared hok htmp hs.live.canceled hs.message hs.serializer
  refine ⟨hok.bundle.congr MessageStub.prepared_entry, fun _ ser' hser' => ?_⟩
  cases hser'
  exact hrule.run _ _ _ _ hold hs.run hr hempty

/-- **A turn keeps the serializers in order.** -/
theorem TurnCase.stubs (hrule : SerializerRule P M R Z) {st st' : FillState β F σ}
    {turn : FillTurn β F σ} (h : st.writer.Inv W C O)
    (hcase : TurnCase P cfg complete cap st C O W turn) (hturn : turn.state? = some st')
    (hok : ∀ i, StubOk M R (st.writer.messageVec i)) (htmp : ∀ z, st.tmpSerializer = some z → Z z)
    (hes : ∀ b ∈ enqueuedBundles st'.events, BundleOk M b) (j : ℕ) :
    StubOk M R (st'.writer.messageVec j) := by
  cases hcase with
  | done | rotate =>
    cases hturn
    exact hok j
  | @drop i W w' hfree hdropped hinv hvec =>
    cases hturn
    rcases eq_or_ne j i with rfl | hne
    · exact (hinv.cached j mem_cons_self).ok
    · rw [hvec j hne]
      exact hok j
  | fail => cases hturn
  | @stay i W m ser r w' hs hr hempty hcount hinv hvec =>
    rw [endTurn_state?] at hturn
    cases hturn
    rw [hvec]
    rcases eq_or_ne j i with rfl | hne
    · rw [Function.update_self]
      exact hs.stub hrule hr hempty (hok j) htmp _
    · rw [Function.update_of_ne hne]
      exact hok j
  | @back i W m ser r w' hs hr hempty hcount hinv hvec =>
    rw [endTurn_state?] at hturn
    cases hturn
    rw [hvec]
    rcases eq_or_ne j i with rfl | hne
    · rw [Function.update_self]
      exact hs.stub hrule hr hempty (hok j) htmp _
    · rw [Function.update_of_ne hne]
      exact hok j
  | @wait i W m ser r w' hs hr hempty hwait hinv hvec hstub =>
    rw [endTurn_state?] at hturn
    cases hturn
    rcases eq_or_ne j i with rfl | hne
    · rw [hstub]
      exact stubOk_of_none ((hok j).bundle.congr (p := {}) rfl) rfl
    · rw [hvec j hne]
      exact hok j
  | @complete i W N m ser r w1 w' b es err _ hs hr hempty hinv hvec hcur hentry hgrows =>
    rw [endTurn_state?] at hturn
    cases hturn
    refine hgrows.stubs (fun j => ?_) (fun b hb => hes b ?_) j
    · rcases eq_or_ne j i with rfl | hne
      · exact (hinv.cached j mem_cons_self).ok
      · rw [hvec j hne]
        exact hok j
    · rw [enqueuedBundles_append]
      exact mem_append_right _ hb

/-- The lists of a writer are in order, and its serializers are when the messages that were
    enqueued are ones of `M`. -/
structure Sound (M : Message β → Option ℕ → Prop) (R : σ → Prop) (w : MessageWriter β F σ)
    (es : List (WriterEvent β F)) : Prop where
  inv : ∃ W C O, w.Inv W C O
  stubs : (∀ b ∈ enqueuedBundles es, BundleOk M b) → ∀ i, StubOk M R (w.messageVec i)

/-- **A turn keeps that**, also when events before the call count. -/
theorem Sound.turn (hrule : SerializerRule P M R Z)
    (hcb : ∀ n b id, ∀ q ∈ (complete n b id).1, Enqueueable q.1) {es : List (WriterEvent β F)}
    {st st' : FillState β F σ} {turn : FillTurn β F σ} (h : Sound M R st.writer (es ++ st.events))
    (htmp : ∀ z, st.tmpSerializer = some z → Z z)
    (ht : fillTurn P cfg complete cap st = some turn) (hstate : turn.state? = some st') :
    Sound M R st'.writer (es ++ st'.events) ∧ ∀ z, st'.tmpSerializer = some z → Z z := by
  obtain ⟨W, C, O, hinv⟩ := h.inv
  have hcase := fillTurn_cases hinv hcb ht
  obtain ⟨new, hnew, W', C', O', hinv', -⟩ := hcase.keeps hinv hstate
  refine ⟨⟨⟨W', C', O', hinv'⟩, fun hes => ?_⟩, hcase.tmp hrule hstate htmp⟩
  rw [enqueuedBundles_append] at hes
  refine hcase.stubs hrule hinv hstate (h.stubs fun b hb => hes b ?_) htmp
    fun b hb => hes b (mem_append_right _ hb)
  rw [enqueuedBundles_append] at hb
  rw [hnew, enqueuedBundles_append]
  rcases mem_append.1 hb with hb | hb
  · exact mem_append_left _ hb
  · exact mem_append_right _ (mem_append_left _ hb)

theorem doCancel_stubs {i : ℕ} (h : w.Inv W C O) (hi : i < w.vecSize)
    (hadm : (w.messageVec i).isCanceled ∨
      ((w.messageVec i).msgbundle.messagePtr.isSome ∧ ¬ Unstarted (w.messageVec i)))
    (hok : ∀ j, StubOk M R (w.messageVec j)) (j : ℕ) :
    StubOk M R ((w.doCancel P i).2.messageVec j) := by
  rcases hadm with hcanceled | ⟨hptr, hstarted⟩
  · unfold doCancel
    rw [if_pos hcanceled]
    exact hok j
  · obtain ⟨w', hcancel, hvec, -, hcases⟩ := doCancel_spec P h ((h.owned i).2 ⟨hi, hptr⟩) hstarted
    rw [hcancel]
    rcases eq_or_ne j i with rfl | hne
    · rcases hcases with ⟨ser, -, -, -, hstub⟩ | ⟨-, hinv⟩
      · refine ⟨fun m hm => ?_, fun hnot => ?_⟩
        · rw [show w'.messageVec j = _ from hstub] at hm
          cases hm
        · rw [show w'.messageVec j = _ from hstub] at hnot
          cases hnot
      · exact (hinv.cached j mem_cons_self).ok
    · rw [show w'.messageVec j = _ from hvec j hne]
      exact hok j

theorem visitFrom_stubs {takes : ℕ → Bool} {n : ℕ} {at_ : Option ℕ}
    {taken : List (MessageBundle β F × MessageId)} (hok : ∀ j, StubOk M R (w.messageVec j))
    (hvisit : visitFrom takes n at_ w = some (taken, w')) (j : ℕ) :
    StubOk M R (w'.messageVec j) := by
  induction n generalizing w at_ taken with
  | zero =>
    cases at_ with
    | none =>
      cases hvisit
      exact hok j
    | some i => cases hvisit
  | succ n ih =>
    cases at_ with
    | none =>
      cases hvisit
      exact hok j
    | some i =>
      cases hptr : (w.messageVec i).msgbundle.messagePtr with
      | none =>
        rw [visitFrom] at hvisit
        simp only [hptr, isNone_none, if_true] at hvisit
        cases hvisit
        exact hok j
      | some m =>
        have hsome : (w.messageVec i).msgbundle.messagePtr.isSome := by rw [hptr]; rfl
        cases htake : takes i with
        | false =>
          rw [visitFrom_leave htake hsome] at hvisit
          exact ih hok hvisit
        | true =>
          rw [visitFrom_take htake hsome] at hvisit
          obtain ⟨⟨taken', w''⟩, hrest, heq⟩ := map_eq_some_iff.1 hvisit
          cases heq
          refine ih (fun k => ?_) hrest
          rcases eq_or_ne k i with rfl | hne
          · have hblank : ∀ wait : Bool, ((w.unqueue k (w.messageVec k).msgbundle wait).messageVec
                k).Blank := by
              intro wait
              cases wait <;> exact (modifyStub_self _ _ _).symm ▸ clear_blank _
            exact (hblank _).ok
          · rw [unqueue_of_ne hne]
            exact hok k

/-- **A call keeps the serializers in order.** -/
theorem Sound.exec (hrule : SerializerRule P M R Z) {fuel : ℕ} {op : WriterOp β F}
    {es fs : List (WriterEvent β F)} (h : Sound M R w es) (hadm : w.Admissible op)
    (hexec : w.exec P fuel op = some (fs, w')) : Sound M R w' (es ++ fs) := by
  obtain ⟨W, C, O, hinv⟩ := h.inv
  obtain ⟨W', C', O', hinv', -⟩ := exec_keeps hinv hadm hexec
  have hbefore : (∀ b ∈ enqueuedBundles (es ++ fs), BundleOk M b) →
      ∀ i, StubOk M R (w.messageVec i) := by
    intro hes
    refine h.stubs fun b hb => hes b ?_
    rw [enqueuedBundles_append]
    exact mem_append_left _ hb
  cases op with
  | enqueue cfg b poolMsgId =>
    refine ⟨⟨W', C', O', hinv'⟩, fun hes => ?_⟩
    obtain ⟨⟨conn, w1⟩, he, heq⟩ := map_eq_some_iff.1 hexec
    cases heq
    cases conn with
    | none =>
      rcases enqueue_spec hinv hadm he with heq | ⟨i, C', u, hid, -⟩
      · cases heq
        exact hbefore hes
      · cases hid
    | some connMsgId =>
      obtain ⟨i, hgrows⟩ := Grows.enqueue hinv hadm he
      refine hgrows.stubs (hbefore hes) fun b hb => hes b ?_
      rw [enqueuedBundles_append]
      exact mem_append_right _ hb
  | cancel id =>
    refine ⟨⟨W', C', O', hinv'⟩, fun hes => ?_⟩
    cases hexec
    unfold cancel
    cases hid : id.index with
    | none => exact hbefore hes
    | some i =>
      by_cases hmatch : i < w.vecSize ∧ id.unique = (w.messageVec i).unique
      · simp only [if_pos hmatch]
        exact doCancel_stubs hinv hmatch.1 (hadm i hid hmatch.1 hmatch.2) (hbefore hes)
      · simp only [if_neg hmatch]
        exact hbefore hes
  | cancelOldest =>
    refine ⟨⟨W', C', O', hinv'⟩, fun hes => ?_⟩
    obtain ⟨r, hr, heq⟩ := map_eq_some_iff.1 hexec
    cases heq
    unfold cancelOldest at hr
    split_ifs at hr with hsize
    · obtain ⟨i, hfront, rfl⟩ := map_eq_some_iff.1 hr
      have hi : i ∈ O := by
        rw [hinv.order.front] at hfront
        exact mem_of_head? hfront
      obtain ⟨hlt, hptr⟩ := (hinv.owned i).1 hi
      exact doCancel_stubs hinv hlt (.inr ⟨hptr, hadm i hfront⟩) (hbefore hes)
    · cases hr
      exact hbefore hes
  | write cfg complete bufsz keepAlive =>
    obtain ⟨st, hwrite, heq⟩ := map_eq_some_iff.1 hexec
    cases heq
    have hstart : Sound M R w (es ++ []) := by rwa [append_nil]
    exact (write_invariant (I := fun w' fs tmp => Sound M R w' (es ++ fs) ∧ ∀ z, tmp = some z → Z z)
      (fun _ _ _ h => ⟨h.1, nofun⟩) (fun cap st turn st' h ht hst _ =>
      h.1.turn hrule hadm h.2 ht hst) ⟨hstart, nofun⟩ writeAlong_true hwrite).1
  | visit takes =>
    refine ⟨⟨W', C', O', hinv'⟩, fun hes => ?_⟩
    obtain ⟨⟨taken, w1⟩, hvisit, heq⟩ := map_eq_some_iff.1 hexec
    cases heq
    exact visitFrom_stubs (hbefore hes) hvisit

/-- **In every run of a writer the serializers are in order.** -/
theorem Run.serializers (hrule : SerializerRule P M R Z) {es : List (WriterEvent β F)}
    (h : Run P es w) : Sound M R w es := by
  induction h with
  | start =>
    refine ⟨⟨[], [], [], inv_new⟩, fun _ i => ?_⟩
    exact MessageStub.Blank.ok ⟨rfl, rfl, rfl⟩
  | call fuel op _ hadm hexec ih => exact ih.exec hrule hadm hexec

end Serializers

/-! ## The calls of `run` -/

/-- The next turn calls `run` for the message at the front. -/
def CallsRun (P : Protocol β σ) (cap : ℕ) (st : FillState β F σ) : Prop :=
  Switches P st ∧ (st.packetMessageCount = 0 ∨ st.out.length < cap) ∧
    ∃ i m, st.writer.writeInnerList.front = some i ∧ (st.writer.messageVec i).isCanceled = false ∧
      (st.writer.messageVec i).msgbundle.messagePtr = some m

def runRoom (cap : ℕ) (st : FillState β F σ) : ℕ :=
  cap - (st.out.length + if st.packetMessageCount = 0 then 0 else 1)

/-- The room that the next function of the message needs: its type id comes first. -/
def runNeed (i : ℕ) (st : FillState β F MessageSerializer) : ℕ :=
  match (st.writer.messageVec i).serializerPtr with
  | none => 1
  | some ser => ser.need

section Calls
variable {P : Protocol β σ} {cfg : WriterConfiguration} {complete : CompleteFunction β F}
  {cap i : ℕ} {st : FillState β F σ}

theorem switched_room : cap - (switched P i st).out.length = runRoom cap st := by
  rw [switched_out_length, runRoom]

/-- The turn fails when `run` stores nothing, and reports what the serializer does. -/
theorem CallsRun.failed_iff (h : CallsRun P cap st)
    (hfront : st.writer.writeInnerList.front = some i) {r : SerializerRun σ}
    (hr : runResult P cap i st = some r) {e : Option MpipcError} :
    (∃ st', fillTurn P cfg complete cap st = some (.failed st') ∧ st'.rerror = e) ↔
      ¬ 0 < r.retval ∧ P.error r.serializer = e := by
  obtain ⟨m, hm, hr⟩ := bind_eq_some_iff.1 hr
  obtain ⟨ser, hser, hr⟩ := bind_eq_some_iff.1 hr
  obtain ⟨hswitch, -, j, -, hj, hcanceled, -⟩ := h
  obtain rfl : i = j := Option.some.inj (hfront.symm.trans hj)
  rw [fillTurn_calls ⟨hswitch, hfront, hcanceled⟩, doSerialize]
  simp only [hm, hser, hr, bind_eq_bind, bind_some]
  by_cases hpos : 0 < r.retval
  · rw [if_pos hpos]
    refine iff_of_false ?_ fun hnot => hnot.1 hpos
    rintro ⟨st', hst', -⟩
    obtain ⟨st1, -, hst1⟩ := bind_eq_some_iff.1 hst'
    split_ifs at hst1 <;> cases hst1
  · rw [if_neg hpos]
    constructor
    · rintro ⟨st', hst', he⟩
      cases hst'
      exact ⟨hpos, he⟩
    · rintro ⟨-, he⟩
      exact ⟨_, rfl, he⟩

end Calls

section Binary
variable {lmts : Limits} {ids : ℕ → Option ℕ} {fuel : ℕ}

theorem binaryProtocol_rule : SerializerRule (binaryProtocol lmts ids fuel) (Transmits ids fuel)
    (MessageSerializer.Ready fuel) fun s => s.ser.fstk = [] where
  create := rfl
  empty s hs := by
    have hboth : s.pending.isNone ∧ s.ser.fstk.isEmpty := Bool.and_eq_true_iff.1 hs
    exact List.isEmpty_iff.1 hboth.2
  push s m msgTypeIdx hs hm := ready_push (s := { s with ser := s.ser.resetLimits }) hm hs
  run ctx s room r hs hr := by
    obtain ⟨r', hr', -, hready⟩ := binaryProtocol_run lmts ids hs ctx room
    obtain rfl : r = r' := Option.some.inj (hr.symm.trans hr')
    exact hready

theorem prepared_need {s : MessageStub (Ty × Obj) F MessageSerializer}
    {tmp : Option MessageSerializer}
    {ser : MessageSerializer} {m : Message (Ty × Obj)} (hm : s.msgbundle.messagePtr = some m)
    (hok : Transmits ids fuel m s.msgbundle.messageTypeId)
    (hser : (s.prepared (binaryProtocol lmts ids fuel) tmp).serializerPtr = some ser) :
    ser.need = match s.serializerPtr with
      | none => 1
      | some ser => ser.need := by
  unfold MessageStub.prepared at hser
  cases hold : s.serializerPtr with
  | some old =>
    rw [hold] at hser
    rw [Option.some.inj (hold.symm.trans hser)]
  | none =>
    rw [hold] at hser
    cases hser
    obtain ⟨⟨id, hid, -⟩, -⟩ := hok
    rw [hm]
    show (push ids _ (some m) s.msgbundle.messageTypeId).need = 1
    simp only [push, hid]
    rfl

/-- **Progress of the writer.**  In every run of a writer with the binary serializer, and in
    every iteration of a call of `write` that calls `run` for a message: `run` returns; when
    the serializer reports no error, it returns a positive count iff the room after the switch
    byte is what the next function of the message needs, and `doFillPacket` takes its error
    exit without an error iff it is not. -/
theorem run_positive_iff {es : List (WriterEvent (Ty × Obj) F)}
    {w : MessageWriter (Ty × Obj) F MessageSerializer} {cfg : WriterConfiguration}
    {complete : CompleteFunction (Ty × Obj) F} {bufsz cap i : ℕ}
    {fs : FillState (Ty × Obj) F MessageSerializer}
    (hrun : Run (binaryProtocol lmts ids fuel) es w) (hbuf : bufsz < 2 ^ 31)
    (hcb : ∀ n b id, ∀ q ∈ (complete n b id).1, Enqueueable q.1)
    (hit : Iteration (binaryProtocol lmts ids fuel) cfg complete bufsz w cap fs)
    (hmsgs : ∀ b ∈ enqueuedBundles (es ++ fs.events), BundleOk (Transmits ids fuel) b)
    (hcalls : CallsRun (binaryProtocol lmts ids fuel) cap fs)
    (hfront : fs.writer.writeInnerList.front = some i) :
    ∃ r, runResult (binaryProtocol lmts ids fuel) cap i fs = some r ∧
      ((binaryProtocol lmts ids fuel).error r.serializer = none →
        (0 < r.retval ↔ runNeed i fs ≤ runRoom cap fs)) ∧
      ((∃ fs', fillTurn (binaryProtocol lmts ids fuel) cfg complete cap fs = some (.failed fs') ∧
          fs'.rerror = none) ↔
        ¬ runNeed i fs ≤ runRoom cap fs ∧
          (binaryProtocol lmts ids fuel).error r.serializer = none) := by
  have hsound : Sound (Transmits ids fuel) (MessageSerializer.Ready fuel) w (es ++ []) := by
    rw [List.append_nil]
    exact hrun.serializers binaryProtocol_rule
  obtain ⟨hfs, htmp⟩ := hit.locals
    (I := fun w' fs tmp => Sound (Transmits ids fuel) (MessageSerializer.Ready fuel) w' (es ++ fs) ∧
      ∀ z, tmp = some z → z.ser.fstk = []) (fun _ _ _ h => ⟨h.1, fun _ hz => nomatch hz⟩)
    (fun cap st turn st' h ht hst _ => h.1.turn binaryProtocol_rule hcb h.2 ht hst)
    ⟨hsound, fun _ hz => nomatch hz⟩
  have hstub := hfs.stubs hmsgs i
  obtain ⟨-, -, j, m, hj, hcanceled, hm⟩ := id hcalls
  obtain rfl : i = j := Option.some.inj (hfront.symm.trans hj)
  -- the serializer of the message, new or not
  have hsome : ((fs.writer.messageVec i).prepared (binaryProtocol lmts ids fuel)
      fs.tmpSerializer).serializerPtr.isSome := MessageStub.prepared_serializerPtr
  obtain ⟨ser, hser⟩ := Option.isSome_iff_exists.1 hsome
  have hready : ser.Ready fuel := binaryProtocol_rule.prepared hstub htmp hcanceled hm hser
  have hneed : ser.need = runNeed i fs := prepared_need hm (hstub.bundle m hm) hser
  have hcap : runRoom cap fs < 2 ^ 31 := by
    obtain ⟨st, _, -, -, rfl, -⟩ := hit
    unfold runRoom packetRoom
    omega
  obtain ⟨r, hr, hiff, -⟩ := binaryProtocol_run lmts ids hready
    (contextOf i ((switched (binaryProtocol lmts ids fuel) i fs).writer.messageVec i).unique m)
    (runRoom cap fs)
  have hm' : ((fs.writer.messageVec i).prepared (binaryProtocol lmts ids fuel)
      fs.tmpSerializer).msgbundle.messagePtr = some m := MessageStub.prepared_messagePtr.trans hm
  have hresult : runResult (binaryProtocol lmts ids fuel) cap i fs = some r := by
    unfold runResult
    rw [switched_room]
    simp only [switched_self, hm', hser, Option.bind_eq_bind, Option.bind_some]
    rw [switched_self] at hr
    exact hr
  have hiff := hiff hcap
  rw [hneed] at hiff
  refine ⟨r, hresult, hiff, ?_⟩
  rw [hcalls.failed_iff hfront hresult]
  exact and_congr_left fun hnone => not_congr (hiff hnone)

end Binary

def fourTypes : ℕ → Option ℕ := fun i => if i < 4 then some i else none

def unlimitedProtocol : Protocol (Ty × Obj) MessageSerializer :=
  binaryProtocol .unlimited fourTypes 200

def streamBundle : MessageBundle (Ty × Obj) ℕ where
  messageTypeId := some 1
  messagePtr := some { body := (.stream none none, .istream ⟨List.replicate 100 0, 0, false⟩) }

def byteBundle : MessageBundle (Ty × Obj) ℕ where
  messageTypeId := some 2
  messagePtr := some { body := (.int .w8, .raw [7]) }

def changingConfig : WriterConfiguration := ⟨4, 4, 1, fun _ => .ok []⟩

def noCallback : CompleteFunction (Ty × Obj) ℕ := fun _ _ _ => ([], none)

theorem streamBundle_ok : BundleOk (Transmits fourTypes 200) streamBundle := by
  intro m hm
  cases hm
  exact ⟨⟨1, rfl, by decide⟩, _, .stream none none _, by decide⟩

theorem byteBundle_ok : BundleOk (Transmits fourTypes 200) byteBundle := by
  intro m hm
  cases hm
  exact ⟨⟨2, rfl, by decide⟩, _, .int rfl, by decide⟩

def bothWriter : MessageWriter (Ty × Obj) ℕ MessageSerializer :=
  ((new.enqueue changingConfig streamBundle {}).bind fun r =>
    r.2.enqueue changingConfig byteBundle {}).elim new Prod.snd

theorem bothWriter_run : Run unlimitedProtocol
    [.enqueued streamBundle {} ⟨some 0, 0⟩, .enqueued byteBundle {} ⟨some 1, 0⟩] bothWriter := by
  have hstream := Run.call (P := unlimitedProtocol) 0 (.enqueue changingConfig streamBundle {})
    .start ⟨rfl, rfl⟩ rfl
  exact hstream.call 0 (.enqueue changingConfig byteBundle {}) ⟨rfl, rfl⟩ rfl

theorem bothBundles_ok :
    ∀ b ∈ [streamBundle, byteBundle], BundleOk (Transmits fourTypes 200) b := by
  intro b hb
  rcases mem_cons.1 hb with rfl | hb
  · exact streamBundle_ok
  · exact mem_singleton.1 hb ▸ byteBundle_ok

/-- The stream goes on in the second call, behind the short message. -/
theorem exists_continued :
    ∃ es, ∃ w : MessageWriter (Ty × Obj) ℕ MessageSerializer, ∃ fs, Run unlimitedProtocol es w ∧
      Iteration unlimitedProtocol changingConfig noCallback 60 w 56 fs ∧
      enqueuedBundles (es ++ fs.events) = [streamBundle, byteBundle] ∧
      CallsRun unlimitedProtocol 56 fs ∧ fs.writer.writeInnerList.front = some 0 ∧
      fs.packetMessageCount = 1 ∧ runNeed 0 fs = 16 ∧ runRoom 56 fs = 48 ∧
      (runResult unlimitedProtocol 56 0 fs).map (fun r => unlimitedProtocol.error r.serializer) =
        some none := by
  have hrun := bothWriter_run.call 8 (.write changingConfig noCallback 60 false)
    (fun _ _ _ _ hq => absurd hq not_mem_nil) rfl
  refine ⟨_, _, _, hrun, ⟨_, 1, .refl _, ⟨by decide, rfl⟩, rfl, fillTurns_of_from rfl⟩, rfl, ?_,
    rfl, rfl, rfl, rfl, rfl⟩
  refine ⟨⟨⟨by decide, by decide⟩, ?_⟩, .inr (by decide), 0, _, rfl, rfl, rfl⟩
  rintro i hi ⟨hsync, -⟩
  cases hi
  cases hsync

theorem run_positive_continued :
    ∃ es, ∃ w : MessageWriter (Ty × Obj) ℕ MessageSerializer, Run unlimitedProtocol es w ∧
      ∃ fs, Iteration unlimitedProtocol changingConfig noCallback 60 w 56 fs ∧
        fs.packetMessageCount = 1 ∧ runNeed 0 fs = 16 ∧ runRoom 56 fs = 48 ∧
        ∃ r, runResult unlimitedProtocol 56 0 fs = some r ∧
          unlimitedProtocol.error r.serializer = none ∧ 0 < r.retval := by
  obtain ⟨es, w, fs, hrun, hit, hbundles, hcalls, hfront, hcount, hneed, hroom, hresult⟩ :=
    exists_continued
  obtain ⟨r, hr, hiff, -⟩ := run_positive_iff hrun (by decide)
    (fun _ _ _ _ hq => absurd hq not_mem_nil) hit (hbundles ▸ bothBundles_ok) hcalls hfront
  have hnone : unlimitedProtocol.error r.serializer = none := by
    rw [unlimitedProtocol, hr] at hresult
    exact Option.some.inj hresult
  exact ⟨es, w, hrun, fs, hit, hcount, hneed, hroom, r, hr, hnone,
    (hiff hnone).2 (by rw [hneed, hroom]; decide)⟩

/-- **A stream that goes on behind a short message.**  The stream fills the first buffer, then
    the short message comes first: 16 bytes are left when its 7 are stored, one of them is
    taken by the switch, and `run` stores nothing for the stream. -/
theorem stream_gives_up :
    ∃ es, ∃ w : MessageWriter (Ty × Obj) ℕ MessageSerializer, Run unlimitedProtocol es w ∧
      (∀ b ∈ enqueuedBundles es, BundleOk (Transmits fourTypes 200) b) ∧
      ∃ fs, Iteration unlimitedProtocol changingConfig noCallback 27 w 23 fs ∧
        CallsRun unlimitedProtocol 23 fs ∧ fs.freesz = 16 ∧ runRoom 23 fs = 15 ∧
        ∃ fs', fillTurn unlimitedProtocol changingConfig noCallback 23 fs = some (.failed fs') ∧
          fs'.rerror = none := by
  have hrun := bothWriter_run.call 8 (.write changingConfig noCallback 60 false)
    (fun _ _ _ _ hq => absurd hq not_mem_nil) rfl
  refine ⟨_, _, hrun, bothBundles_ok, ?_⟩
  · refine ⟨_, ⟨_, 1, .refl _, ⟨by decide, rfl⟩, rfl, fillTurns_of_from rfl⟩, ?_, rfl, rfl, _,
      rfl, rfl⟩
    refine ⟨⟨⟨by decide, by decide⟩, ?_⟩, .inr (by decide), 0, _, rfl, rfl, rfl⟩
    rintro i hi ⟨hsync, -⟩
    cases hi
    cases hsync

end MessageWriter

end SolidFrame
