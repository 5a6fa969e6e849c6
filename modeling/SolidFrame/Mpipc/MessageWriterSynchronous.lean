/-
  SolidFrame formalization — the order of synchronous messages
  (`solid/frame/mpipc/src/mpipcmessagewriter.cpp`).

  Synchronous messages are sent one after the other: while one of them is being
  sent, the turns move the others to the back of the write list.  The list is
  thereby rotated, and a message that is enqueued goes to the back of the rotated
  list.
-/
import SolidFrame.Mpipc.MessageWriterRuns

namespace SolidFrame

open Function List Option

namespace MessageWriter
variable {β F σ : Type}

/-! ## Synchronous messages -/

namespace MessageStub

def synchronous (s : MessageStub β F σ) : Bool := s.msgbundle.messageFlags.synchronous

def syncMessage (s : MessageStub β F σ) : Option (Message β) :=
  if s.synchronous then s.msgbundle.messagePtr else none

end MessageStub

def syncMessages (w : MessageWriter β F σ) (l : List ℕ) : List (Message β) :=
  l.filterMap fun i => (w.messageVec i).syncMessage

def enqueuedSynchronous (events : List (WriterEvent β F)) : List (Message β) :=
  (enqueuedBundles events).filterMap fun b =>
    if b.messageFlags.synchronous then b.messagePtr else none

def sentSynchronous (events : List (WriterEvent β F)) : List (Message β) :=
  events.filterMap fun e => match e with
    | .sent m _ true _ => some m
    | _ => none

theorem syncMessages_append (w : MessageWriter β F σ) (l l' : List ℕ) :
    w.syncMessages (l ++ l') = w.syncMessages l ++ w.syncMessages l' := filterMap_append

theorem syncMessages_congr {w w' : MessageWriter β F σ} {l : List ℕ}
    (h : ∀ i ∈ l, (w'.messageVec i).syncMessage = (w.messageVec i).syncMessage) :
    w'.syncMessages l = w.syncMessages l := filterMap_congr h

theorem enqueuedSynchronous_append (es fs : List (WriterEvent β F)) :
    enqueuedSynchronous (es ++ fs) = enqueuedSynchronous es ++ enqueuedSynchronous fs := by
  rw [enqueuedSynchronous, enqueuedBundles_append, filterMap_append]
  rfl

theorem sentSynchronous_append (es fs : List (WriterEvent β F)) :
    sentSynchronous (es ++ fs) = sentSynchronous es ++ sentSynchronous fs := filterMap_append

@[simp] theorem enqueuedSynchronous_sent (m : Message β) (t : Option ℕ) (s : Bool)
    (ctx : ConnectionContext) :
    enqueuedSynchronous [(.sent m t s ctx : WriterEvent β F)] = [] := rfl

@[simp] theorem enqueuedSynchronous_completed (b : MessageBundle β F) (id : MessageId) :
    enqueuedSynchronous [.completed b id] = [] := rfl

@[simp] theorem sentSynchronous_sent (m : Message β) (t : Option ℕ) (s : Bool)
    (ctx : ConnectionContext) :
    sentSynchronous [(.sent m t s ctx : WriterEvent β F)] = if s then [m] else [] := by
  cases s <;> rfl

@[simp] theorem sentSynchronous_completed (b : MessageBundle β F) (id : MessageId) :
    sentSynchronous [.completed b id] = [] := rfl

/-! ## The order -/

/-- From the message that is being sent on, around the list, the synchronous messages are
    the ones that were enqueued and not sent, in order. -/
def Ordered (w : MessageWriter β F σ) (W : List ℕ) (events : List (WriterEvent β F)) : Prop :=
  ∃ A B, W = A ++ B ∧
    enqueuedSynchronous events = sentSynchronous events ++ w.syncMessages (B ++ A) ∧
    (w.currentSynchronousMessageIdx = none → A = []) ∧
    ∀ c, w.currentSynchronousMessageIdx = some c → B.head? = some c

/-- What holds between the turns, when nothing is canceled. -/
structure SyncInv (w : MessageWriter β F σ) (W : List ℕ) (events : List (WriterEvent β F)) :
    Prop where
  live : ∀ i ∈ W, (w.messageVec i).Live
  started : ∀ i ∈ W, (w.messageVec i).synchronous = true → (w.messageVec i).serializerPtr.isSome →
    w.currentSynchronousMessageIdx = some i
  current : ∀ c, w.currentSynchronousMessageIdx = some c → (w.messageVec c).synchronous = true
  ordered : w.Ordered W events

/-- No synchronous message stands before the one that is being sent. -/
def InTurn (w : MessageWriter β F σ) : Prop :=
  ∀ A B c, w.writeInnerList.Repr w.statusLinks (A ++ c :: B) →
    w.currentSynchronousMessageIdx = some c → ∀ i ∈ A, (w.messageVec i).synchronous = false

section Order
variable {cfg : WriterConfiguration} {w w' : MessageWriter β F σ} {W C O N : List ℕ}
  {es fs : List (WriterEvent β F)}

/-- The synchronous messages of the stubs that were enqueued are those of the events. -/
theorem Grows.syncMessages (h : Grows cfg w W O N fs w') :
    w'.syncMessages N = enqueuedSynchronous fs := by
  have hmap : w'.syncMessages N = (N.map fun j => (w'.messageVec j).msgbundle).filterMap
      fun b => if b.messageFlags.synchronous then b.messagePtr else none := by
    rw [filterMap_map]
    rfl
  rw [hmap, h.bundles, filterMap_map]
  rfl

theorem Grows.sentSynchronous (h : Grows cfg w W O N fs w') : sentSynchronous fs = [] := by
  refine filterMap_eq_nil_iff.2 fun e he => ?_
  obtain ⟨b, p, c, rfl⟩ := h.only e he
  rfl

/-- Enqueues keep the order, when the back of the list is the end of the order or no
    synchronous message is enqueued. -/
theorem SyncInv.grows (h : w.SyncInv W es) (hinv : w.Inv W C O) (hgrows : Grows cfg w W O N fs w')
    (hturn : enqueuedSynchronous fs ≠ [] → w.InTurn) : w'.SyncInv (W ++ N) (es ++ fs) := by
  have hsame : ∀ i ∈ W, w'.messageVec i = w.messageVec i :=
    fun i hi => hgrows.vec i fun hN => (hgrows.fresh i hN).1 hi
  refine ⟨fun i hi => ?_, fun i hi hsync hser => ?_, fun c hc => ?_, ?_⟩
  · rcases mem_append.1 hi with hi | hi
    · rw [hsame i hi]
      exact h.live i hi
    · exact (hgrows.fresh i hi).2.2.toLive
  · rcases mem_append.1 hi with hi | hi
    · rw [hsame i hi] at hsync hser
      rw [hgrows.current]
      exact h.started i hi hsync hser
    · rw [(hgrows.fresh i hi).2.2.serializerPtr] at hser
      cases hser
  · rw [hgrows.current] at hc
    rw [hsame c (hinv.current c hc).1]
    exact h.current c hc
  · obtain ⟨A, B, rfl, hmsgs, hnone, hsome⟩ := h.ordered
    refine ⟨A, B ++ N, by simp, ?_, fun hc => hnone (hgrows.current ▸ hc), fun c hc => ?_⟩
    · have hold : ∀ l, (∀ i ∈ l, i ∈ A ++ B) → w'.syncMessages l = w.syncMessages l :=
        fun l hl => syncMessages_congr fun i hi => by rw [hsame i (hl i hi)]
      rw [enqueuedSynchronous_append, sentSynchronous_append, hgrows.sentSynchronous,
        append_nil, hmsgs,
        syncMessages_append, syncMessages_append, syncMessages_append, hgrows.syncMessages,
        hold A fun i hi => mem_append_left _ hi, hold B fun i hi => mem_append_right _ hi]
      by_cases hempty : enqueuedSynchronous fs = []
      · rw [hempty]
        simp
      · -- nothing synchronous stands before the current message
        have hA : w.syncMessages A = [] := by
          cases hc : w.currentSynchronousMessageIdx with
          | none =>
            rw [hnone hc]
            rfl
          | some c =>
            obtain ⟨B', rfl⟩ := head?_eq_some_iff.1 (hsome c hc)
            refine filterMap_eq_nil_iff.2 fun i hi => ?_
            have hi' := hturn hempty A B' c hinv.write hc i hi
            rw [MessageStub.syncMessage, hi']
            rfl
        rw [hA]
        simp
    · rw [hgrows.current] at hc
      rw [head?_append, hsome c hc]
      rfl

/-! ## A turn -/

variable {i : ℕ}

/-- The synchronous messages from the front on, when the first of them is at the front. -/
theorem Ordered.front (h : w.Ordered (i :: W) es) (hnodup : (i :: W).Nodup)
    (hcur : w.currentSynchronousMessageIdx = none ∨ w.currentSynchronousMessageIdx = some i) :
    enqueuedSynchronous es = sentSynchronous es ++ w.syncMessages (i :: W) := by
  obtain ⟨A, B, hW, hmsgs, hnone, hsome⟩ := h
  have hA : A = [] := by
    rcases hcur with hcur | hcur
    · exact hnone hcur
    · obtain ⟨B', rfl⟩ := head?_eq_some_iff.1 (hsome i hcur)
      cases A with
      | nil => rfl
      | cons a A =>
        obtain ⟨rfl, rfl⟩ := List.cons.inj hW
        exact absurd (by simp) (nodup_cons.1 hnodup).1
  rw [hA, nil_append] at hW
  rw [hmsgs, hA, append_nil, hW]

section
variable (h : w.Ordered (i :: W) es) (hcur : w.currentSynchronousMessageIdx ≠ some i)
include h hcur

/-- What is before and after the current message, when another one is at the front. -/
theorem Ordered.behind : (w.currentSynchronousMessageIdx = none ∧
      enqueuedSynchronous es = sentSynchronous es ++ w.syncMessages (i :: W)) ∨
    ∃ c A B, w.currentSynchronousMessageIdx = some c ∧ W = A ++ c :: B ∧
      enqueuedSynchronous es = sentSynchronous es ++ w.syncMessages (c :: B ++ i :: A) := by
  obtain ⟨A, B, hW, hmsgs, hnone, hsome⟩ := h
  cases hc : w.currentSynchronousMessageIdx with
  | none =>
    rw [hnone hc, nil_append] at hW
    rw [hnone hc, append_nil, ← hW] at hmsgs
    exact .inl ⟨rfl, hmsgs⟩
  | some c =>
    obtain ⟨B', rfl⟩ := head?_eq_some_iff.1 (hsome c hc)
    cases A with
    | nil =>
      obtain ⟨rfl, -⟩ := List.cons.inj hW
      exact absurd hc hcur
    | cons a A =>
      obtain ⟨rfl, rfl⟩ := List.cons.inj hW
      exact .inr ⟨c, A, B', rfl, rfl, hmsgs⟩

/-- The message at the front goes to the back, and it is not the current one. -/
theorem Ordered.back
    (hi : w.currentSynchronousMessageIdx = none → (w.messageVec i).syncMessage = none)
    (hmsg : ∀ j, (w'.messageVec j).syncMessage = (w.messageVec j).syncMessage)
    (hcur' : w'.currentSynchronousMessageIdx = w.currentSynchronousMessageIdx) :
    w'.Ordered (W ++ [i]) es := by
  have hsame : ∀ l, w'.syncMessages l = w.syncMessages l :=
    fun l => syncMessages_congr fun j _ => hmsg j
  rcases h.behind hcur with ⟨hc, hmsgs⟩ | ⟨c, A, B, hc, rfl, hmsgs⟩
  · refine ⟨[], W ++ [i], rfl, ?_, fun _ => rfl, fun c hc' => ?_⟩
    · have hfirst : w.syncMessages [i] = [] := by simp [syncMessages, hi hc]
      rw [hmsgs, append_nil, hsame, ← singleton_append, syncMessages_append,
        syncMessages_append, hfirst, nil_append, append_nil]
    · rw [hcur', hc] at hc'
      cases hc'
  · refine ⟨A, c :: B ++ [i], by simp, ?_, fun hc' => ?_, fun c' hc' => ?_⟩
    · rw [hmsgs, hsame]
      simp
    · rw [hcur', hc] at hc'
      cases hc'
    · rw [hcur', hc] at hc'
      cases hc'
      rfl

/-- The message at the front leaves the list, and it is not a synchronous one. -/
theorem Ordered.leave (hi : (w.messageVec i).syncMessage = none)
    (hmsg : ∀ j ∈ W, (w'.messageVec j).syncMessage = (w.messageVec j).syncMessage)
    (hcur' : w'.currentSynchronousMessageIdx = w.currentSynchronousMessageIdx) :
    w'.Ordered W es := by
  have hfirst : ∀ l, w.syncMessages (i :: l) = w.syncMessages l := fun l => by
    simp [syncMessages, hi]
  rcases h.behind hcur with ⟨hc, hmsgs⟩ | ⟨c, A, B, hc, rfl, hmsgs⟩
  · refine ⟨[], W, rfl, ?_, fun _ => rfl, fun c hc' => ?_⟩
    · rw [hmsgs, append_nil, hfirst, syncMessages_congr hmsg]
    · rw [hcur', hc] at hc'
      cases hc'
  · refine ⟨A, c :: B, rfl, ?_, fun hc' => ?_, fun c' hc' => ?_⟩
    · have hsame : w'.syncMessages (c :: B ++ A) = w.syncMessages (c :: B ++ A) :=
        syncMessages_congr fun j hj => hmsg j (by
          rcases mem_append.1 hj with hj | hj
          · exact mem_append_right _ hj
          · exact mem_append_left _ hj)
      rw [hmsgs, hsame, syncMessages_append, hfirst, ← syncMessages_append]
    · rw [hcur', hc] at hc'
      cases hc'
    · rw [hcur', hc] at hc'
      cases hc'
      rfl

end

end Order

section Turn
variable {P : Protocol β σ} {cfg : WriterConfiguration} {complete : CompleteFunction β F} {cap : ℕ}
  {st st' : FillState β F σ} {i : ℕ} {W C O : List ℕ} {es : List (WriterEvent β F)}

theorem switched_current_of_sync (hsync : (st.writer.messageVec i).synchronous) :
    (switched P i st).writer.currentSynchronousMessageIdx = some i := if_pos hsync

theorem switched_current_of_async (hasync : ¬ (st.writer.messageVec i).synchronous) :
    (switched P i st).writer.currentSynchronousMessageIdx =
      st.writer.currentSynchronousMessageIdx := if_neg hasync

theorem SyncInv.current_ne {w : MessageWriter β F σ} (h : w.SyncInv W es)
    (hasync : ¬ (w.messageVec i).synchronous) :
    w.currentSynchronousMessageIdx ≠ some i := fun hc => hasync (h.current i hc)

theorem syncMessage_async {s : MessageStub β F σ} (h : ¬ s.synchronous) :
    s.syncMessage = none := if_neg h

variable {m : Message β} {r : SerializerRun σ} {w' : MessageWriter β F σ}

theorem SyncInv.only_started (h : st.writer.SyncInv (i :: W) es) {ser : σ}
    (hs : Serializes P cap st i m ser r)
    (hsync : (st.writer.messageVec i).synchronous) {j : ℕ} (hj : j ∈ W)
    (hne : j ≠ i) (hjsync : (st.writer.messageVec j).synchronous)
    (hjser : (st.writer.messageVec j).serializerPtr.isSome) : False := by
  have hcur := h.started j (mem_cons_of_mem i hj) hjsync hjser
  rcases hs.turn hsync with hnone | hsome
  · rw [hnone] at hcur
    cases hcur
  · rw [hsome] at hcur
    exact hne (some.inj hcur).symm

/-- A piece of the message at the front was sent: the stub has a serializer, and is
    otherwise as it was. -/
theorem syncMessage_update {ser : Option σ} {n : ℕ}
    (hvec : w'.messageVec = update st.writer.messageVec i
      { (st.writer.messageVec i).prepared P st.tmpSerializer with
        serializerPtr := ser, packetCount := n }) (j : ℕ) :
    (w'.messageVec j).synchronous = (st.writer.messageVec j).synchronous ∧
      (w'.messageVec j).syncMessage = (st.writer.messageVec j).syncMessage := by
  rcases eq_or_ne j i with rfl | hne
  · have hsync : (w'.messageVec j).synchronous = (st.writer.messageVec j).synchronous := by
      rw [hvec, update_self]
      exact MessageStub.prepared_synchronous
    have hptr : (w'.messageVec j).msgbundle.messagePtr =
        (st.writer.messageVec j).msgbundle.messagePtr := by
      rw [hvec, update_self]
      exact MessageStub.prepared_messagePtr
    refine ⟨hsync, ?_⟩
    rw [MessageStub.syncMessage, MessageStub.syncMessage, hsync, hptr]
  · rw [hvec, update_of_ne hne]
    exact ⟨rfl, rfl⟩

theorem SyncInv.piece {W' : List ℕ} {ser : Option σ} {n : ℕ} {ser0 : σ}
    (h : st.writer.SyncInv (i :: W) es)
    (hs : Serializes P cap st i m ser0 r) (hW' : ∀ j, j ∈ W' ↔ j ∈ i :: W)
    (hvec : w'.messageVec = update st.writer.messageVec i
      { (st.writer.messageVec i).prepared P st.tmpSerializer with
        serializerPtr := ser, packetCount := n })
    (hcur : w'.currentSynchronousMessageIdx = (switched P i st).writer.currentSynchronousMessageIdx)
    (hordered : w'.Ordered W' es) : w'.SyncInv W' es := by
  have hother : ∀ j, j ≠ i → w'.messageVec j = st.writer.messageVec j := fun j hj => by
    rw [hvec, update_of_ne hj]
  have hsync : ∀ j, (w'.messageVec j).synchronous = (st.writer.messageVec j).synchronous :=
    fun j => (syncMessage_update hvec j).1
  refine ⟨fun j hj => ?_, fun j hj hjsync hjser => ?_, fun c hc => ?_, hordered⟩
  · rcases eq_or_ne j i with rfl | hne
    · have hlive : ((st.writer.messageVec j).prepared P st.tmpSerializer).Live := hs.live.prepared
      rw [hvec, update_self]
      exact ⟨hlive.messagePtr, hlive.canceled, hlive.doneSend⟩
    · rw [hother j hne]
      exact h.live j ((hW' j).1 hj)
  · rw [hsync j] at hjsync
    rw [hcur]
    by_cases hi : (st.writer.messageVec i).synchronous
    · rcases eq_or_ne j i with rfl | hne
      · exact switched_current_of_sync hi
      · rw [hother j hne] at hjser
        have hjW : j ∈ W := (mem_cons.1 ((hW' j).1 hj)).resolve_left hne
        exact (h.only_started hs hi hjW hne hjsync hjser).elim
    · have hne : j ≠ i := fun heq => hi (heq ▸ hjsync)
      rw [hother j hne] at hjser
      rw [switched_current_of_async hi]
      exact h.started j ((hW' j).1 hj) hjsync hjser
  · rw [hcur] at hc
    rw [hsync c]
    by_cases hi : (st.writer.messageVec i).synchronous
    · rw [switched_current_of_sync hi] at hc
      rwa [← some.inj hc]
    · rw [switched_current_of_async hi] at hc
      exact h.current c hc

theorem currentAfter_sync (hsync : (st.writer.messageVec i).synchronous) :
    currentAfter P i st = none := by
  rw [currentAfter, switched_current_of_sync hsync, if_pos rfl]

theorem currentAfter_async (h : st.writer.SyncInv (i :: W) es)
    (hasync : ¬ (st.writer.messageVec i).synchronous) :
    currentAfter P i st = st.writer.currentSynchronousMessageIdx := by
  rw [currentAfter, switched_current_of_async hasync, if_neg (h.current_ne hasync)]

theorem SyncInv.finish {ser : σ} (h : st.writer.SyncInv (i :: W) es) (hnodup : (i :: W).Nodup)
    (hs : Serializes P cap st i m ser r)
    (hvec : ∀ j, j ≠ i → w'.messageVec j = st.writer.messageVec j)
    (hcur : w'.currentSynchronousMessageIdx = currentAfter P i st) (t : Option ℕ)
    (ctx : ConnectionContext) : w'.SyncInv W (es ++
      [.sent m t (st.writer.messageVec i).msgbundle.messageFlags.synchronous ctx]) := by
  have hne : ∀ j ∈ W, j ≠ i := fun j hj heq => (nodup_cons.1 hnodup).1 (heq ▸ hj)
  have hvecW : ∀ j ∈ W, w'.messageVec j = st.writer.messageVec j := fun j hj => hvec j (hne j hj)
  by_cases hi : (st.writer.messageVec i).synchronous
  · rw [currentAfter_sync hi] at hcur
    refine ⟨fun j hj => ?_, fun j hj hjsync hjser => ?_, fun c hc => ?_, ?_⟩
    · rw [hvecW j hj]
      exact h.live j (mem_cons_of_mem i hj)
    · rw [hvecW j hj] at hjsync hjser
      exact (h.only_started hs hi hj (hne j hj) hjsync hjser).elim
    · rw [hcur] at hc
      cases hc
    · have hfirst : st.writer.syncMessages (i :: W) = m :: st.writer.syncMessages W := by
        have hmsg : (st.writer.messageVec i).syncMessage = some m := by
          rw [MessageStub.syncMessage, if_pos hi, hs.message]
        exact filterMap_cons_some hmsg
      refine ⟨[], W, rfl, ?_, fun _ => rfl, fun c hc => ?_⟩
      · have hmsgs := h.ordered.front hnodup (hs.turn hi)
        have hflag : (st.writer.messageVec i).msgbundle.messageFlags.synchronous := hi
        rw [enqueuedSynchronous_append, sentSynchronous_append, hmsgs, hfirst, hflag,
          append_nil, syncMessages_congr fun j hj => by rw [hvecW j hj]]
        simp
      · rw [hcur] at hc
        cases hc
  · rw [currentAfter_async h hi] at hcur
    refine ⟨fun j hj => ?_, fun j hj hjsync hjser => ?_, fun c hc => ?_, ?_⟩
    · rw [hvecW j hj]
      exact h.live j (mem_cons_of_mem i hj)
    · rw [hvecW j hj] at hjsync hjser
      rw [hcur]
      exact h.started j (mem_cons_of_mem i hj) hjsync hjser
    · rw [hcur] at hc
      have hci : c ≠ i := fun heq => h.current_ne hi (heq ▸ hc)
      rw [hvec c hci]
      exact h.current c hc
    · have hleave : w'.Ordered W es := h.ordered.leave (h.current_ne hi)
        (syncMessage_async hi) (fun j hj => by rw [hvecW j hj]) hcur
      obtain ⟨A, B, hW, hmsgs, hnone, hsome⟩ := hleave
      have hflag : (st.writer.messageVec i).msgbundle.messageFlags.synchronous = false :=
        Bool.eq_false_of_not_eq_true hi
      refine ⟨A, B, hW, ?_, hnone, hsome⟩
      rw [enqueuedSynchronous_append, sentSynchronous_append, hmsgs, hflag]
      simp

/-- When a turn enqueues synchronous messages, none of them stands before the current one,
    or the message at the front, which is sent to its end, is the current one. -/
def EnqueuesInTurn (st st' : FillState β F σ) : Prop :=
  enqueuedSynchronous st'.events ≠ enqueuedSynchronous st.events →
    st.writer.InTurn ∨ ∃ i, st.writer.writeInnerList.front = some i ∧
      (st.writer.messageVec i).synchronous = true

theorem SyncInv.completed {w : MessageWriter β F σ} (h : w.SyncInv W es) (b : MessageBundle β F)
    (id : MessageId) : w.SyncInv W (es ++ [.completed b id]) := by
  obtain ⟨A, B, hW, hmsgs, hnone, hsome⟩ := h.ordered
  refine ⟨h.live, h.started, h.current, A, B, hW, ?_, hnone, hsome⟩
  rw [enqueuedSynchronous_append, sentSynchronous_append, hmsgs]
  simp

/-- **A turn keeps the order of the synchronous messages.** -/
theorem TurnCase.sync {turn : FillTurn β F σ} (hinv : st.writer.Inv W C O)
    (h : st.writer.SyncInv W (es ++ st.events))
    (hcase : TurnCase P cfg complete cap st C O W turn) (hturn : turn.state? = some st')
    (hmeets : EnqueuesInTurn st st') :
    ∃ W' C' O', st'.writer.Inv W' C' O' ∧ st'.writer.SyncInv W' (es ++ st'.events) := by
  cases hcase with
  | done hdone =>
    cases hturn
    exact ⟨W, C, O, hinv, h⟩
  | @rotate i j W hfree hsync hcur hne hinv' =>
    cases hturn
    refine ⟨W ++ [i], C, O, hinv', fun k hk => h.live k ?_, fun k hk => h.started k ?_, h.current,
      h.ordered.back (fun hc => hne ?_) (fun hc => ?_) (fun _ => rfl) rfl⟩
    · simpa [or_comm] using hk
    · simpa [or_comm] using hk
    · rw [hcur] at hc
      exact some.inj hc
    · rw [hcur] at hc
      cases hc
  | @drop i W w' hfree hdropped _ _ _ =>
    -- nothing was canceled
    have hptr := (h.live i mem_cons_self).messagePtr
    rw [hdropped.messagePtr] at hptr
    cases hptr
  | fail => cases hturn
  | @stay i W m ser r w' hs hr hempty hcount hinv' hvec hcur =>
    rw [endTurn_state?] at hturn
    cases hturn
    refine ⟨i :: W, C, O, hinv', h.piece hs (fun _ => Iff.rfl) hvec hcur ?_⟩
    have hmsg : ∀ l, w'.syncMessages l = st.writer.syncMessages l :=
      fun l => syncMessages_congr fun j _ => (syncMessage_update hvec j).2
    by_cases hi : (st.writer.messageVec i).synchronous
    · rw [switched_current_of_sync hi] at hcur
      refine ⟨[], i :: W, rfl, ?_, fun _ => rfl, fun c hc => hc ▸ hcur ▸ rfl⟩
      rw [append_nil, hmsg]
      exact h.ordered.front hinv.write.nodup (hs.turn hi)
    · rw [switched_current_of_async hi] at hcur
      obtain ⟨A, B, hW, hmsgs, hnone, hsome⟩ := h.ordered
      exact ⟨A, B, hW, by rw [hmsg]; exact hmsgs, hcur ▸ hnone, hcur ▸ hsome⟩
  | @back i W m ser r w' hs hr hempty hcount hinv' hvec hcur =>
    rw [endTurn_state?] at hturn
    cases hturn
    refine ⟨W ++ [i], C, O, hinv', h.piece hs (fun j => by simp [or_comm]) hvec hcur ?_⟩
    by_cases hi : (st.writer.messageVec i).synchronous
    · rw [switched_current_of_sync hi] at hcur
      refine ⟨W, [i], rfl, ?_, fun hc => ?_, fun c hc => hc ▸ hcur ▸ rfl⟩
      · rw [syncMessages_congr fun j _ => (syncMessage_update hvec j).2]
        exact h.ordered.front hinv.write.nodup (hs.turn hi)
      · rw [hcur] at hc
        cases hc
    · rw [switched_current_of_async hi] at hcur
      exact h.ordered.back (h.current_ne hi) (fun _ => syncMessage_async hi)
        (fun j => (syncMessage_update hvec j).2) hcur
  | @wait i W m ser r w' hs hr hempty hwait hinv' hvec hstub hcur =>
    rw [endTurn_state?] at hturn
    cases hturn
    refine ⟨W, C, O, hinv', ?_⟩
    rw [← append_assoc]
    exact h.finish hinv.write.nodup hs hvec hcur _ _
  | @complete i W N m ser r w₁ w' b fs err _ hs hr hempty hinv1 hvec hcur hentry hgrows =>
    rw [endTurn_state?] at hturn
    cases hturn
    obtain ⟨C', hinv'⟩ := hgrows.inv
    have hfinish := (h.finish hinv.write.nodup hs hvec hcur
      (st.writer.messageVec i).msgbundle.messageTypeId
      (contextOf i (st.writer.messageVec i).unique m)).completed b
        (st.writer.messageVec i).poolMsgId
    have hturn1 : enqueuedSynchronous fs ≠ [] → w₁.InTurn := by
      intro hne A B c hrepr hc j hj
      by_cases hi : (st.writer.messageVec i).synchronous
      · rw [hcur, currentAfter_sync hi] at hc
        cases hc
      · rw [hcur, currentAfter_async h hi] at hc
        obtain rfl : W = A ++ c :: B := hinv1.write.unique hrepr
        have hji : j ≠ i := by
          rintro rfl
          exact (nodup_cons.1 hinv.write.nodup).1 (mem_append_left _ hj)
        have hmeets' := hmeets (by
          rw [append_assoc, enqueuedSynchronous_append]
          exact fun heq => hne (self_eq_append_right.1 heq.symm))
        rcases hmeets' with hin | ⟨k, hk, hsync⟩
        · rw [hvec j hji]
          exact hin (i :: A) B c hinv.write hc j (mem_cons_of_mem i hj)
        · rw [hinv.write.front] at hk
          cases hk
          exact absurd hsync hi
    refine ⟨_, C', _, hinv', ?_⟩
    have hall := hfinish.grows hinv1 hgrows hturn1
    simpa only [append_assoc, cons_append, nil_append] using hall

end Turn

/-! ## Runs -/

/-- A run of enqueues and of turns, in which synchronous messages are enqueued only when no
    synchronous one stands before the one that is being sent. -/
inductive SyncRun (P : Protocol β σ) : List (WriterEvent β F) → MessageWriter β F σ → Prop where
  | start : SyncRun P [] new
  | enqueue {es fs} {w w' : MessageWriter β F σ} (cfg : WriterConfiguration)
      (b : MessageBundle β F) (poolMsgId : MessageId) :
      SyncRun P es w →
      Enqueueable b →
      (b.messageFlags.synchronous = true → w.InTurn) →
      w.exec P 0 (.enqueue cfg b poolMsgId) = some (fs, w') →
      SyncRun P (es ++ fs) w'
  | turn {es} {st st' : FillState β F σ} {turn : FillTurn β F σ} (cfg : WriterConfiguration)
      (complete : CompleteFunction β F) (cap : ℕ) :
      SyncRun P (es ++ st.events) st.writer →
      (∀ n b id, ∀ q ∈ (complete n b id).1, Enqueueable q.1) →
      fillTurn P cfg complete cap st = some turn →
      turn.state? = some st' →
      EnqueuesInTurn st st' →
      SyncRun P (es ++ st'.events) st'.writer

section Runs
variable {P : Protocol β σ} {w w' : MessageWriter β F σ} {es fs : List (WriterEvent β F)}
variable {cfg : WriterConfiguration}

/-- A call of `write` along which synchronous messages are enqueued in turn is a part
    of such a run. -/
theorem SyncRun.write {complete : CompleteFunction β F}
    {fuel bufsz : ℕ} {keepAlive : Bool} (h : SyncRun P es w)
    (hcb : ∀ n b id, ∀ q ∈ (complete n b id).1, Enqueueable q.1)
    (halong : WriteAlong P cfg complete EnqueuesInTurn fuel bufsz fuel (writeStart w))
    (hexec : w.exec P fuel (.write cfg complete bufsz keepAlive) = some (fs, w')) :
    SyncRun P (es ++ fs) w' := by
  obtain ⟨st, hwrite, heq⟩ := map_eq_some_iff.1 hexec
  cases heq
  refine write_invariant (I := fun w' fs _ => SyncRun P (es ++ fs) w') (fun _ _ _ => id) ?_ ?_
    halong hwrite
  · intro cap st turn st' hrun hturn hstate hmeets
    exact hrun.turn cfg complete cap hcb hturn hstate hmeets
  · rwa [append_nil]

theorem SyncInv.enqueue {W C O : List ℕ} {b : MessageBundle β F}
    {poolMsgId : MessageId} (hinv : w.Inv W C O) (h : w.SyncInv W es) (hb : Enqueueable b)
    (hturn : b.messageFlags.synchronous → w.InTurn)
    (hexec : w.exec P 0 (.enqueue cfg b poolMsgId) = some (fs, w')) :
    ∃ W' C' O', w'.Inv W' C' O' ∧ w'.SyncInv W' (es ++ fs) := by
  obtain ⟨⟨conn, w₁⟩, henq, heq⟩ := map_eq_some_iff.1 hexec
  cases heq
  cases conn with
  | none =>
    rcases enqueue_spec hinv hb henq with heq | ⟨i, C', u, hid, -⟩
    · cases heq
      exact ⟨W, C, O, hinv, by simpa using h⟩
    · cases hid
  | some connMsgId =>
    obtain ⟨i, hgrows⟩ := Grows.enqueue hinv hb henq
    obtain ⟨C', hinv'⟩ := hgrows.inv
    refine ⟨_, C', _, hinv', h.grows hinv hgrows fun hne => hturn ?_⟩
    by_contra hasync
    exact hne (by simp [enqueuedSynchronous, enqueuedBundles, hasync])

theorem syncInv_new : (new : MessageWriter β F σ).SyncInv [] [] where
  live i hi := absurd hi not_mem_nil
  started i hi := absurd hi not_mem_nil
  current c hc := by cases hc
  ordered := ⟨[], [], rfl, rfl, fun _ => rfl, fun c hc => by cases hc⟩

theorem SyncRun.inv (h : SyncRun P es w) : ∃ W C O, w.Inv W C O ∧ w.SyncInv W es := by
  induction h with
  | start => exact ⟨[], [], [], inv_new, syncInv_new⟩
  | enqueue cfg b poolMsgId _ hb hturn hexec ih =>
    obtain ⟨W, C, O, hinv, hsync⟩ := ih
    exact SyncInv.enqueue hinv hsync hb hturn hexec
  | turn cfg complete cap _ hcb hturn hstate hmeets ih =>
    obtain ⟨W, C, O, hinv, hsync⟩ := ih
    exact (fillTurn_cases hinv hcb hturn).sync hinv hsync hstate hmeets

end Runs

/-- The stub of a synchronous message that was started and is not finished. -/
def SendsSynchronous (w : MessageWriter β F σ) (i : ℕ) : Prop :=
  i < w.vecSize ∧ (w.messageVec i).synchronous = true ∧ (w.messageVec i).serializerPtr.isSome

theorem SyncInv.sends {w : MessageWriter β F σ} {W C O : List ℕ} {es : List (WriterEvent β F)}
    {i : ℕ} (hinv : w.Inv W C O) (h : w.SyncInv W es) (hi : w.SendsSynchronous i) :
    w.currentSynchronousMessageIdx = some i := by
  obtain ⟨hlt, hsync, hser⟩ := hi
  by_cases hW : i ∈ W
  · exact h.started i hW hsync hser
  · have hnone : (w.messageVec i).serializerPtr = none := by
      by_cases hC : i ∈ C
      · exact (hinv.cached i hC).serializerPtr
      · exact (hinv.waiting i hlt hW hC).serializerPtr
    rw [hnone] at hser
    cases hser

/-- **Synchronous messages are sent one at a time, in the order in which they were
    enqueued.** -/
theorem synchronous_in_order {P : Protocol β σ} {w : MessageWriter β F σ}
    {es : List (WriterEvent β F)} (h : SyncRun P es w) :
    (∀ i j, w.SendsSynchronous i → w.SendsSynchronous j → i = j) ∧
      sentSynchronous es <+: enqueuedSynchronous es := by
  obtain ⟨W, C, O, hinv, hsync⟩ := h.inv
  refine ⟨fun i j hi hj => ?_, ?_⟩
  · have hcur := SyncInv.sends hinv hsync hi
    rw [SyncInv.sends hinv hsync hj] at hcur
    exact (some.inj hcur).symm
  · obtain ⟨A, B, -, hmsgs, -⟩ := hsync.ordered
    rw [hmsgs]
    exact prefix_append _ _

def syncBytes (n : ℕ) : MessageBundle ℕ ℕ :=
  { messagePtr := some { body := n }, messageFlags := { synchronous := true } }

theorem inTurn_of_front {w : MessageWriter β F σ}
    (h : w.writeInnerList.front = w.currentSynchronousMessageIdx) : w.InTurn := by
  intro A B c hrepr hc i hi
  rw [hrepr.front, hc] at h
  cases A with
  | nil => cases hi
  | cons a A =>
    obtain rfl : a = c := some.inj h
    exact absurd (by simp) (nodup_cons.1 hrepr.nodup).1

theorem SyncRun.silentTurn {es : List (WriterEvent ℕ ℕ)} {w : MessageWriter ℕ ℕ ℕ}
    {st' : FillState ℕ ℕ ℕ} (cfg : WriterConfiguration) (h : SyncRun zeros es w)
    (hturn : (fillTurn zeros cfg (fun _ _ _ => ([], none)) 20
      (fillStart 20 (writeStart w))).bind FillTurn.state? = some st')
    (hsame : enqueuedBundles st'.events = []) : SyncRun zeros (es ++ st'.events) st'.writer := by
  obtain ⟨turn, hturn, hstate⟩ := bind_eq_some_iff.1 hturn
  have hstart : SyncRun zeros (es ++ (fillStart 20 (writeStart w)).events)
      (fillStart 20 (writeStart w)).writer := by
    rwa [show (fillStart 20 (writeStart w)).events = [] from rfl, append_nil]
  refine hstart.turn cfg _ 20 (fun _ _ _ q hq => absurd hq not_mem_nil) hturn hstate fun hne => ?_
  refine absurd ?_ hne
  rw [enqueuedSynchronous, hsame]
  rfl

/-- While a message of 40 bytes is being sent and is at the front, another one is
    enqueued; the first is sent to its end. -/
theorem synchronous_in_order_two : ∃ es, ∃ w : MessageWriter ℕ ℕ ℕ, SyncRun zeros es w ∧
    (sentSynchronous es).map Message.body = [40] ∧
    (enqueuedSynchronous es).map Message.body = [40, 2] ∧
    (∀ i j, w.SendsSynchronous i → w.SendsSynchronous j → i = j) ∧
      sentSynchronous es <+: enqueuedSynchronous es := by
  have hfirst := SyncRun.enqueue (P := zeros) smallConfig (syncBytes 40) {} .start
    ⟨rfl, rfl⟩ (fun _ A B c _ hc => by cases hc) rfl
  have hpart := hfirst.silentTurn smallConfig rfl rfl
  have hsecond := hpart.enqueue smallConfig (syncBytes 2) {} ⟨rfl, rfl⟩
    (fun _ => inTurn_of_front rfl) rfl
  have hdone := hsecond.silentTurn smallConfig rfl rfl
  exact ⟨_, _, hdone, rfl, rfl, synchronous_in_order hdone⟩

def execAll (P : Protocol β σ) (fuel : ℕ) (w : MessageWriter β F σ) :
    List (WriterOp β F) → Option (List (WriterEvent β F) × MessageWriter β F σ)
  | [] => some ([], w)
  | op :: ops => do
    let (es, w₁) ← w.exec P fuel op
    let (fs, w') ← execAll P fuel w₁ ops
    pure (es ++ fs, w')

/-- Half of the first of three messages is sent, and it goes to the back; the fourth is
    enqueued behind it, and is sent before the second. -/
theorem synchronous_overtakes :
    let cfg : WriterConfiguration := { smallConfig with maxMessageContinuousPacketCount := 1 }
    let enqueue (n : ℕ) : WriterOp ℕ ℕ := .enqueue cfg (syncBytes n) {}
    let write : WriterOp ℕ ℕ := .write cfg (fun _ _ _ => ([], none)) 24 false
    (execAll zeros 8 new [enqueue 40, enqueue 30, enqueue 31, write, enqueue 20, write, write]).map
        (fun r => ((enqueuedSynchronous r.1).map Message.body,
          (sentSynchronous r.1).map Message.body)) =
      some ([40, 30, 31, 20], [40, 20]) := by
  decide

end MessageWriter

end SolidFrame
