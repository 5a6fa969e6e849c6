/-
  SolidFrame formalization — completing a received message
  (`Connection::doCompleteMessage` in `solid/frame/mpipc/src/mpipcconnection.cpp`).

  A message that comes back to its sender is a response: its request id, as the
  peer has sent it, is the id of the request in the writer, and the request is
  taken out of the writer with `MessageWriter::cancel`.
-/
import SolidFrame.Mpipc.MessageWriterRuns

namespace SolidFrame

open MessageWriter

def Message.isBackOnSender {β : Type} (m : Message β) : Bool := m.stt == 2

/-- Which completion function is called: that of a bundle, or that of a message type. -/
inductive CompleteCall (F : Type) where
  | own (f : F)
  | ofType (messageTypeId : Option ℕ)
  deriving DecidableEq

/-- The call of a completion function for a received message: what it finds in the
    context, the request and the response. -/
structure Completion (β F : Type) where
  call : CompleteCall F
  messageFlags : MessageFlags := {}
  requestId : MessageId := {}
  messageId : MessageId := {}
  request : Option (Message β) := none
  response : Message β
  deriving DecidableEq

namespace Connection
variable {β F σ : Type}

/-- The completion function for a response to the request in `b`. -/
def completeCall (b : MessageBundle β F) (responseTypeId : Option ℕ) : CompleteCall F :=
  match b.completeFnc with
  | some f => .own f
  | none => if b.messagePtr.isSome then .ofType b.messageTypeId else .ofType responseTypeId

/-- What a received message removes from the writer, and the writer after it. -/
def settle (P : Protocol β σ) (w : MessageWriter β F σ) (response : Message β) :
    Option (MessageBundle β F × MessageId) × MessageWriter β F σ :=
  if response.isBackOnSender then w.cancel P response.requid else (none, w)

/-- `doCompleteMessage` for a received message. -/
def doCompleteMessage (P : Protocol β σ) (w : MessageWriter β F σ) (response : Message β)
    (responseTypeId : Option ℕ) : Completion β F × MessageWriter β F σ :=
  if response.isBackOnSender then
    -- the bundle stays empty when nothing is canceled
    let r := settle P w response
    let msgBundle := (r.1.map Prod.fst).getD {}
    ({ call := completeCall msgBundle responseTypeId
       messageFlags := msgBundle.messageFlags
       requestId := response.requid
       messageId := (r.1.map Prod.snd).getD {}
       request := msgBundle.messagePtr
       response := response }, r.2)
  else ({ call := .ofType responseTypeId, response := response }, w)

/-! ## What a response may settle -/

def Names (w : MessageWriter β F σ) (id : MessageId) (i : ℕ) : Prop :=
  id.index = some i ∧ i < w.vecSize ∧ id.unique = (w.messageVec i).unique

/-- A stub that the message names is one whose message is already canceled, or a request
    that was sent to its end. -/
def Awaited (w : MessageWriter β F σ) (response : Message β) : Prop :=
  response.isBackOnSender = true → ∀ i, Names w response.requid i →
    (w.messageVec i).isCanceled = true ∨ SentRequest (w.messageVec i)

def SameLists (w w' : MessageWriter β F σ) : Prop :=
  w'.writeInnerList = w.writeInnerList ∧ w'.cacheInnerList = w.cacheInnerList ∧
    w'.orderInnerList = w.orderInnerList ∧ w'.statusLinks = w.statusLinks ∧
    w'.orderLinks = w.orderLinks

/-- A received message only settles a request that awaits it: a bundle that it removes is
    that of a request that was sent to its end, and a message that names no such request
    leaves the lists of the writer as they are. -/
def Settles (P : Protocol β σ) (w : MessageWriter β F σ) (response : Message β) : Prop :=
  (∀ b poolMsgId, (settle P w response).1 = some (b, poolMsgId) →
    ∃ i, Names w response.requid i ∧ SentRequest (w.messageVec i) ∧
      b = (w.messageVec i).msgbundle.setCanceled) ∧
  ((¬ ∃ i, Names w response.requid i ∧ SentRequest (w.messageVec i)) →
    ∀ responseTypeId, SameLists w (doCompleteMessage P w response responseTypeId).2)

section Settle
variable {P : Protocol β σ} {w : MessageWriter β F σ} {response : Message β}

theorem doCompleteMessage_writer (responseTypeId : Option ℕ) :
    (doCompleteMessage P w response responseTypeId).2 = (settle P w response).2 := by
  by_cases hback : response.isBackOnSender
  · rw [doCompleteMessage, if_pos hback]
  · rw [doCompleteMessage, if_neg hback, settle, if_neg hback]

theorem settle_unnamed (h : ∀ i, ¬ Names w response.requid i) :
    settle P w response = (none, w) := by
  unfold settle
  split_ifs
  · unfold cancel
    cases hindex : response.requid.index with
    | none => rfl
    | some i =>
      simp only
      rw [if_neg]
      rintro ⟨hlt, hunique⟩
      exact h i ⟨hindex, hlt, hunique⟩
  · rfl

theorem settle_names {i : ℕ} (hback : response.isBackOnSender)
    (hnames : Names w response.requid i) : settle P w response = w.doCancel P i := by
  obtain ⟨hindex, hlt, hunique⟩ := hnames
  rw [settle, if_pos hback, cancel, hindex]
  exact if_pos ⟨hlt, hunique⟩

theorem Names.unique {i j : ℕ} {id : MessageId} (hi : Names w id i) (hj : Names w id j) : i = j :=
  Option.some.inj (hi.1.symm.trans hj.1)

theorem settles_of_nothing (h : settle P w response = (none, w)) : Settles P w response := by
  constructor
  · intro b poolMsgId hremoved
    rw [h] at hremoved
    cases hremoved
  · intro _ responseTypeId
    rw [doCompleteMessage_writer, h]
    exact ⟨rfl, rfl, rfl, rfl, rfl⟩

/-- **A received response only settles a request that awaits it, exactly when the stub that
    it names is not that of a message in another phase.** -/
theorem doCompleteMessage_settles_iff (P : Protocol β σ) (w : MessageWriter β F σ)
    (response : Message β) : Settles P w response ↔ Awaited w response := by
  constructor
  · rintro ⟨hremoved, -⟩ hback i hnames
    by_cases hcanceled : (w.messageVec i).isCanceled
    · exact .inl hcanceled
    · have hcancel : (settle P w response).1 =
          some ((w.messageVec i).msgbundle.setCanceled, (w.messageVec i).poolMsgId) := by
        rw [settle_names hback hnames, doCancel, if_neg hcanceled]
      obtain ⟨j, hj, hsent, -⟩ := hremoved _ _ hcancel
      obtain rfl := hnames.unique hj
      exact .inr hsent
  · intro hawaited
    by_cases hback : response.isBackOnSender
    · by_cases hnamed : ∃ i, Names w response.requid i
      · obtain ⟨i, hnames⟩ := hnamed
        have hsettle := settle_names (P := P) hback hnames
        by_cases hcanceled : (w.messageVec i).isCanceled
        · refine settles_of_nothing ?_
          rw [hsettle, doCancel, if_pos hcanceled]
        · have hsent := (hawaited hback i hnames).resolve_left hcanceled
          refine ⟨fun b id h => ⟨i, hnames, hsent, ?_⟩, fun h => absurd ⟨i, hnames, hsent⟩ h⟩
          rw [hsettle, doCancel, if_neg hcanceled] at h
          cases h
          rfl
      · exact settles_of_nothing (settle_unnamed (not_exists.1 hnamed))
    · exact settles_of_nothing (by rw [settle, if_neg hback])

/-- A received message that names a message that was not sent yet removes it from the
    writer. -/
theorem doCompleteMessage_takes_unsent : ∃ w : MessageWriter ℕ ℕ ℕ, new.exec zeros 0
        (.enqueue smallConfig (fortyBytes {}) {}) =
          some ([.enqueued (fortyBytes {}) {} ⟨some 0, 0⟩], w) ∧
      (settle zeros w ⟨⟨some 0, 0⟩, 2, 0⟩).1 = some (fortyBytes { canceled := true }, {}) ∧
      ¬ Settles zeros w ⟨⟨some 0, 0⟩, 2, 0⟩ := by
  refine ⟨_, rfl, rfl, ?_⟩
  rintro ⟨hremoved, -⟩
  obtain ⟨i, ⟨hindex, -, -⟩, hsent, -⟩ := hremoved _ _ rfl
  cases hindex
  exact absurd hsent.2.2 (by decide)

end Settle

end Connection

end SolidFrame
