/-
  SolidFrame formalization — messages of a stopping connection that go back to its pool
  (`solid/frame/mpipc/src/mpipcservice.cpp`, `mpipcmessagewriter.cpp`).

  `forEveryMessagesNewerToOlder` starts at the front of the order list of the writer,
  which is its oldest message, and goes towards the back.  Each message that can be sent
  again is pushed to the front of the pool, so that they end up in the opposite order.
-/
import SolidFrame.Mpipc.MessageWriterRuns
import SolidFrame.Mpipc.PoolMessages

namespace SolidFrame

open List MessageWriter

/-! ## The visitor -/

namespace MessageWriter
variable {β F σ : Type} {w : MessageWriter β F σ}

end MessageWriter

/-! ## Model -/

/-- A message that another connection may send: it is idempotent, or was not started. -/
def MessageFlags.isResendable (f : MessageFlags) : Bool :=
  f.idempotent || (!f.startedSend && !f.doneSend)

namespace PoolMessages
variable {β F σ : Type}

def doPushFrontMessageToPool (m : PoolMessages β F) (b : MessageBundle β F) (id : MessageId) :
    Option (PoolMessages β F) :=
  if b.messageFlags.isResendable then
    match id.index with
    | none => (m.pushFrontMessage (clearDisruptingFlags b)).map Prod.snd
    | some i => some (m.reinsertFrontMessage i (clearDisruptingFlags b))
  else some m

/-- `doFetchResendableMessagesFromConnection`: the visitor takes the bundles that it pushes,
    in the order in which the writer visits them. -/
def doFetchResendableMessagesFromConnection (m : PoolMessages β F) (w : MessageWriter β F σ)
    (fuel : ℕ) : Option (PoolMessages β F × MessageWriter β F σ) :=
  (w.forEveryMessagesNewerToOlder
    (fun i => (w.messageVec i).msgbundle.messageFlags.isResendable) fuel).bind fun r =>
      (r.1.foldlM (fun m t => doPushFrontMessageToPool m t.1 t.2) m).map fun m' => (m', r.2)

/-- Messages are pushed one after the other, and the stubs that are listed get them. -/
inductive Pushes : PoolMessages β F → List (MessageBundle β F × MessageId) → List ℕ →
    PoolMessages β F → Prop where
  | nil (m : PoolMessages β F) : Pushes m [] [] m
  | cons {m m₁ m' t ts i I} :
      m.doPushFrontMessageToPool t.1 t.2 = some m₁ →
      m₁.msgorderInnerList.front = some i →
      Pushes m₁ ts I m' →
      Pushes m (t :: ts) (i :: I) m'

section Push
variable {m : PoolMessages β F} {O A C : List ℕ}

/-- The stub holds the message, and is the one that its id names, if there is one. -/
def Holds (m' : PoolMessages β F) (t : MessageBundle β F × MessageId) (i : ℕ) : Prop :=
  (m'.msgvec i).msgbundle = clearDisruptingFlags t.1 ∧ ∀ p, t.2.index = some p → i = p

theorem Pushes.unique {m m' m'' : PoolMessages β F} {ts : List (MessageBundle β F × MessageId)}
    {I I' : List ℕ} (h : Pushes m ts I m') (h' : Pushes m ts I' m'') : I = I' := by
  induction h generalizing I' with
  | nil m =>
    cases h'
    rfl
  | cons hpush hfront _ ih =>
    cases h' with
    | cons hpush' hfront' h' =>
      cases hpush.symm.trans hpush'
      cases hfront.symm.trans hfront'
      rw [ih h']

theorem Pushes.length {m m' : PoolMessages β F} {ts : List (MessageBundle β F × MessageId)}
    {I : List ℕ} (h : Pushes m ts I m') : I.length = ts.length := by
  induction h with
  | nil m => rfl
  | cons _ _ _ ih => rw [length_cons, length_cons, ih]

end Push

section Resend
variable {m m' : PoolMessages β F} {w : MessageWriter β F σ} {O A C Q : List ℕ}

end Resend

end PoolMessages

end SolidFrame
