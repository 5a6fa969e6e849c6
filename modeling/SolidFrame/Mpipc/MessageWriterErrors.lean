/-
  SolidFrame formalization — errors in a call of `MessageWriter::write`
  (`solid/frame/mpipc/src/mpipcmessagewriter.cpp`).

  A call of `Serializer::run` that fails makes `doFillPacket` return a null position, which
  `write` takes for the end of a packet; an error of the completion callback ends the packet,
  but `write` goes on with the next one.
-/
import SolidFrame.Mpipc.MessageWriterBuffer

namespace SolidFrame

open Option PacketHeader

namespace MessageWriter
variable {β F σ : Type}

/-! ## Errors -/

section Errors
variable (P : Protocol β σ) (cfg : WriterConfiguration) (complete : CompleteFunction β F)

/-- An error comes up in a turn: `run` fails, or the callback returns it. -/
inductive Raises (cap : ℕ) (fs fs' : FillState β F σ) : Option MpipcError → Prop where
  | run (ht : fillTurn P cfg complete cap fs = some (.failed fs')) : Raises cap fs fs' fs'.rerror
  | callback {e : MpipcError} :
      fillTurn P cfg complete cap fs = some (.done fs') →
      completions fs.events < completions fs'.events →
      fs'.rerror = some e →
      Raises cap fs fs' (some e)

inductive Packets : List Byte → Prop where
  | nil : Packets []
  | snoc {out : List Byte} (h : Packets out) (t : PacketType) (data compressed : List Byte) :
      Packets (out ++ packet t data compressed)

/-- **The errors of a call are contained**: `write` returns, with `_rerror` set to the error;
    nothing is sent, completed or enqueued after it; at most the packet it came up in is added
    to those before it; and what is returned is whole packets in the buffer. -/
def Contained (bufsz : ℕ) (keepAlive : Bool) (w : MessageWriter β F σ) : Prop :=
  ∀ st n fs fs' e, WriteTurns P cfg complete bufsz (writeStart w) st →
    MorePackets P bufsz st →
    FillTurns P cfg complete (packetRoom bufsz st) n (fillStart (packetRoom bufsz st) st) fs →
    Raises P cfg complete (packetRoom bufsz st) fs fs' e →
    ∃ N st', (∀ fuel, N < fuel → write P cfg complete fuel bufsz keepAlive w = some st') ∧
      st'.rerror = e ∧ st'.writer = fs'.writer ∧ st'.events = fs'.events ∧
      (st'.out = st.out ∨ ∃ t data compressed, st'.out = st.out ++ packet t data compressed) ∧
      Packets st'.out ∧ st'.out.length ≤ bufsz

end Errors

section Call
variable {P : Protocol β σ} {cfg : WriterConfiguration} {complete : CompleteFunction β F}
  {cap fuel bufsz n : ℕ} {st st' : WriteState β F σ} {w : MessageWriter β F σ} {W C : List ℕ}

end Call

end MessageWriter

end SolidFrame
