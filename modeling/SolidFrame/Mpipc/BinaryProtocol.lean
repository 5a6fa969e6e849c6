/-
  SolidFrame formalization — the binary serializer as the protocol of a connection
  (`solid/frame/mpipc/mpipcprotocol_serialization_v1.hpp`, `Message::serialize` in
  `solid/frame/mpipc/mpipcmessage.hpp`).

  A message is stored as its type id, the state and the request id that the context
  holds, and the fields of the message.  The context is the same in all calls of `run`
  for one message; the model takes its values in the first of them.
-/
import SolidFrame.Serialization.SerializerProgress
import SolidFrame.Mpipc.MessageWriter

namespace SolidFrame

/-- `serialization_v1::Serializer`, with the type id and the fields of a message that was
    pushed and not run yet. -/
structure MessageSerializer where
  ser : SerializerBase
  pending : Option (ℕ × Ty × Obj)

namespace MessageSerializer

/-- `push(_rmsgptr, _msg_type_idx)`, with the ids of the registered types. -/
def push (ids : ℕ → Option ℕ) (s : MessageSerializer) (m : Option (Message (Ty × Obj)))
    (msgTypeIdx : Option ℕ) : MessageSerializer :=
  match m with
  | none => { s with ser := { s.ser with err := none }.push (.ptr true 0) (.ptr none) }
  | some m =>
    match msgTypeIdx.bind ids with
    | some id => { ser := { s.ser with err := none }, pending := some (id, m.body) }
    | none =>
      { s with ser := { s.ser with err := some .noType }.push (.error .pointerUnknown) .unit }

/-- What `Message::serialize` pushes, as values. -/
def header (ctx : ConnectionContext) : List SFrame :=
  [.storeInt .w8 [UInt8.ofNat ctx.messageState], .popExtStack,
    .storeCross .w32 (ctx.requestId.unique % 2 ^ 32), .popExtStack,
    .storeCross .w64 (ctx.requestId.index.getD invalidSize % 2 ^ 64), .popExtStack]

def headerExt (ctx : ConnectionContext) : List SExt :=
  [.val (ctx.messageState % 2 ^ 8), .val (ctx.requestId.unique % 2 ^ 32),
    .val (ctx.requestId.index.getD invalidSize % 2 ^ 64)]

/-- The serializer with all functions of the pushed message. -/
def scheduled (ctx : ConnectionContext) (s : MessageSerializer) : SerializerBase :=
  match s.pending with
  | none => s.ser
  | some (id, t, o) => { s.ser with
      fstk := .storeCross .w64 id :: (header ctx ++ .store t o :: s.ser.fstk)
      estk := headerExt ctx ++ s.ser.estk }

/-- `run`; at most `fuel` functions are called. -/
def run (fuel : ℕ) (ctx : ConnectionContext) (s : MessageSerializer) (room : ℕ) :
    Option (SerializerRun MessageSerializer) :=
  match (s.scheduled ctx).runLoop false fuel room [] with
  | some (.done out ser) => some ⟨SerializerBase.retval out, out, ser, none⟩
  | some (.failure ser) => some ⟨-1, [], ser, none⟩
  | _ => none

def clear (fuel : ℕ) (s : MessageSerializer) : MessageSerializer :=
  match (s.scheduled ⟨{}, 0⟩).runLoop true fuel 0 [] with
  | some (.done _ ser) | some (.failure ser) => ⟨ser, none⟩
  | _ => s

/-- The room that the next function needs to store something. -/
def need (s : MessageSerializer) : ℕ :=
  match s.pending with
  | none => s.ser.need
  | some _ => 1

end MessageSerializer

/-- `serialization_v1::Protocol`, with its limits and the ids of its types. -/
def binaryProtocol (lmts : Limits) (ids : ℕ → Option ℕ) (fuel : ℕ) :
    Protocol (Ty × Obj) MessageSerializer where
  createSerializer := ⟨.new lmts, none⟩
  reset s := { s with ser := s.ser.resetLimits }
  push := MessageSerializer.push ids
  run := MessageSerializer.run fuel
  empty s := s.pending.isNone && s.ser.fstk.isEmpty
  error s := s.ser.err.map fun e => .other e.ctorIdx
  clear := MessageSerializer.clear fuel
  minimumFreePacketDataSize := 16

/-! ## Progress -/

section Progress
variable {ids : ℕ → Option ℕ} {fuel : ℕ} {s : MessageSerializer}

/-- The fields of the message can be stored, and its type is registered; `fuel` is enough
    for the calls. -/
def Transmits (ids : ℕ → Option ℕ) (fuel : ℕ) (m : Message (Ty × Obj)) (msgTypeIdx : Option ℕ) :
    Prop :=
  (∃ id, msgTypeIdx.bind ids = some id ∧ id < Width.bound .w64) ∧
    ∃ n, StoredIn n m.body.1 m.body.2 ∧ n + 8 < fuel

/-- There is a message to be stored, in less than `fuel` calls. -/
def MessageSerializer.Ready (fuel : ℕ) (s : MessageSerializer) : Prop :=
  ∀ ctx, (s.scheduled ctx).Waits ∧ ∃ n, Loaded (s.scheduled ctx) n ∧ n < fuel

theorem MessageSerializer.need_scheduled (ctx : ConnectionContext) (s : MessageSerializer) :
    (s.scheduled ctx).need = s.need := by
  unfold MessageSerializer.scheduled MessageSerializer.need
  cases s.pending <;> rfl

theorem runnable_header {n : ℕ} {fs : List SFrame} {es : List SExt} (ctx : ConnectionContext)
    (h : Runnable n fs es) :
    Runnable (n + 6) (MessageSerializer.header ctx ++ fs)
    (MessageSerializer.headerExt ctx ++ es) := by
  have hindex : ctx.requestId.index.getD invalidSize % 2 ^ 64 < Width.bound .w64 :=
    Nat.mod_lt _ (by decide)
  have hunique : ctx.requestId.unique % 2 ^ 32 < Width.bound .w32 := Nat.mod_lt _ (by decide)
  have hstate : [UInt8.ofNat ctx.messageState].length = Width.bytes .w8 := rfl
  exact .plain (k := 1) (.storeInt hstate) (.popExtStack _
    (.plain (k := 1) (.storeCross hunique) (.popExtStack _
      (.plain (k := 1) (.storeCross hindex) (.popExtStack _ h)))))

/-- **A pushed message is ready to be stored.** -/
theorem ready_push {m : Message (Ty × Obj)} {msgTypeIdx : Option ℕ}
    (hm : Transmits ids fuel m msgTypeIdx) (hempty : s.ser.fstk = []) :
    (MessageSerializer.push ids s (some m) msgTypeIdx).Ready fuel := by
  obtain ⟨⟨id, hid, hbound⟩, n, ho, hfuel⟩ := hm
  intro ctx
  have hpush : MessageSerializer.push ids s (some m) msgTypeIdx =
      { ser := { s.ser with err := none }, pending := some (id, m.body) } := by
    simp only [MessageSerializer.push, hid]
  rw [hpush]
  have hbody : Runnable (n + 1) (.store m.body.1 m.body.2 :: s.ser.fstk) s.ser.estk := by
    rw [hempty]
    simpa using Runnable.store ho (.nil s.ser.estk)
  have hall := Runnable.plain (.storeCross hbound) (runnable_header ctx hbody)
  exact ⟨trivial, _, .plan hall, by omega⟩

/-- **A call of `run`** on a serializer with a message to store returns; when no error is
    reported, it stores something iff it has the room which the next function needs, and the
    serializer is empty or has more to store. -/
theorem binaryProtocol_run (lmts : Limits) (ids : ℕ → Option ℕ) (h : s.Ready fuel)
    (ctx : ConnectionContext) (room : ℕ) :
    ∃ r, (binaryProtocol lmts ids fuel).run ctx s room = some r ∧
      (room < 2 ^ 31 → (binaryProtocol lmts ids fuel).error r.serializer = none →
        (0 < r.retval ↔ s.need ≤ room)) ∧
      (0 < r.retval → (binaryProtocol lmts ids fuel).empty r.serializer = false →
        r.serializer.Ready fuel) := by
  obtain ⟨hw, n, hloaded, hfuel⟩ := h ctx
  obtain ⟨r, hr, hends⟩ := hloaded.run hfuel []
  cases hends with
  | @failure ser herr =>
    have hrun : MessageSerializer.run fuel ctx s room = some ⟨-1, [], ser, none⟩ := by
      rw [MessageSerializer.run, hr]
    refine ⟨_, hrun, fun _ hnone => ?_, fun hpos => ?_⟩
    · have hnone : ser.err = none := by simpa [binaryProtocol] using hnone
      rw [hnone] at herr
      cases herr
    · exact absurd hpos (show ¬ (0 : ℤ) < -1 by decide)
  | @done out ser n' hloaded' hle hlast hout hiff =>
    have hrun : MessageSerializer.run fuel ctx s room =
        some ⟨SerializerBase.retval ([] ++ out), [] ++ out, ser, none⟩ := by
      rw [MessageSerializer.run, hr]
    refine ⟨_, hrun, fun hbuf _ => ?_, fun _ hempty => ?_⟩
    · have hretval : SerializerBase.retval ([] ++ out) = out.length :=
        toInt32_of_lt (Nat.lt_of_le_of_lt hout hbuf)
      rw [hretval, ← MessageSerializer.need_scheduled ctx s, ← hiff hw hbuf, ← List.length_pos_iff]
      exact Int.natCast_pos
    · intro ctx'
      have hne : ser.fstk ≠ [] := by
        intro hnil
        simp [binaryProtocol, hnil] at hempty
      exact ⟨hlast.resolve_left hne, n', hloaded', Nat.lt_of_le_of_lt hle hfuel⟩

end Progress

end SolidFrame
