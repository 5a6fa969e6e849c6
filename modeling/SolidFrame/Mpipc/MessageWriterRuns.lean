/-
  SolidFrame formalization — runs of the message writer
  (`solid/frame/mpipc/src/mpipcmessagewriter.cpp`).
-/
import SolidFrame.Mpipc.MessageWriterTurn

namespace SolidFrame

open List Option

namespace MessageWriter
variable {β F σ : Type}

/-! ## Packets -/

/-- From `w` to `w'`, with the order list `O` before: the lists are still in order, and
    no bundle was lost or doubled. -/
def Keeps (w : MessageWriter β F σ) (O : List ℕ) (events : List (WriterEvent β F))
    (w' : MessageWriter β F σ) : Prop :=
  ∃ W' C' O', w'.Inv W' C' O' ∧ Balanced w O events w' O'

section Packets
variable {P : Protocol β σ} {cfg : WriterConfiguration} {complete : CompleteFunction β F}

def FillTurn.state? : FillTurn β F σ → Option (FillState β F σ)
  | .next st | .done st => some st
  | .failed _ => none

@[simp] theorem endTurn_state? (st : FillState β F σ) : (endTurn st).state? = some st := by
  unfold endTurn
  split_ifs <;> rfl

theorem Balanced.of_entry {w w' : MessageWriter β F σ} {O : List ℕ} {i : ℕ}
    (hvec : ∀ j, j ≠ i → w'.messageVec j = w.messageVec j)
    (hentry : entryOf (w'.messageVec i).msgbundle (w'.messageVec i).poolMsgId =
      entryOf (w.messageVec i).msgbundle (w.messageVec i).poolMsgId)
    {es : List (WriterEvent β F)} (hentered : entered es = []) (hleft : left es = []) :
    Balanced w O es w' O := by
  have hsame : w'.ownedBy O = w.ownedBy O := by
    refine ownedBy_congr fun j _ => ?_
    rcases eq_or_ne j i with rfl | hne
    · exact hentry
    · rw [hvec j hne]
  unfold Balanced
  rw [hentered, hleft, hsame]

variable {st st' : FillState β F σ} {cap : ℕ}

/-- **A turn keeps the lists.** -/
theorem TurnCase.keeps {turn : FillTurn β F σ} {W C O : List ℕ}
    (h : st.writer.Inv W C O) (hcase : TurnCase P cfg complete cap st C O W turn)
    (hturn : turn.state? = some st') :
    ∃ es, st'.events = st.events ++ es ∧ Keeps st.writer O es st'.writer := by
  cases hcase with
  | done hdone =>
    cases hturn
    exact ⟨[], by simp, W, C, O, h, Balanced.refl _ _⟩
  | rotate hfree hsync hcur hne hinv =>
    cases hturn
    exact ⟨[], by simp, _, C, O, hinv, List.Perm.refl _⟩
  | @drop i W w' hfree hdropped hinv hvec hcur =>
    cases hturn
    refine ⟨[], by simp [switched], W, i :: C, O, hinv, ?_⟩
    have hi : i ∉ O := by
      intro hmem
      have hptr := ((h.owned i).1 hmem).2
      rw [hdropped.messagePtr] at hptr
      cases hptr
    have hsame : w'.ownedBy O = st.writer.ownedBy O := by
      refine ownedBy_congr fun j hj => ?_
      rw [hvec j fun heq => hi (heq ▸ hj)]
    unfold Balanced
    rw [hsame]
    exact List.Perm.refl _
  | fail => cases hturn
  | @stay i W m ser r w' hs hr hempty hcount hinv hvec hcur =>
    rw [endTurn_state?] at hturn
    cases hturn
    refine ⟨[], by simp [ran, switched], _, C, O, hinv, Balanced.of_entry (i := i) ?_ ?_ rfl rfl⟩
    · intro j hj
      rw [hvec, Function.update_of_ne hj]
    · rw [hvec, Function.update_self]
      exact MessageStub.prepared_entry
  | @back i W m ser r w' hs hr hempty hcount hinv hvec hcur =>
    rw [endTurn_state?] at hturn
    cases hturn
    refine ⟨[], by simp [ran, switched], _, C, O, hinv, Balanced.of_entry (i := i) ?_ ?_ rfl rfl⟩
    · intro j hj
      rw [hvec, Function.update_of_ne hj]
    · rw [hvec, Function.update_self]
      exact MessageStub.prepared_entry
  | wait hs hr hempty hwait hinv hvec hstub hcur =>
    rw [endTurn_state?] at hturn
    cases hturn
    refine ⟨_, rfl, _, C, O, hinv, Balanced.of_entry hvec ?_ rfl rfl⟩
    rw [hstub]
    rfl
  | @complete i W N m ser r w1 w' b es err _ hs hr hempty hinv hvec hcur hentry hgrows =>
    rw [endTurn_state?] at hturn
    cases hturn
    obtain ⟨C', hinv'⟩ := hgrows.inv
    refine ⟨_, append_assoc _ _ _, _, C', _, hinv', ?_⟩
    have hi : i ∈ O := (h.owned i).2 ⟨h.writeLt i mem_cons_self, hs.live.messagePtr⟩
    have hown := ownedBy_erase h.orderNodup hi hvec
    rw [← hentry] at hown
    -- the bundle of `i` goes out, then the callback's come in
    have hout : Balanced st.writer O [.completed b (st.writer.messageVec i).poolMsgId] w1
        (O.erase i) := hown
    have hsent : Balanced st.writer O [.sent m (st.writer.messageVec i).msgbundle.messageTypeId
        (st.writer.messageVec i).msgbundle.messageFlags.synchronous
        (contextOf i (st.writer.messageVec i).unique m)] st.writer O := List.Perm.refl _
    exact hsent.trans (hout.trans hgrows.balanced)

section Loops

def fillStart (cap : ℕ) (st : WriteState β F σ) : FillState β F σ where
  writer := st.writer
  out := []
  freesz := cap
  tmpSerializer := none
  packetMessageCount := 0
  packetType := .switchToNewMessage
  rerror := st.rerror
  events := st.events

variable (P cfg complete) in
/-- `Φ` holds of the locals before and after each turn of the loop of `doFillPacket`. -/
def FillAlong (Φ : FillState β F σ → FillState β F σ → Prop) (cap : ℕ) : ℕ → FillState β F σ → Prop
  | 0, _ => True
  | fuel + 1, st => ∀ turn st', fillTurn P cfg complete cap st = some turn →
      turn.state? = some st' → Φ st st' ∧ (turn = .next st' → FillAlong Φ cap fuel st')

variable (P cfg complete) in
/-- `Φ` holds before and after each turn of the packets of a call of `write`. -/
def WriteAlong (Φ : FillState β F σ → FillState β F σ → Prop) (fuel bufsz : ℕ) :
    ℕ → WriteState β F σ → Prop
  | 0, _ => True
  | n + 1, st =>
    PacketHeader.sizeOf + P.minimumFreePacketDataSize ≤ bufsz - st.out.length ∧ st.more = true →
      FillAlong P cfg complete Φ (bufsz - st.out.length - PacketHeader.sizeOf) fuel
        (fillStart (bufsz - st.out.length - PacketHeader.sizeOf) st) ∧
      ∀ st', writeTurn P cfg complete fuel bufsz st = some st' → WriteAlong Φ fuel bufsz n st'

def writeStart (w : MessageWriter β F σ) : WriteState β F σ := ⟨w, [], true, none, []⟩

theorem fillAlong_true {fuel : ℕ} :
    FillAlong P cfg complete (fun _ _ => True) cap fuel st := by
  induction fuel generalizing st with
  | zero => trivial
  | succ fuel ih => exact fun _ _ _ _ => ⟨trivial, fun _ => ih⟩

theorem writeAlong_true {fuel bufsz n : ℕ} {st : WriteState β F σ} :
    WriteAlong P cfg complete (fun _ _ => True) fuel bufsz n st := by
  induction n generalizing st with
  | zero => trivial
  | succ n ih => exact fun _ => ⟨fillAlong_true, fun _ _ => ih⟩

theorem writeTurn_fill {fuel bufsz : ℕ} {st st' : WriteState β F σ}
    (hturn : writeTurn P cfg complete fuel bufsz st = some st') :
    ∃ fs, fillLoop P cfg complete (bufsz - st.out.length - PacketHeader.sizeOf) fuel
        (fillStart (bufsz - st.out.length - PacketHeader.sizeOf) st) = some (.done fs) ∧
      st'.writer = fs.writer ∧ st'.events = fs.events := by
  unfold writeTurn at hturn
  obtain ⟨turn, hfill, hturn⟩ := bind_eq_some_iff.1 hturn
  cases turn with
  | next | failed => cases hturn
  | done fs =>
    refine ⟨fs, hfill, ?_⟩
    simp only at hturn
    split_ifs at hturn
    · cases hturn
      exact ⟨rfl, rfl⟩
    · cases hcomp : cfg.inplaceCompressFnc fs.out <;> rw [hcomp] at hturn <;> cases hturn <;>
        exact ⟨rfl, rfl⟩

variable {keepAlive : Bool}

section Invariant
-- what every turn with `Φ` keeps, every call of `write` along `Φ` keeps; a packet starts without
-- a serializer for reuse
variable {Φ : FillState β F σ → FillState β F σ → Prop}
  {I : MessageWriter β F σ → List (WriterEvent β F) → Option σ → Prop}
  (hreset : ∀ w es tmp, I w es tmp → I w es none)
  (hkeep : ∀ cap st turn st', I st.writer st.events st.tmpSerializer →
    fillTurn P cfg complete cap st = some turn → turn.state? = some st' → Φ st st' →
    I st'.writer st'.events st'.tmpSerializer)
include hkeep

theorem fillLoop_invariant {fuel : ℕ}
    (h : I st.writer st.events st.tmpSerializer) (halong : FillAlong P cfg complete Φ cap fuel st)
    (hloop : fillLoop P cfg complete cap fuel st = some (.done st')) :
    I st'.writer st'.events st'.tmpSerializer := by
  induction fuel generalizing st with
  | zero => cases hloop
  | succ fuel ih =>
    rw [fillLoop] at hloop
    obtain ⟨turn, hturn, hloop⟩ := bind_eq_some_iff.1 hloop
    cases turn with
    | next st1 =>
      obtain ⟨hΦ, hrest⟩ := halong _ st1 hturn rfl
      exact ih (hkeep cap st _ st1 h hturn rfl hΦ) (hrest rfl) hloop
    | done st1 =>
      cases hloop
      exact hkeep cap st _ st' h hturn rfl (halong _ st' hturn rfl).1
    | failed st1 => cases hloop

include hreset
variable {fuel bufsz : ℕ} {st st' : WriteState β F σ}

theorem writeTurn_invariant (h : I st.writer st.events none)
    (halong : FillAlong P cfg complete Φ (bufsz - st.out.length - PacketHeader.sizeOf) fuel
      (fillStart (bufsz - st.out.length - PacketHeader.sizeOf) st))
    (hturn : writeTurn P cfg complete fuel bufsz st = some st') :
    I st'.writer st'.events none := by
  obtain ⟨fs, hfs, hwriter, hevents⟩ := writeTurn_fill hturn
  rw [hwriter, hevents]
  exact hreset _ _ _ (fillLoop_invariant hkeep h halong hfs)

theorem writeLoop_invariant {n : ℕ} (h : I st.writer st.events none)
    (halong : WriteAlong P cfg complete Φ fuel bufsz n st)
    (hloop : writeLoop P cfg complete fuel bufsz n st = some st') :
    I st'.writer st'.events none := by
  induction n generalizing st with
  | zero => cases hloop
  | succ n ih =>
    rw [writeLoop] at hloop
    split_ifs at hloop with hmore
    · obtain ⟨st1, hturn, hloop⟩ := bind_eq_some_iff.1 hloop
      obtain ⟨hfill, hrest⟩ := halong hmore
      exact ih (writeTurn_invariant hreset hkeep h hfill hturn) (hrest st1 hturn) hloop
    · cases hloop
      exact h

theorem write_invariant {w : MessageWriter β F σ} (h : I w [] none)
    (halong : WriteAlong P cfg complete Φ fuel bufsz fuel (writeStart w))
    (hwrite : write P cfg complete fuel bufsz keepAlive w = some st) :
    I st.writer st.events none := by
  unfold write at hwrite
  obtain ⟨st1, hloop, hwrite⟩ := bind_eq_some_iff.1 hwrite
  have h1 : I st1.writer st1.events none := writeLoop_invariant hreset hkeep h halong hloop
  have hsame : st.events = st1.events ∧ st.writer = st1.writer := by
    split_ifs at hwrite <;> cases hwrite <;> exact ⟨rfl, rfl⟩
  rwa [hsame.1, hsame.2]

end Invariant

/-- **A call of `write` keeps the lists.** -/
theorem write_keeps {fuel bufsz : ℕ} {w : MessageWriter β F σ}
    {st : WriteState β F σ} {W C O : List ℕ}
    (hcb : ∀ n b id, ∀ q ∈ (complete n b id).1, Enqueueable q.1) (h : w.Inv W C O)
    (hwrite : write P cfg complete fuel bufsz keepAlive w = some st) :
    Keeps w O st.events st.writer := by
  have hstart : Keeps w O [] w := ⟨W, C, O, h, Balanced.refl _ _⟩
  refine write_invariant (I := fun w' es _ => Keeps w O es w') (fun _ _ _ => id) ?_ hstart
    writeAlong_true hwrite
  rintro cap st turn st' ⟨W1, C1, O1, h1, hbal⟩ hturn hstate -
  obtain ⟨es, hes, W', C', O', h', hbal'⟩ := (fillTurn_cases h1 hcb hturn).keeps h1 hstate
  rw [hes]
  exact ⟨W', C', O', h', hbal.trans hbal'⟩

end Loops

end Packets

end MessageWriter

/-! ## Calls -/

inductive WriterOp (β F : Type) where
  | enqueue (cfg : WriterConfiguration) (b : MessageBundle β F) (poolMsgId : MessageId)
  | cancel (id : MessageId)
  | cancelOldest
  | write (cfg : WriterConfiguration) (complete : CompleteFunction β F) (bufsz : ℕ)
    (keepAlive : Bool)
  /-- `forEveryMessagesNewerToOlder` with a visitor that takes the bundles of some stubs -/
  | visit (takes : ℕ → Bool)

namespace MessageWriter
variable {β F σ : Type}

def canceledEvents : Option (MessageBundle β F × MessageId) → List (WriterEvent β F)
  | some (b, poolMsgId) => [.canceled b poolMsgId]
  | none => []

/-- A call, with the turns of its loops bounded by `fuel`. -/
def exec (P : Protocol β σ) (fuel : ℕ) (w : MessageWriter β F σ) :
    WriterOp β F → Option (List (WriterEvent β F) × MessageWriter β F σ)
  | .enqueue cfg b poolMsgId => (w.enqueue cfg b poolMsgId).map fun r =>
      ((r.1.map fun connMsgId => .enqueued b poolMsgId connMsgId).toList, r.2)
  | .cancel id => some (canceledEvents (w.cancel P id).1, (w.cancel P id).2)
  | .cancelOldest => (w.cancelOldest P).map fun r => (canceledEvents r.1, r.2)
  | .write cfg complete bufsz keepAlive =>
      (write P cfg complete fuel bufsz keepAlive w).map fun st => (st.events, st.writer)
  | .visit takes => (w.forEveryMessagesNewerToOlder takes fuel).map fun r =>
      (r.1.map fun p => .taken p.1 p.2, r.2)

/-- The calls that keep the lists, by the state before the call: bundles that are enqueued
    have a message and are not canceled; a canceled message is a message of the writer
    that was started, or that is no request; and a visitor takes no message
    that is being sent as the synchronous one, nor a request that was not sent to its end. -/
def Admissible (w : MessageWriter β F σ) : WriterOp β F → Prop
  | .enqueue _ b _ => Enqueueable b
  | .cancel id => ∀ i, id.index = some i → i < w.vecSize → id.unique = (w.messageVec i).unique →
      (w.messageVec i).isCanceled = true ∨
        ((w.messageVec i).msgbundle.messagePtr.isSome ∧ ¬ Unstarted (w.messageVec i))
  | .cancelOldest => ∀ i, w.orderInnerList.front = some i → ¬ Unstarted (w.messageVec i)
  | .write _ complete _ _ => ∀ n b id, ∀ q ∈ (complete n b id).1, Enqueueable q.1
  | .visit takes => ∀ i < w.vecSize, takes i = true → w.Removable i

theorem admissible_cancel {w : MessageWriter β F σ} {i u : ℕ}
    (hptr : (w.messageVec i).msgbundle.messagePtr.isSome)
    (hser : (w.messageVec i).serializerPtr.isSome) : w.Admissible (.cancel ⟨some i, u⟩) := by
  rintro j hj - -
  obtain rfl : i = j := Option.some.inj hj
  refine .inr ⟨hptr, fun hnot => ?_⟩
  rw [hnot.1] at hser
  cases hser

/-- A run of admissible calls, with all that happened in it. -/
inductive Run (P : Protocol β σ) : List (WriterEvent β F) → MessageWriter β F σ → Prop where
  | start : Run P [] new
  | call {es fs} {w w' : MessageWriter β F σ} (fuel : ℕ) (op : WriterOp β F) : Run P es w →
      w.Admissible op → w.exec P fuel op = some (fs, w') → Run P (es ++ fs) w'

section Exec
variable {P : Protocol β σ} {w w' : MessageWriter β F σ} {W C O : List ℕ}

theorem doCancel_keeps {i : ℕ} (h : w.Inv W C O) (hi : i < w.vecSize)
    (hadm : (w.messageVec i).isCanceled ∨
      ((w.messageVec i).msgbundle.messagePtr.isSome ∧ ¬ Unstarted (w.messageVec i))) :
    Keeps w O (canceledEvents (w.doCancel P i).1) (w.doCancel P i).2 := by
  rcases hadm with hcanceled | ⟨hptr, hstarted⟩
  · unfold doCancel
    rw [if_pos hcanceled]
    exact ⟨W, C, O, h, Balanced.refl _ _⟩
  · have hiO : i ∈ O := (h.owned i).2 ⟨hi, hptr⟩
    obtain ⟨w', hcancel, hvec, -, hcases⟩ := doCancel_spec P h hiO hstarted
    rw [hcancel]
    have hbal : Balanced w O (canceledEvents (some ((w.messageVec i).msgbundle.setCanceled,
        (w.messageVec i).poolMsgId))) w' (O.erase i) := ownedBy_erase h.orderNodup hiO hvec
    rcases hcases with ⟨ser, -, -, hinv, -⟩ | ⟨-, hinv⟩
    · exact ⟨W, C, O.erase i, hinv, hbal⟩
    · exact ⟨W.erase i, i :: C, O.erase i, hinv, hbal⟩

/-- **An admissible call keeps the lists.** -/
theorem exec_keeps {fuel : ℕ} {op : WriterOp β F} {es : List (WriterEvent β F)} (h : w.Inv W C O)
    (hadm : w.Admissible op) (hexec : w.exec P fuel op = some (es, w')) : Keeps w O es w' := by
  cases op with
  | enqueue cfg b poolMsgId =>
    obtain ⟨⟨conn, w1⟩, he, heq⟩ := map_eq_some_iff.1 hexec
    cases heq
    cases conn with
    | none =>
      rcases enqueue_spec h hadm he with heq | ⟨i, C', u, hid, -⟩
      · cases heq
        exact ⟨W, C, O, h, Balanced.refl _ _⟩
      · cases hid
    | some connMsgId =>
      obtain ⟨i, hgrows⟩ := Grows.enqueue h hadm he
      obtain ⟨C', hinv⟩ := hgrows.inv
      exact ⟨_, C', _, hinv, hgrows.balanced⟩
  | cancel id =>
    cases hexec
    unfold cancel
    cases hid : id.index with
    | none => exact ⟨W, C, O, h, Balanced.refl _ _⟩
    | some i =>
      by_cases hmatch : i < w.vecSize ∧ id.unique = (w.messageVec i).unique
      · simp only [if_pos hmatch]
        exact doCancel_keeps h hmatch.1 (hadm i hid hmatch.1 hmatch.2)
      · simp only [if_neg hmatch]
        exact ⟨W, C, O, h, Balanced.refl _ _⟩
  | cancelOldest =>
    obtain ⟨r, hr, heq⟩ := map_eq_some_iff.1 hexec
    cases heq
    unfold cancelOldest at hr
    split_ifs at hr with hsize
    · obtain ⟨i, hfront, rfl⟩ := map_eq_some_iff.1 hr
      have hi : i ∈ O := by
        rw [h.order.front] at hfront
        exact mem_of_head? hfront
      obtain ⟨hlt, hptr⟩ := (h.owned i).1 hi
      exact doCancel_keeps h hlt (.inr ⟨hptr, hadm i hfront⟩)
    · cases hr
      exact ⟨W, C, O, h, Balanced.refl _ _⟩
  | write cfg complete bufsz keepAlive =>
    obtain ⟨st, hwrite, heq⟩ := map_eq_some_iff.1 hexec
    cases heq
    exact write_keeps hadm h hwrite
  | visit takes =>
    obtain ⟨⟨taken, w1⟩, hvisit, heq⟩ := map_eq_some_iff.1 hexec
    cases heq
    exact forEveryMessagesNewerToOlder_spec h (fun i hi => hadm i (h.orderLt hi)) hvisit

theorem inv_new : (new : MessageWriter β F σ).Inv [] [] [] where
  toLists := ⟨InnerList.repr_empty _, InnerList.repr_empty _, InnerList.repr_empty _, by simp⟩
  writeLt i hi := absurd hi not_mem_nil
  cacheLt i hi := absurd hi not_mem_nil
  cached i hi := absurd hi not_mem_nil
  written i hi := absurd hi not_mem_nil
  waiting i hi := absurd hi (Nat.not_lt_zero i)
  owned i := iff_of_false not_mem_nil fun hi => Nat.not_lt_zero i hi.1
  current i hi := by cases hi

theorem Run.keeps {es : List (WriterEvent β F)} (h : Run P es w) : Keeps new [] es w := by
  induction h with
  | start => exact ⟨[], [], [], inv_new, Balanced.refl _ _⟩
  | call fuel op _ hadm hexec ih =>
    obtain ⟨W, C, O, hinv, hbal⟩ := ih
    obtain ⟨W', C', O', hinv', hbal'⟩ := exec_keeps hinv hadm hexec
    exact ⟨W', C', O', hinv', hbal.trans hbal'⟩

end Exec

/-- A request that was sent to its end and waits for its response. -/
def SentRequest (s : MessageStub β F σ) : Prop :=
  s.msgbundle.messagePtr.isSome ∧ s.msgbundle.messageFlags.doneSend = true ∧
    s.msgbundle.messageFlags.waitResponse = true

/-! ## A small protocol -/

/-- A protocol for messages of so many zeros: the serializer is the number of bytes that
    are left. -/
def zeros : Protocol ℕ ℕ where
  createSerializer := 0
  reset := id
  push _ m _ := (m.map Message.body).getD 0
  run _ n room := some ⟨min n room, List.replicate (min n room) 0, n - min n room⟩
  empty n := n == 0
  error _ := none
  clear _ := 0
  minimumFreePacketDataSize := 16

def smallConfig : WriterConfiguration := ⟨4, 4, 2, fun _ => .ok []⟩

def fortyBytes (flags : MessageFlags) : MessageBundle ℕ ℕ :=
  { messagePtr := some { body := 40 }, messageFlags := flags }

end MessageWriter

end SolidFrame
