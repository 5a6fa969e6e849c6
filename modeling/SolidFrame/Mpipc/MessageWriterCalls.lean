/-
  SolidFrame formalization — calls of the message writer that return
  (`solid/frame/mpipc/src/mpipcmessagewriter.cpp`).

  A call of `write` returns when no call of `Serializer::run` fails and the bytes that switch
  to a message are stored in the buffer.  Along runs of such calls every message of the writer
  is in one of its lists, and leaves it once.
-/
import SolidFrame.Mpipc.MessageWriterFill

namespace SolidFrame

open List Option PacketHeader

namespace MessageWriter
variable {β F σ : Type}

/-! ## A call of `write` -/

/-- The next turn stores the byte that switches to a message before the end of the buffer, and
    the `run` it makes succeeds. -/
structure Safe (P : Protocol β σ) (cap : ℕ) (st : FillState β F σ) : Prop where
  switch : Switches P st → st.packetMessageCount = 0 ∨ st.out.length < cap
  run : ∀ i, Calls P st i → ∃ r, runResult P cap i st = some r ∧ 0 < r.retval

abbrev MorePackets (P : Protocol β σ) (bufsz : ℕ) (st : WriteState β F σ) : Prop :=
  sizeOf + P.minimumFreePacketDataSize ≤ bufsz - st.out.length ∧ st.more = true

def packetRoom (bufsz : ℕ) (st : WriteState β F σ) : ℕ :=
  bufsz - st.out.length - sizeOf

inductive WriteTurns (P : Protocol β σ) (cfg : WriterConfiguration)
    (complete : CompleteFunction β F) (bufsz : ℕ) :
    WriteState β F σ → WriteState β F σ → Prop where
  | refl (st : WriteState β F σ) : WriteTurns P cfg complete bufsz st st
  | next {fuel : ℕ} {st st₁ st' : WriteState β F σ} :
      MorePackets P bufsz st →
      writeTurn P cfg complete fuel bufsz st = some st₁ →
      WriteTurns P cfg complete bufsz st₁ st' →
      WriteTurns P cfg complete bufsz st st'

/-- An iteration of `doFillPacket` in a call of `write` on the writer `w`. -/
def Iteration (P : Protocol β σ) (cfg : WriterConfiguration) (complete : CompleteFunction β F)
    (bufsz : ℕ) (w : MessageWriter β F σ) (cap : ℕ) (fs : FillState β F σ) : Prop :=
  ∃ st n, WriteTurns P cfg complete bufsz (writeStart w) st ∧ MorePackets P bufsz st ∧
    cap = packetRoom bufsz st ∧ FillTurns P cfg complete cap n (fillStart cap st) fs

section Write
variable {P : Protocol β σ} {cfg : WriterConfiguration} {complete : CompleteFunction β F}
  {cap fuel bufsz n : ℕ} {st st' : WriteState β F σ} {W C : List ℕ}

theorem WriteTurns.trans {st'' : WriteState β F σ} (h : WriteTurns P cfg complete bufsz st st')
    (h' : WriteTurns P cfg complete bufsz st' st'') : WriteTurns P cfg complete bufsz st st'' := by
  induction h with
  | refl => exact h'
  | next hmore ht _ ih => exact .next hmore ht (ih h')

/-- A packet that is filled ends, with a turn that does not go on. -/
theorem fillLoop_done {fs fs' : FillState β F σ}
    (hloop : fillLoop P cfg complete cap fuel fs = some (.done fs')) :
    ∃ n fs₀, FillTurns P cfg complete cap n fs fs₀ ∧
      fillTurn P cfg complete cap fs₀ = some (.done fs') := by
  induction fuel generalizing fs with
  | zero => cases hloop
  | succ fuel ih =>
    rw [fillLoop] at hloop
    obtain ⟨turn, hturn, hloop⟩ := bind_eq_some_iff.1 hloop
    cases turn with
    | next fs₁ =>
      obtain ⟨n, fs₀, hturns, hlast⟩ := ih hloop
      exact ⟨n + 1, fs₀, .next hturn hturns, hlast⟩
    | done fs₁ =>
      cases hloop
      exact ⟨0, fs, .refl fs, hturn⟩
    | failed fs₁ => cases hloop

/-- **A packet is filled** when all its turns are safe. -/
theorem doFillPacket_returns (hP : P.Bounded) (h : st.writer.Sending W C)
    (hsafe : ∀ n fs, FillTurns P cfg complete cap n (fillStart cap st) fs → Safe P cap fs) :
    ∃ N fs, (∃ W' C', fs.writer.Sending W' C') ∧
      ∀ fuel, N < fuel → doFillPacket P cfg complete fuel cap st = some (.done fs) := by
  obtain ⟨n, fs₀, hturns, hlast, hloop, W₀, C₀, h₀⟩ := doFillPacket_ends hP h cfg complete cap
  have hrun := (hsafe n fs₀ hturns).run
  rcases fillTurn_shape (P := P) h₀.toSending cfg complete cap with
    ⟨turn, ht, hshape⟩ | ⟨-, i, hcalls, hnone⟩
  · cases turn with
    | next fs => exact absurd ht (hlast fs)
    | done fs =>
      obtain ⟨W', C', h', -⟩ := h₀.turn hP ht rfl
      exact ⟨n, fs, ⟨W', C', h'.toSending⟩, fun fuel hfuel => (hloop fuel hfuel).trans ht⟩
    | failed fs =>
      obtain ⟨i, r, hcalls, hr, hle⟩ := hshape.failed
      obtain ⟨r', hr', hpos⟩ := hrun i hcalls
      obtain rfl := Option.some.inj (hr.symm.trans hr')
      exact absurd hpos (not_lt.2 hle)
  · obtain ⟨r, hr, -⟩ := hrun i hcalls
    rw [hnone] at hr
    cases hr

theorem writeTurn_returns (hP : P.Bounded) (h : st.writer.Sending W C)
    (hsafe : ∀ n fs, FillTurns P cfg complete (packetRoom bufsz st) n
      (fillStart (packetRoom bufsz st) st) fs → Safe P (packetRoom bufsz st) fs) :
    ∃ N st₁, (∃ W' C', st₁.writer.Sending W' C') ∧
      (∀ fuel, N < fuel → writeTurn P cfg complete fuel bufsz st = some st₁) ∧
      (st₁.more = false ∨ st.out.length + sizeOf ≤ st₁.out.length) := by
  obtain ⟨N, fs, hsending, hfill⟩ := doFillPacket_returns hP h hsafe
  unfold packetRoom at hfill
  by_cases hout : fs.out = []
  · refine ⟨N, ⟨fs.writer, st.out, false, fs.rerror, fs.events⟩, hsending, fun fuel hfuel => ?_,
      .inl rfl⟩
    simp only [writeTurn, hfill fuel hfuel, bind_eq_bind, bind_some, if_pos hout]
    rfl
  cases hcompress : cfg.inplaceCompressFnc fs.out with
  | error e =>
    refine ⟨N, ⟨fs.writer, st.out, false, some e, fs.events⟩, hsending, fun fuel hfuel => ?_,
      .inl rfl⟩
    simp only [writeTurn, hfill fuel hfuel, bind_eq_bind, bind_some, if_neg hout, hcompress]
    rfl
  | ok compressed =>
    refine ⟨N, ⟨fs.writer, st.out ++ packet fs.packetType fs.out compressed, st.more, fs.rerror,
      fs.events⟩, hsending, fun fuel hfuel => ?_, .inr ?_⟩
    · simp only [writeTurn, hfill fuel hfuel, bind_eq_bind, bind_some, if_neg hout, hcompress]
      rfl
    · simp only [List.length_append]
      unfold packet
      split_ifs <;> simp

/-- **The loop of `write` returns** when all its turns are safe: a packet that is followed by
    another takes a header. -/
theorem writeLoop_returns (hP : P.Bounded) (h : st.writer.Sending W C)
    (hsafe : ∀ st', WriteTurns P cfg complete bufsz st st' → MorePackets P bufsz st' →
      ∀ n fs, FillTurns P cfg complete (packetRoom bufsz st') n
        (fillStart (packetRoom bufsz st') st') fs → Safe P (packetRoom bufsz st') fs) :
    ∃ N st', WriteTurns P cfg complete bufsz st st' ∧
      ∀ fuel n, N < fuel → N < n → writeLoop P cfg complete fuel bufsz n st = some st' := by
  induction hm : (if st.more then bufsz - st.out.length + 1 else 0) using Nat.strongRecOn
    generalizing st W C with
  | ind m ih =>
    by_cases hmore : MorePackets P bufsz st
    · obtain ⟨N₁, st₁, ⟨W', C', h'⟩, hturn, hless⟩ :=
        writeTurn_returns hP h (hsafe st (.refl st) hmore)
      have hlt : (if st₁.more then bufsz - st₁.out.length + 1 else 0) < m := by
        obtain ⟨hroom, hm'⟩ := hmore
        rw [hm', if_pos rfl] at hm
        have hsize : 0 < sizeOf := by decide
        rcases hless with hless | hless
        · rw [hless, if_neg Bool.false_ne_true]
          omega
        · split_ifs <;> omega
      have hfirst : writeTurn P cfg complete (N₁ + 1) bufsz st = some st₁ := hturn _ (by omega)
      obtain ⟨N, st', hturns, hloop⟩ := ih _ hlt h'
        (fun st' hst' => hsafe st' (.next hmore hfirst hst')) rfl
      refine ⟨max N₁ (N + 1), st', .next hmore hfirst hturns, fun fuel n hfuel hn => ?_⟩
      obtain ⟨n, rfl⟩ := Nat.exists_eq_succ_of_ne_zero (by omega : n ≠ 0)
      rw [writeLoop, if_pos hmore, hturn fuel (by omega)]
      exact hloop fuel n (by omega) (by omega)
    · refine ⟨0, st, .refl st, fun fuel n _ hn => ?_⟩
      obtain ⟨n, rfl⟩ := Nat.exists_eq_succ_of_ne_zero (by omega : n ≠ 0)
      rw [writeLoop, if_neg hmore]

/-- **A call of `write` returns** when its turns are safe, and there is room for the header of
    a keep-alive packet. -/
theorem write_returns {w : MessageWriter β F σ} {keepAlive : Bool} (hP : P.Bounded)
    (h : w.Sending W C) (hkeep : keepAlive = true → sizeOf ≤ bufsz)
    (hsafe : ∀ cap fs, Iteration P cfg complete bufsz w cap fs → Safe P cap fs) :
    ∃ N st st', WriteTurns P cfg complete bufsz (writeStart w) st ∧
      (∀ fuel, N < fuel → write P cfg complete fuel bufsz keepAlive w = some st') ∧
      (st' = st ∨ st'.out.length = sizeOf ∧ sizeOf ≤ bufsz) := by
  have hstart : (writeStart w).writer.Sending W C := h
  obtain ⟨N, st, hturns, hloop⟩ := writeLoop_returns hP hstart
    fun st hst hmore n fs hturns => hsafe _ fs ⟨st, n, hst, hmore, rfl, hturns⟩
  by_cases hidle : st.rerror.isNone ∧ st.out = [] ∧ keepAlive
  · have hfits := hkeep hidle.2.2
    refine ⟨N, st, { st with out := (make .keepAlive false 0).store }, hturns, fun fuel hfuel => ?_,
      .inr ⟨rfl, hfits⟩⟩
    have hloop := hloop fuel fuel hfuel hfuel
    unfold writeStart at hloop
    simp only [write, hloop, bind_eq_bind, bind_some, if_pos hidle, if_pos hfits]
    rfl
  · refine ⟨N, st, st, hturns, fun fuel hfuel => ?_, .inl rfl⟩
    have hloop := hloop fuel fuel hfuel hfuel
    unfold writeStart at hloop
    simp only [write, hloop, bind_eq_bind, bind_some, if_neg hidle]
    rfl

theorem writeTurn_sending (hP : P.Bounded) (h : st.writer.Sending W C)
    (ht : writeTurn P cfg complete fuel bufsz st = some st') :
    ∃ W' C', st'.writer.Sending W' C' := by
  obtain ⟨fs, hloop, hwriter, -⟩ := writeTurn_fill ht
  obtain ⟨n, fs₀, hturns, hlast⟩ := fillLoop_done hloop
  obtain ⟨W₀, C₀, h₀⟩ := hturns.filling hP (filling_start h)
  obtain ⟨W', C', h', -⟩ := h₀.turn hP hlast rfl
  rw [hwriter]
  exact ⟨W', C', h'.toSending⟩

theorem WriteTurns.sending (hturns : WriteTurns P cfg complete bufsz st st') (hP : P.Bounded)
    (h : st.writer.Sending W C) : ∃ W' C', st'.writer.Sending W' C' := by
  induction hturns generalizing W C with
  | refl => exact ⟨W, C, h⟩
  | next _ ht _ ih =>
    obtain ⟨W', C', h'⟩ := writeTurn_sending hP h ht
    exact ih h'

end Write

/-! ## The iterations of a call, listed -/

section Listed
variable (P : Protocol β σ) (cfg : WriterConfiguration) (complete : CompleteFunction β F)

def packetIterations (cap : ℕ) : ℕ → FillState β F σ → List (FillState β F σ)
  | 0, _ => []
  | fuel + 1, st => st :: match fillTurn P cfg complete cap st with
    | some (.next st') => packetIterations cap fuel st'
    | _ => []

/-- The iterations of `doFillPacket` in the loop of `write`, for at most `n` packets of at most
    `fuel` turns, each with the room of its packet. -/
def callIterations (fuel bufsz : ℕ) : ℕ → WriteState β F σ → List (ℕ × FillState β F σ)
  | 0, _ => []
  | n + 1, st =>
    if MorePackets P bufsz st then
      (packetIterations P cfg complete (packetRoom bufsz st) fuel
        (fillStart (packetRoom bufsz st) st)).map (packetRoom bufsz st, ·) ++
      (match writeTurn P cfg complete fuel bufsz st with
        | some st' => callIterations fuel bufsz n st'
        | none => [])
    else []

variable {P cfg complete} {fuel bufsz n m : ℕ} {st st' : WriteState β F σ}

theorem mem_packetIterations {cap : ℕ} {fs fs' : FillState β F σ} {turn : FillTurn β F σ}
    (hloop : fillLoop P cfg complete cap fuel fs = some turn)
    (hturns : FillTurns P cfg complete cap n fs fs') :
    fs' ∈ packetIterations P cfg complete cap fuel fs := by
  induction hturns generalizing fuel with
  | refl =>
    cases fuel with
    | zero => cases hloop
    | succ fuel => exact mem_cons_self
  | next ht _ ih =>
    cases fuel with
    | zero => cases hloop
    | succ fuel =>
      rw [fillLoop, ht] at hloop
      rw [packetIterations, ht]
      exact mem_cons_of_mem _ (ih hloop)

theorem fillLoop_mono {cap fuel' : ℕ} {fs : FillState β F σ} {turn : FillTurn β F σ}
    (hloop : fillLoop P cfg complete cap fuel fs = some turn) (hle : fuel ≤ fuel') :
    fillLoop P cfg complete cap fuel' fs = some turn := by
  induction fuel generalizing fuel' fs with
  | zero => cases hloop
  | succ fuel ih =>
    obtain ⟨fuel', rfl⟩ := Nat.exists_eq_add_of_le' (Nat.le_trans (Nat.succ_pos fuel) hle)
    rw [fillLoop] at hloop ⊢
    obtain ⟨turn₁, hturn, hloop⟩ := bind_eq_some_iff.1 hloop
    rw [hturn, bind_eq_bind, bind_some]
    cases turn₁ with
    | next fs₁ => exact ih hloop (by omega)
    | done => exact hloop
    | failed => exact hloop

theorem writeTurn_mono {fuel' : ℕ} (ht : writeTurn P cfg complete fuel bufsz st = some st')
    (hle : fuel ≤ fuel') : writeTurn P cfg complete fuel' bufsz st = some st' := by
  unfold writeTurn at ht ⊢
  obtain ⟨turn, hfill, ht⟩ := bind_eq_some_iff.1 ht
  have hfill' : doFillPacket P cfg complete fuel' _ st = some turn := fillLoop_mono hfill hle
  rw [hfill', bind_eq_bind, bind_some]
  exact ht

/-- The loop of `write` returns as it does from a later state. -/
theorem WriteTurns.writeLoop {st₁ : WriteState β F σ}
    (hturns : WriteTurns P cfg complete bufsz st st₁)
    (h : ∃ N, ∀ fuel n, N < fuel → N < n →
      MessageWriter.writeLoop P cfg complete fuel bufsz n st₁ = some st') :
    ∃ N, ∀ fuel n, N < fuel → N < n →
      MessageWriter.writeLoop P cfg complete fuel bufsz n st = some st' := by
  induction hturns with
  | refl => exact h
  | @next fuel₁ _ _ _ hmore ht _ ih =>
    obtain ⟨N, hN⟩ := ih h
    refine ⟨max fuel₁ (N + 1), fun fuel n hfuel hn => ?_⟩
    obtain ⟨n, rfl⟩ := Nat.exists_eq_succ_of_ne_zero (by omega : n ≠ 0)
    rw [MessageWriter.writeLoop, if_pos hmore, writeTurn_mono ht (by omega : fuel₁ ≤ fuel)]
    exact hN fuel n (by omega) (by omega)

/-- When the loop returns, every iteration is listed. -/
theorem mem_callIterations {st₁ : WriteState β F σ} {fs : FillState β F σ}
    (hloop : writeLoop P cfg complete fuel bufsz m st = some st')
    (hst : WriteTurns P cfg complete bufsz st st₁) (hmore : MorePackets P bufsz st₁)
    (hturns : FillTurns P cfg complete (packetRoom bufsz st₁) n
      (fillStart (packetRoom bufsz st₁) st₁) fs) :
    (packetRoom bufsz st₁, fs) ∈ callIterations P cfg complete fuel bufsz m st := by
  induction m generalizing st with
  | zero => cases hloop
  | succ m ih =>
    have hmore' : MorePackets P bufsz st := by
      cases hst with
      | refl => exact hmore
      | next hmore' => exact hmore'
    rw [writeLoop, if_pos hmore'] at hloop
    obtain ⟨st₂, hturn, hloop⟩ := bind_eq_some_iff.1 hloop
    rw [callIterations, if_pos hmore', hturn]
    cases hst with
    | refl =>
      obtain ⟨fs', hfill, -⟩ := writeTurn_fill hturn
      exact mem_append_left _ (mem_map_of_mem (mem_packetIterations hfill hturns))
    | @next fuel' _ st₃ _ _ ht hst =>
      have hboth := (writeTurn_mono ht (Nat.le_max_left fuel' fuel)).symm.trans
        (writeTurn_mono hturn (Nat.le_max_right fuel' fuel))
      obtain rfl : st₃ = st₂ := Option.some.inj hboth
      exact mem_append_right _ (ih hloop hst)

theorem Iteration.listed {w : MessageWriter β F σ} {cap : ℕ} {fs : FillState β F σ}
    (hit : Iteration P cfg complete bufsz w cap fs)
    (hloop : writeLoop P cfg complete fuel bufsz m (writeStart w) = some st') :
    (cap, fs) ∈ callIterations P cfg complete fuel bufsz m (writeStart w) := by
  obtain ⟨st, n, hst, hmore, rfl, hturns⟩ := hit
  exact mem_callIterations hloop hst hmore hturns

end Listed

/-! ## The lists -/

/-- Every stub is in exactly one of the write list, the cache list and the requests that
    wait for a response; the order list has the stubs that own a message; and the
    synchronous message that is being sent is in the write list. -/
def Partitioned (w : MessageWriter β F σ) : Prop :=
  ∃ W C O, w.writeInnerList.Repr w.statusLinks W ∧ w.cacheInnerList.Repr w.statusLinks C ∧
    w.orderInnerList.Repr w.orderLinks O ∧
    (∀ i, i ∈ W ∨ i ∈ C ∨ i ∈ O → i < w.vecSize) ∧
    (∀ i < w.vecSize, (i ∈ W ∧ i ∉ C ∧ ¬ SentRequest (w.messageVec i)) ∨
      (i ∉ W ∧ i ∈ C ∧ ¬ SentRequest (w.messageVec i)) ∨
      (i ∉ W ∧ i ∉ C ∧ SentRequest (w.messageVec i))) ∧
    (∀ i < w.vecSize, i ∈ O ↔ (w.messageVec i).msgbundle.messagePtr.isSome) ∧
    (∀ i, w.currentSynchronousMessageIdx = some i → i ∈ W)

/-- The bundles that were enqueued are those that left, each as often as it was enqueued,
    and those of the order list. -/
def Conserved (w : MessageWriter β F σ) (events : List (WriterEvent β F)) : Prop :=
  ∃ O, w.orderInnerList.Repr w.orderLinks O ∧ (entered events).Perm (left events ++ w.ownedBy O)

theorem Inv.partitioned {w : MessageWriter β F σ} {W C O : List ℕ} (h : w.Inv W C O) :
    w.Partitioned := by
  refine ⟨W, C, O, h.write, h.cache, h.order, ?_, fun i hi => ?_, fun i hi => ?_,
    fun i hi => (h.current i hi).1⟩
  · rintro i (hW | hC | hO)
    · exact h.writeLt i hW
    · exact h.cacheLt i hC
    · exact h.orderLt hO
  · by_cases hW : i ∈ W
    · refine .inl ⟨hW, h.disjoint hW, ?_⟩
      rintro ⟨hptr, hdone, -⟩
      rcases h.written i hW with hlive | hdropped
      · rw [hlive.doneSend] at hdone
        cases hdone
      · rw [hdropped.messagePtr] at hptr
        cases hptr
    · by_cases hC : i ∈ C
      · refine .inr (.inl ⟨hW, hC, ?_⟩)
        rintro ⟨hptr, -⟩
        rw [(h.cached i hC).msgbundle] at hptr
        cases hptr
      · have hwait := h.waiting i hi hW hC
        exact .inr (.inr ⟨hW, hC, hwait.messagePtr, hwait.doneSend, hwait.waitResponse⟩)
  · rw [h.owned i]
    exact and_iff_right hi

/-- What a call of `write` needs to return: in each iteration the byte that switches to a
    message is stored in the buffer and no call of `run` fails, and the header of a keep-alive
    packet fits. -/
def Returns (P : Protocol β σ) (w : MessageWriter β F σ) : WriterOp β F → Prop
  | .write cfg complete bufsz keepAlive =>
      (∀ cap fs, Iteration P cfg complete bufsz w cap fs → Safe P cap fs) ∧
        (keepAlive = true → sizeOf ≤ bufsz)
  | _ => True

/-- A run of admissible calls that return. -/
inductive SafeRun (P : Protocol β σ) : List (WriterEvent β F) → MessageWriter β F σ → Prop where
  | start : SafeRun P [] new
  | call {es fs : List (WriterEvent β F)} {w w' : MessageWriter β F σ} (fuel : ℕ)
      (op : WriterOp β F) :
      SafeRun P es w →
      w.Admissible op →
      w.Returns P op →
      w.exec P fuel op = some (fs, w') →
      SafeRun P (es ++ fs) w'

section Runs
variable {P : Protocol β σ} {es : List (WriterEvent β F)} {w : MessageWriter β F σ}
  {W C O : List ℕ}

theorem SafeRun.run (h : SafeRun P es w) : Run P es w := by
  induction h with
  | start => exact .start
  | call fuel op _ hadm _ hexec ih => exact ih.call fuel op hadm hexec

/-- **An admissible call returns.** -/
theorem exec_returns (hP : P.Bounded) (h : w.Inv W C O) {op : WriterOp β F} (hadm : w.Admissible op)
    (hreturns : w.Returns P op) : ∃ fuel, (w.exec P fuel op).isSome := by
  cases op with
  | enqueue cfg b poolMsgId =>
    obtain ⟨conn, w', N, C', henqueue, -⟩ := h.sending.enqueue cfg b poolMsgId
    exact ⟨0, by rw [exec, henqueue]; rfl⟩
  | cancel id => exact ⟨0, rfl⟩
  | cancelOldest =>
    unfold exec cancelOldest
    split_ifs with hsize
    · cases O with
      | nil => exact absurd h.order.size hsize
      | cons i O =>
        have hfront : w.orderInnerList.front = some i := h.order.front
        rw [hfront]
        exact ⟨0, rfl⟩
    · exact ⟨0, rfl⟩
  | write cfg complete bufsz keepAlive =>
    obtain ⟨N, -, st, -, hwrite, -⟩ := write_returns hP h.sending hreturns.2 hreturns.1
    exact ⟨N + 1, by rw [exec, hwrite (N + 1) (by omega)]; rfl⟩
  | visit takes =>
    have hinv : w.Inv W C ([] ++ O) := h
    have hsome := visitFrom_returns hinv fun i hi (htake : takes i) => hadm i (h.orderLt hi) htake
    rw [← h.order.front] at hsome
    exact ⟨O.length, by rwa [exec, forEveryMessagesNewerToOlder, isSome_map]⟩

/-- **The lists partition the stubs in every state that is reached, and every bundle leaves
    the writer once**; and the calls that are made return. -/
theorem writer_lists (hP : P.Bounded) (h : SafeRun P es w) : w.Partitioned ∧ w.Conserved es ∧
    ∀ op, w.Admissible op → w.Returns P op → ∃ fuel, (w.exec P fuel op).isSome := by
  obtain ⟨W, C, O, hinv, hbal⟩ := h.run.keeps
  refine ⟨hinv.partitioned, ⟨O, hinv.order, ?_⟩, fun op => exec_returns hP hinv⟩
  unfold Balanced at hbal
  rwa [show (new : MessageWriter β F σ).ownedBy [] = [] from rfl, append_nil] at hbal

end Runs

instance (P : Protocol β σ) (st : FillState β F σ) : Decidable (Switches P st) :=
  inferInstanceAs (Decidable (GoesOn P st ∧ ∀ i ∈ st.writer.writeInnerList.front, ¬ HasToWait st i))

theorem safe_iff {P : Protocol β σ} {cap : ℕ} {st : FillState β F σ} : Safe P cap st ↔
    (Switches P st → (st.packetMessageCount = 0 ∨ st.out.length < cap) ∧
      ∀ i ∈ st.writer.writeInnerList.front, (st.writer.messageVec i).isCanceled = false →
        ∃ r ∈ runResult P cap i st, 0 < r.retval) := by
  constructor
  · exact fun h hswitch => ⟨h.switch hswitch, fun i hi hcanceled =>
      h.run i ⟨hswitch, hi, hcanceled⟩⟩
  · exact fun h => ⟨fun hswitch => (h hswitch).1, fun i hi =>
      (h hi.switch).2 i hi.front hi.canceled⟩

instance (P : Protocol β σ) (cap : ℕ) (st : FillState β F σ) : Decidable (Safe P cap st) :=
  decidable_of_iff' _ safe_iff

theorem returns_of_listed {P : Protocol β σ} {cfg : WriterConfiguration}
    {complete : CompleteFunction β F} {bufsz : ℕ} {keepAlive : Bool} {w : MessageWriter β F σ}
    (fuel : ℕ) (hloop : (writeLoop P cfg complete fuel bufsz fuel (writeStart w)).isSome)
    (hsafe : ∀ p ∈ callIterations P cfg complete fuel bufsz fuel (writeStart w), Safe P p.1 p.2)
    (hkeep : keepAlive = true → sizeOf ≤ bufsz) :
    w.Returns P (.write cfg complete bufsz keepAlive) := by
  obtain ⟨st, hst⟩ := isSome_iff_exists.1 hloop
  exact ⟨fun cap fs hit => hsafe (cap, fs) (hit.listed hst), hkeep⟩

/-- A request and a message are enqueued and written in pieces; the message, half of which is
    written, is canceled, and what is left of both is written. -/
theorem writer_lists_cancel_started :
    ∃ es, ∃ w : MessageWriter ℕ ℕ ℕ, SafeRun zeros es w ∧ (entered es).length = 2 ∧
      left es = [entryOf (fortyBytes {}) {}] ∧ w.writeInnerList.size = 0 ∧
      w.Partitioned ∧ w.Conserved es := by
  have henqueue := (SafeRun.start (P := zeros).call 0
    (.enqueue oneByOne (fortyBytes { waitResponse := true }) {}) ⟨rfl, rfl⟩ trivial rfl).call 0
      (.enqueue oneByOne (fortyBytes {}) {}) ⟨rfl, rfl⟩ trivial rfl
  have hadm : ∀ (w : MessageWriter ℕ ℕ ℕ) n, w.Admissible (.write oneByOne silent n false) :=
    fun _ _ _ _ _ _ hq => absurd hq not_mem_nil
  have hwrite := (henqueue.call 4 (.write oneByOne silent 24 false) (hadm _ _)
    (returns_of_listed 4 rfl (by decide +kernel) nofun) rfl).call 4
      (.write oneByOne silent 24 false) (hadm _ _)
        (returns_of_listed 4 rfl (by decide +kernel) nofun) rfl
  have hcancel := (hwrite.call 0 (.cancel ⟨some 1, 0⟩)
    (admissible_cancel rfl rfl) trivial rfl).call 4 (.write oneByOne silent 60 false) (hadm _ _)
      (returns_of_listed 4 rfl (by decide +kernel) nofun) rfl
  obtain ⟨hlists, hconserved, -⟩ := writer_lists zeros_bounded hcancel
  exact ⟨_, _, hcancel, rfl, rfl, rfl, hlists, hconserved⟩

/-- A request is enqueued, and canceled before a part of it is written: its stub is in the
    write list and in the cache list. -/
theorem cancel_unstarted_request : ∃ w w' : MessageWriter ℕ ℕ ℕ,
      new.exec zeros 0 (.enqueue smallConfig (fortyBytes { waitResponse := true }) {}) =
        some ([.enqueued (fortyBytes { waitResponse := true }) {} ⟨some 0, 0⟩], w) ∧
      w.exec zeros 0 (.cancel ⟨some 0, 0⟩) =
        some ([.canceled (fortyBytes { waitResponse := true, canceled := true }) {}], w') ∧
      ¬ w'.Partitioned := by
  refine ⟨_, _, rfl, rfl, ?_⟩
  rintro ⟨W, C, O, hwrite, hcache, -, -, hone, -⟩
  have hW : W.reverse = [0] := hwrite.forEach.symm.trans rfl
  have hC : C.reverse = [0] := hcache.forEach.symm.trans rfl
  have hWmem : 0 ∈ W := mem_reverse.1 (hW ▸ mem_singleton_self 0)
  have hCmem : 0 ∈ C := mem_reverse.1 (hC ▸ mem_singleton_self 0)
  rcases hone 0 Nat.one_pos with ⟨-, hnot, -⟩ | ⟨hnot, -⟩ | ⟨hnot, -⟩
  · exact hnot hCmem
  · exact hnot hWmem
  · exact hnot hWmem

end MessageWriter

end SolidFrame
