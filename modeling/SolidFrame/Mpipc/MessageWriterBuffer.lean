/-
  SolidFrame formalization — what a packet takes of its buffer
  (`MessageWriter::write` and `doFillPacket` in
  `solid/frame/mpipc/src/mpipcmessagewriter.cpp`).

  `freesz` is to be the room between `pbufpos` and `_pbufend`.  The byte that switches to
  another message of the packet is not subtracted from it.
-/
import SolidFrame.Mpipc.MessageWriterCalls

namespace SolidFrame

open Option PacketHeader

namespace MessageWriter
variable {β F σ : Type}
variable {cap n : ℕ}

section Locals
variable {P : Protocol β σ} {cfg : WriterConfiguration} {complete : CompleteFunction β F}
  {st st' : FillState β F σ} {turn : FillTurn β F σ} {W C : List ℕ}

/-- What a turn adds to the packet: a switch byte, and the bytes that are subtracted from
    `freesz`. -/
theorem turn_locals (hP : P.Bounded) (hw : st.writer.Sending W C)
    (ht : fillTurn P cfg complete cap st = some turn) (hstate : turn.state? = some st') :
    (¬ Switches P st ∧ st'.out.length = st.out.length ∧ st'.freesz = st.freesz) ∨
    Switches P st ∧ ∃ k i, k ≤ cap - (switched P i st).out.length ∧
      st'.out.length = (switched P i st).out.length + k ∧ st'.freesz = st.freesz - k := by
  cases TurnShape.of_eq hw ht with
  | done hnot =>
    cases hstate
    exact .inl ⟨fun hswitch => hnot hswitch.1, rfl, rfl⟩
  | rotate _ hfront hwait =>
    cases hstate
    exact .inl ⟨fun hswitch => hswitch.2 _ hfront hwait, rfl, rfl⟩
  | @drop i hswitch =>
    cases hstate
    exact .inr ⟨hswitch, 0, i, Nat.zero_le _, rfl, rfl⟩
  | fail => cases hstate
  | @serialize i r st₁ hcalls hrun hr hsettles =>
    rw [endTurn_state?] at hstate
    cases hstate
    obtain ⟨hlength, hle⟩ := runResult_le hP hrun hr
    obtain ⟨hout, hfreesz, -⟩ := hsettles
    refine .inr ⟨hcalls.switch, r.out.length, i, hle, ?_, ?_⟩
    · rw [hout, ran, List.length_append]
    · have hnat : r.retval.toNat = r.out.length := by omega
      rw [hfreesz, ran, hnat]
      rfl

/-- **After a turn `freesz` is the room that is left** iff the turn has not stored a byte that
    switches to another message. -/
theorem room_iff (hP : P.Bounded) (hw : st.writer.Sending W C) (h : st.out.length + st.freesz = cap)
    (ht : fillTurn P cfg complete cap st = some turn) (hstate : turn.state? = some st') :
    st'.out.length + st'.freesz = cap ↔ (Switches P st → st.packetMessageCount = 0) := by
  rcases turn_locals hP hw ht hstate with
    ⟨hnot, hout, hfreesz⟩ | ⟨hswitch, k, i, hle, hout, hfreesz⟩
  · exact iff_of_true (by omega) fun hswitch => absurd hswitch hnot
  · have hlength := switched_out_length P i st
    by_cases hcount : st.packetMessageCount = 0
    · rw [if_pos hcount] at hlength
      exact iff_of_true (by omega) fun _ => hcount
    · rw [if_neg hcount] at hlength
      exact iff_of_false (by omega) fun hzero => hcount (hzero hswitch)

theorem Safe.out_le (hP : P.Bounded) (hw : st.writer.Sending W C) (hsafe : Safe P cap st)
    (h : st.out.length ≤ cap) (ht : fillTurn P cfg complete cap st = some turn)
    (hstate : turn.state? = some st') : st'.out.length ≤ cap := by
  rcases turn_locals hP hw ht hstate with ⟨-, hout, -⟩ | ⟨hswitch, k, i, hle, hout, -⟩
  · omega
  · have hlength := switched_out_length P i st
    have hroom := hsafe.switch hswitch
    split_ifs at hlength <;> omega

theorem FillTurns.out_le (hP : P.Bounded) (hfill : Filling cap st W C)
    (hsafe : ∀ n st', FillTurns P cfg complete cap n st st' → Safe P cap st')
    (h : st.out.length ≤ cap) (hturns : FillTurns P cfg complete cap n st st') :
    st'.out.length ≤ cap := by
  induction hturns generalizing W C with
  | refl => exact h
  | next ht _ ih =>
    obtain ⟨W', C', hfill', -⟩ := hfill.turn hP ht rfl
    exact ih hfill' (fun n st' hst' => hsafe (n + 1) st' (.next ht hst'))
      ((hsafe 0 _ (.refl _)).out_le hP hfill.toSending h ht rfl)

/-! ## A packet -/

/-- An iteration of the loop stays in its buffer. -/
structure Within (P : Protocol β σ) (cfg : WriterConfiguration) (complete : CompleteFunction β F)
    (cap : ℕ) (st : FillState β F σ) : Prop where
  /-- `freesz` is the room that is left -/
  freesz : st.out.length + st.freesz = cap
  /-- a switch byte is stored before the end -/
  switch : Switches P st → st.packetMessageCount = 0 ∨ st.out.length < cap
  /-- `run` is called with a positive length -/
  run : Switches P st → ∀ i, st.writer.writeInnerList.front = some i →
    0 < cap - (switched P i st).out.length
  /-- what is written ends at the end of the buffer at most -/
  out : ∀ turn st', fillTurn P cfg complete cap st = some turn → turn.state? = some st' →
    st'.out.length ≤ cap

theorem within_of_room (hP : P.Bounded) (hmin : 0 < P.minimumFreePacketDataSize)
    (hw : st.writer.Sending W C) (h : st.out.length + st.freesz = cap)
    (hsingle : Switches P st → st.packetMessageCount = 0) : Within P cfg complete cap st := by
  refine ⟨h, fun hswitch => .inl (hsingle hswitch), fun hswitch i _ => ?_,
    fun turn st' ht hstate => ?_⟩
  · have hlength := switched_out_length P i st
    rw [if_pos (hsingle hswitch)] at hlength
    have hfree := hswitch.1.2
    omega
  · have hroom := (room_iff hP hw h ht hstate).2 hsingle
    omega

/-- **A packet with one message stays in its buffer**, in all its iterations. -/
theorem packet_within (hP : P.Bounded) (hmin : 0 < P.minimumFreePacketDataSize)
    (hfill : Filling cap st W C) (h : st.out.length + st.freesz = cap)
    (hsingle : ∀ n st', FillTurns P cfg complete cap n st st' →
      Switches P st' → st'.packetMessageCount = 0)
    (hturns : FillTurns P cfg complete cap n st st') : Within P cfg complete cap st' := by
  induction hturns generalizing W C with
  | refl st => exact within_of_room hP hmin hfill.toSending h (hsingle 0 st (.refl st))
  | next ht _ ih =>
    obtain ⟨W', C', hfill', -⟩ := hfill.turn hP ht rfl
    refine ih hfill' ?_ fun n st' hturns => hsingle (n + 1) st' (.next ht hturns)
    exact (room_iff hP hfill.toSending h ht rfl).2 (hsingle 0 _ (.refl _))

end Locals

/-! ## A call of `write` -/

section Write
variable {P : Protocol β σ} {cfg : WriterConfiguration} {complete : CompleteFunction β F}
  {fuel bufsz : ℕ} {st st' : WriteState β F σ}

theorem packet_length_le {t : PacketType} {data compressed : List Byte}
    (h : compressed.length ≤ data.length) :
    (packet t data compressed).length ≤ sizeOf + data.length := by
  unfold packet
  split_ifs
  · simp
  · simpa using h

theorem doFillPacket_out_le {W C : List ℕ} {fs : FillState β F σ} (hP : P.Bounded)
    (hw : st.writer.Sending W C)
    (hsafe : ∀ n fs, FillTurns P cfg complete cap n (fillStart cap st) fs → Safe P cap fs)
    (hfill : doFillPacket P cfg complete fuel cap st = some (.done fs)) : fs.out.length ≤ cap := by
  obtain ⟨n, fs₀, hturns, hlast⟩ := fillLoop_done hfill
  obtain ⟨W₀, C₀, h₀⟩ := hturns.filling hP (filling_start hw)
  have hle := hturns.out_le hP (filling_start hw) hsafe (Nat.zero_le _)
  exact (hsafe n fs₀ hturns).out_le hP h₀.toSending hle hlast rfl

section Bytes
variable (hP : P.Bounded)
  (hcompress : ∀ data compressed, cfg.inplaceCompressFnc data = .ok compressed →
    compressed.length ≤ data.length)
include hP hcompress

theorem writeTurn_out_le {W C : List ℕ} (hw : st.writer.Sending W C) (h : st.out.length ≤ bufsz)
    (hmore : MorePackets P bufsz st)
    (hsafe : ∀ n fs, FillTurns P cfg complete (packetRoom bufsz st) n
      (fillStart (packetRoom bufsz st) st) fs → Safe P (packetRoom bufsz st) fs)
    (ht : writeTurn P cfg complete fuel bufsz st = some st') : st'.out.length ≤ bufsz := by
  unfold writeTurn at ht
  obtain ⟨turn, hfill, ht⟩ := bind_eq_some_iff.1 ht
  cases turn with
  | next | failed => cases ht
  | done fs =>
    have hle : fs.out.length ≤ packetRoom bufsz st := doFillPacket_out_le hP hw hsafe hfill
    dsimp only at ht
    split_ifs at ht
    · cases ht
      exact h
    · cases hcomp : cfg.inplaceCompressFnc fs.out with
      | error e =>
        rw [hcomp] at ht
        cases ht
        exact h
      | ok compressed =>
        rw [hcomp] at ht
        cases ht
        have hpacket := packet_length_le (t := fs.packetType) (hcompress _ _ hcomp)
        have hroom := hmore.1
        unfold packetRoom at hle
        rw [List.length_append]
        omega

theorem WriteTurns.out_le {W C : List ℕ} (hturns : WriteTurns P cfg complete bufsz st st')
    (hw : st.writer.Sending W C) (h : st.out.length ≤ bufsz)
    (hsafe : ∀ st', WriteTurns P cfg complete bufsz st st' → MorePackets P bufsz st' →
      ∀ n fs, FillTurns P cfg complete (packetRoom bufsz st') n
        (fillStart (packetRoom bufsz st') st') fs → Safe P (packetRoom bufsz st') fs) :
    st'.out.length ≤ bufsz := by
  induction hturns generalizing W C with
  | refl => exact h
  | next hmore ht _ ih =>
    obtain ⟨W', C', hw'⟩ := writeTurn_sending hP hw ht
    refine ih hw' (writeTurn_out_le hP hcompress hw h hmore (hsafe _ (.refl _) hmore) ht) ?_
    exact fun st' hst' => hsafe st' (.next hmore ht hst')

end Bytes

end Write

/-- **With one message in each packet a call of `write` stays in its buffer**, on every writer
    whose lists are in order: when no call of `run` fails, in every iteration of
    `doFillPacket` `freesz` is the room that is left, no switch byte and no output is placed
    past the end, and `run` is called with a positive length; and `write` returns, with at most
    the size of the buffer. -/
theorem write_within (P : Protocol β σ) (hP : P.Bounded) (hmin : 0 < P.minimumFreePacketDataSize)
    (cfg : WriterConfiguration)
    (hcompress : ∀ data compressed, cfg.inplaceCompressFnc data = .ok compressed →
      compressed.length ≤ data.length)
    (complete : CompleteFunction β F) (bufsz : ℕ) (keepAlive : Bool) (w : MessageWriter β F σ)
    (hw : ∃ W C, w.Sending W C) (hkeep : keepAlive = true → sizeOf ≤ bufsz)
    (hsingle : ∀ cap fs, Iteration P cfg complete bufsz w cap fs →
      Switches P fs → fs.packetMessageCount = 0)
    (hruns : ∀ cap fs i, Iteration P cfg complete bufsz w cap fs → Calls P fs i →
      ∃ r, runResult P cap i fs = some r ∧ 0 < r.retval) :
    (∀ cap fs, Iteration P cfg complete bufsz w cap fs → Within P cfg complete cap fs) ∧
    ∃ N st, st.out.length ≤ bufsz ∧
      ∀ fuel, N < fuel → write P cfg complete fuel bufsz keepAlive w = some st := by
  obtain ⟨W, C, hw⟩ := hw
  have hsafe : ∀ cap fs, Iteration P cfg complete bufsz w cap fs → Safe P cap fs :=
    fun cap fs hit => ⟨fun hswitch => .inl (hsingle cap fs hit hswitch), fun i =>
    hruns cap fs i hit⟩
  constructor
  · rintro cap fs ⟨st, n, hst, hmore, rfl, hturns⟩
    obtain ⟨W', C', hst'⟩ := hst.sending hP hw
    refine packet_within hP hmin (filling_start hst') (by simp [fillStart]) (fun n fs hturns => ?_)
      hturns
    exact hsingle _ fs ⟨st, n, hst, hmore, rfl, hturns⟩
  · obtain ⟨N, st, st', hturns, hwrite, hout⟩ := write_returns hP hw hkeep hsafe
    refine ⟨N, st', ?_, hwrite⟩
    rcases hout with rfl | ⟨hsize, hfits⟩
    · exact hturns.out_le hP hcompress hw (Nat.zero_le _)
        fun st hst hmore n fs hturns => hsafe _ fs ⟨st, n, hst, hmore, rfl, hturns⟩
    · omega

def twoWriter : MessageWriter ℕ ℕ ℕ :=
  ((new.enqueue smallConfig (fortyBytes {}) {}).bind fun r =>
    r.2.enqueue smallConfig (fortyBytes {}) {}).elim new Prod.snd

theorem twoWriter_run : ∃ es, Run zeros es twoWriter :=
  ⟨_, (Run.start.call 0 (.enqueue smallConfig (fortyBytes {}) {}) ⟨rfl, rfl⟩ rfl).call 0
    (.enqueue smallConfig (fortyBytes {}) {}) ⟨rfl, rfl⟩ rfl⟩

theorem twoWriter_sending : ∃ W C, twoWriter.Sending W C := by
  obtain ⟨es, hrun⟩ := twoWriter_run
  obtain ⟨W, C, O, hinv, -⟩ := hrun.keeps
  exact ⟨W, C, hinv.sending⟩

/-- Two messages of 40 bytes, and a buffer of 24 bytes. -/
theorem write_within_two : (∀ cap fs, Iteration zeros smallConfig silent 24 twoWriter cap fs →
      Within zeros smallConfig silent cap fs) ∧
    ∃ N st, st.out.length ≤ 24 ∧
      ∀ fuel, N < fuel → write zeros smallConfig silent fuel 24 true twoWriter = some st := by
  have hlisted : ∀ p ∈ callIterations zeros smallConfig silent 4 24 4 (writeStart twoWriter),
      Safe zeros p.1 p.2 ∧ (Switches zeros p.2 → p.2.packetMessageCount = 0) := by decide +kernel
  have hloop : ∃ st, writeLoop zeros smallConfig silent 4 24 4 (writeStart twoWriter) = some st :=
    ⟨_, rfl⟩
  obtain ⟨st, hloop⟩ := hloop
  exact write_within zeros zeros_bounded (by decide) smallConfig
    (fun data compressed h => by cases h; exact Nat.zero_le _) silent 24 true twoWriter
    twoWriter_sending (fun _ => by decide) (fun cap fs hit => (hlisted _ (hit.listed hloop)).2)
    fun cap fs i hit => (hlisted _ (hit.listed hloop)).1.run i

/-- The locals after `n` turns that all go on. -/
def fillTurnsFrom (P : Protocol β σ) (cfg : WriterConfiguration) (complete : CompleteFunction β F)
    (cap : ℕ) : ℕ → FillState β F σ → Option (FillState β F σ)
  | 0, st => some st
  | n + 1, st =>
    match fillTurn P cfg complete cap st with
    | some (.next st₁) => fillTurnsFrom P cfg complete cap n st₁
    | _ => none

theorem fillTurns_of_from {P : Protocol β σ} {cfg : WriterConfiguration}
    {complete : CompleteFunction β F} {st st' : FillState β F σ}
    (h : fillTurnsFrom P cfg complete cap n st = some st') :
    FillTurns P cfg complete cap n st st' := by
  induction n generalizing st with
  | zero =>
    cases h
    exact .refl _
  | succ n ih =>
    rw [fillTurnsFrom] at h
    split at h
    · rename_i st₁ ht
      exact .next ht (ih h)
    · cases h

def oneByte : MessageBundle ℕ ℕ := { messagePtr := some { body := 1 } }

def oneByteWriter : MessageWriter ℕ ℕ ℕ :=
  (new.enqueue smallConfig oneByte {}).elim new Prod.snd

def another : CompleteFunction ℕ ℕ := fun _ _ _ => ([(oneByte, {})], none)

/-- **The switch bytes are not counted**: with messages of one byte, `freesz` allows for
    another message when the switch byte to it takes the last byte of the packet, and `run`
    is called with no room at all. -/
theorem write_within_switch_bytes :
    ∃ fs, Iteration zeros smallConfig another 36 oneByteWriter 32 fs ∧
      fs.out.length + fs.freesz = 47 ∧ Switches zeros fs ∧
      fs.writer.writeInnerList.front = some 0 ∧ (switched zeros 0 fs).out.length = 32 := by
  have hcheck : (fillTurnsFrom zeros smallConfig another 32 16
      (fillStart 32 (writeStart oneByteWriter))).any (fun fs =>
        decide (fs.out.length = 31 ∧ fs.freesz = 16 ∧ fs.packetMessageCount = 16 ∧
          fs.writer.writeInnerList.size = 1 ∧ fs.writer.writeInnerList.front = some 0 ∧
          (fs.writer.messageVec 0).msgbundle.messageFlags.synchronous = false)) := by
    decide +kernel
  obtain ⟨fs, hfs, hcheck⟩ := (any_eq_true _ _).1 hcheck
  obtain ⟨hout, hfreesz, hcount, hsize, hfront, hasync⟩ := of_decide_eq_true hcheck
  refine ⟨fs, ⟨_, 16, .refl _, ⟨by decide, rfl⟩, rfl, fillTurns_of_from hfs⟩, by omega, ?_,
    hfront, ?_⟩
  · refine ⟨⟨by omega, by rw [hfreesz]; decide⟩, ?_⟩
    rintro i hi ⟨hsync, -⟩
    obtain rfl : 0 = i := some.inj (hfront.symm.trans hi)
    rw [hasync] at hsync
    cases hsync
  · rw [switched_out_length, hout, hcount]
    rfl

end MessageWriter

end SolidFrame
