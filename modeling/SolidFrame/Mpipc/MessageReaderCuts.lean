/-
  SolidFrame formalization — reading a stream of packets in pieces.

  `MessageReader::read` is called each time bytes arrive; the bytes that a call
  did not consume are presented again in front of the new ones.
-/
import SolidFrame.Mpipc.MessageReaderSafety

namespace SolidFrame

open List Nat PacketHeader

namespace MessageReader
variable {ω δ : Type}

/-! ## Packets -/

/-- A well-formed packet. -/
structure Packet where
  header : PacketHeader
  data : List Byte
  size16_lt : header.size16 < 2 ^ 16
  isOk : header.isOk = true
  size : data.length = header.size
  keepAlive : header.isTypeKeepAlive = true → data = []

variable {input more : List Byte}

namespace Packet

def bytes (p : Packet) : List Byte := p.header.store ++ p.data

theorem bytes_length (p : Packet) : p.bytes.length = sizeOf + p.data.length := by
  rw [bytes, length_append, store_length]

theorem sizeOf_le (p : Packet) : sizeOf ≤ p.bytes.length := by
  rw [bytes_length]
  exact le_add_right _ _

theorem drop_bytes (p : Packet) (more : List Byte) :
    (p.bytes ++ more).drop sizeOf = p.data ++ more := by
  rw [bytes, append_assoc, drop_left' (store_length _)]

theorem load_prefix (p : Packet) {rest : List Byte}
    (h : input ++ more = p.bytes ++ rest) (hlen : sizeOf ≤ input.length) :
    load input = some p.header := by
  have hstore : p.header.store <+: p.bytes ++ rest := by
    rw [bytes, append_assoc]
    exact prefix_append _ _
  have hinput : input <+: p.bytes ++ rest := ⟨more, h⟩
  rw [← store_length p.header] at hlen
  obtain ⟨tail, rfl⟩ := prefix_of_prefix_length_le hstore hinput hlen
  exact load_store p.size16_lt tail

end Packet

def stream (ps : List Packet) : List Byte := ps.flatMap Packet.bytes

@[simp] theorem stream_nil : stream [] = [] := rfl

@[simp] theorem stream_cons (p : Packet) (ps : List Packet) :
    stream (p :: ps) = p.bytes ++ stream ps := rfl

/-! ## A packet at a time -/

section Cuts
variable (R : ReaderProtocol ω δ) (cfg : ReaderConfiguration)

def takePacket (p : Packet) (st : ReadState ω δ) : Except ReaderFault (ReadState ω δ) :=
  if p.header.isTypeKeepAlive then .ok { st with events := st.events ++ [.keepaliveComplete] }
  else (doConsumePacket R cfg p.header p.data st).map Prod.snd

/-- What `read` does with packets, until there is an error: the number of bytes it
    consumes, and the state. -/
def takeAll : List Packet → ReadState ω δ → Except ReaderFault (ℕ × ReadState ω δ)
  | [], st => .ok (0, st)
  | p :: ps, st =>
    match takePacket R cfg p st with
    | .error fault => .error fault
    | .ok st' =>
      if st'.rerror.isSome then .ok (sizeOf, st')
      else (takeAll ps st').map fun r => (p.bytes.length + r.1, r.2)

def stateAfter (p : Packet) : States :=
  if p.header.isTypeKeepAlive then .dataRead else .headerRead

end Cuts

section Turn
variable {R : ReaderProtocol ω δ} {cfg : ReaderConfiguration}

variable {ka : Bool}
variable {st st' : ReadState ω δ} {ps : List Packet} {final : ℕ × ReadState ω δ} {p : Packet}
  {s : States}

theorem readTurn_packet (p : Packet) (more : List Byte) (s : States) (hst : st.rerror = none) :
    readTurn R cfg ⟨p.bytes ++ more, s, st⟩ = (takePacket R cfg p st).map fun st' =>
      if st'.rerror.isSome then (false, ⟨p.data ++ more, .dataRead, st'⟩)
      else (true, ⟨more, stateAfter p, st'⟩) := by
  have hlen : sizeOf ≤ (p.bytes ++ more).length := by
    rw [length_append]
    exact le_trans p.sizeOf_le (le_add_right _ _)
  have hload : load (p.bytes ++ more) = some p.header :=
    p.load_prefix (append_nil _) hlen
  have hsize : ¬ (p.data ++ more).length < p.header.size := by
    rw [length_append, ← p.size]
    omega
  simp only [readTurn, hload, p.drop_bytes]
  rw [if_neg fun h => not_lt.2 hlen h.2, if_neg hsize, if_neg (by simp [p.isOk]),
    takePacket, stateAfter]
  by_cases hka : p.header.isTypeKeepAlive
  · rw [if_pos hka, if_pos hka, if_pos hka, p.keepAlive hka, nil_append]
    simp [Except.map, hst]
  · rw [if_neg hka, if_neg hka, if_neg hka, ← p.size, take_left' rfl, drop_left' rfl]
    cases doConsumePacket R cfg p.header p.data st with
    | error fault => rfl
    | ok r => exact (apply_ite Except.ok _ _ _).symm

/-- A turn of `read` on a part of a packet ends the call; it reads beyond the buffer when
    the state says that a header is there and it is not. -/
theorem readTurn_part (p : Packet) {rest : List Byte} (s : States) (st : ReadState ω δ)
    (h : input ++ more = p.bytes ++ rest) (hlt : input.length < p.bytes.length) :
    readTurn R cfg ⟨input, s, st⟩ = if input.length < PacketHeader.sizeOf then
        if s = .headerRead then .ok (false, ⟨input, s, st⟩) else .error .pastEnd
      else .ok (false, ⟨input, .dataRead, st⟩) := by
  by_cases hshort : input.length < PacketHeader.sizeOf
  · rw [if_pos hshort]
    by_cases hs : s = .headerRead
    · rw [if_pos hs, readTurn, if_pos ⟨hs, hshort⟩]
    · have hload : PacketHeader.load input = none := by
        rcases input with _ | ⟨a, _ | ⟨b, ps⟩⟩
        · rfl
        · rfl
        · simp only [List.length_cons, PacketHeader.sizeOf] at hshort
          rw [PacketHeader.load, if_neg (by omega)]
      simp [readTurn, hload, hs]
  · have hload := p.load_prefix h (not_lt.1 hshort)
    have hsize : (input.drop PacketHeader.sizeOf).length < p.header.size := by
      rw [p.bytes_length, p.size] at hlt
      rw [List.length_drop]
      omega
    simp only [readTurn, hload]
    rw [if_neg fun h => hshort h.2, if_pos hsize, if_neg hshort]

/-! ## A call -/

/-- With `n` bytes from the start of the packets on, `read` never finds one, two or three
    bytes after a keep-alive packet; `afterKeepAlive` says that there was one before. -/
def CutOk (R : ReaderProtocol ω δ) (cfg : ReaderConfiguration) :
    Bool → List Packet → ReadState ω δ → ℕ → Prop
  | _, [], _, _ => True
  | afterKeepAlive, p :: ps, st, n =>
    if n < p.bytes.length then afterKeepAlive → n = 0 ∨ sizeOf ≤ n
    else ∀ st', takePacket R cfg p st = .ok st' → st'.rerror = none →
      CutOk R cfg p.header.isTypeKeepAlive ps st' (n - p.bytes.length)

theorem cutOk_cons_error
    (htake : takePacket R cfg p st = .ok st') (herr : st'.rerror.isSome) (k : ℕ) :
    CutOk R cfg ka (p :: ps) st (p.bytes.length + k) := by
  rw [CutOk, if_neg (by omega), htake]
  rintro _ ⟨⟩ hnone
  rw [hnone] at herr
  cases herr

theorem cutOk_cons_take
    (htake : takePacket R cfg p st = .ok st') (hnone : st'.rerror = none) (k : ℕ) :
    CutOk R cfg ka (p :: ps) st (p.bytes.length + k) ↔
      CutOk R cfg p.header.isTypeKeepAlive ps st' k := by
  rw [CutOk, if_neg (by omega), htake, Nat.add_sub_cancel_left]
  constructor
  · intro h
    exact h st' rfl hnone
  · rintro h _ ⟨⟩ -
    exact h

/-- The state and the bytes that are left between two calls. -/
structure Between (afterKeepAlive : Bool) (s : States) (left : List Byte) : Prop where
  data : afterKeepAlive = true → s = .dataRead
  enough : s = .dataRead → afterKeepAlive = true ∨ sizeOf ≤ left.length

/-- Less than the first packet is left. -/
def Partial (left : List Byte) : List Packet → Prop
  | [] => left = []
  | p :: _ => left.length < p.bytes.length

/-- Where a call ends that has `input` of the packets: with an error, as one call on all
    of them does, or before a packet that is not complete. -/
def CallEnds (R : ReaderProtocol ω δ) (cfg : ReaderConfiguration) (afterKeepAlive : Bool)
    (ps : List Packet) (st : ReadState ω δ) (input more : List Byte)
    (final : ℕ × ReadState ω δ) (r : ReadResult ω δ) : Prop :=
  (r.st = final.2 ∧ r.st.rerror.isSome ∧ input.length = final.1 + r.rest.length ∧
    ∀ k, CutOk R cfg afterKeepAlive ps st (input.length + k)) ∨
  ∃ ps' afterKeepAlive' n, r.st.rerror = none ∧ r.rest ++ more = stream ps' ∧
    Partial r.rest ps' ∧ Between afterKeepAlive' r.state r.rest ∧
    takeAll R cfg ps' r.st = .ok (n, final.2) ∧ final.1 + r.rest.length = input.length + n ∧
    r.rest.length ≤ input.length ∧
    ∀ k, CutOk R cfg afterKeepAlive ps st (input.length + k) ↔
      CutOk R cfg afterKeepAlive' ps' r.st (r.rest.length + k)

theorem readAll_part (hinput : input ++ more = stream (p :: ps))
    (hst : st.rerror = none) (hb : Between ka s input)
    (hfinal : takeAll R cfg (p :: ps) st = .ok final) (hlt : input.length < p.bytes.length) :
    (CutOk R cfg ka (p :: ps) st input.length → ∃ r, readAll R cfg ⟨input, s, st⟩ = .ok r ∧
      CallEnds R cfg ka (p :: ps) st input more final r) ∧
    (¬ CutOk R cfg ka (p :: ps) st input.length →
      readAll R cfg ⟨input, s, st⟩ = .error .pastEnd) := by
  have hstop {s' : States} (hb' : Between ka s' input) :
      CallEnds R cfg ka (p :: ps) st input more final ⟨input, s', st⟩ :=
    .inr ⟨p :: ps, ka, final.1, hst, hinput, hlt, hb', hfinal, add_comm _ _, le_refl _,
      fun _ => Iff.rfl⟩
  rw [CutOk, if_pos hlt]
  by_cases hnil : input = []
  · subst hnil
    refine ⟨fun _ => ⟨_, readAll_nil rfl, hstop hb⟩, fun h => absurd (fun _ => .inl rfl) h⟩
  rw [readAll_turn hnil, readTurn_part p s st hinput hlt]
  by_cases hshort : input.length < sizeOf
  · rw [if_pos hshort]
    by_cases hs : s = .headerRead
    · rw [if_pos hs]
      have hka : ka ≠ true := by
        intro hka
        rw [hb.data hka] at hs
        cases hs
      exact ⟨fun _ => ⟨_, rfl, hstop hb⟩, fun h => absurd (fun hka' => absurd hka' hka) h⟩
    · rw [if_neg hs]
      have hdata : s = .dataRead := by
        cases s with
        | headerRead => exact absurd rfl hs
        | dataRead => rfl
      have hka : ka := (hb.enough hdata).resolve_right (not_le.2 hshort)
      refine ⟨fun h => ?_, fun _ => rfl⟩
      rcases h hka with h | h
      · exact absurd (length_eq_zero_iff.1 h) hnil
      · exact absurd hshort (not_lt.2 h)
  · rw [if_neg hshort]
    have hb' : Between ka .dataRead input := ⟨fun _ => rfl, fun _ => .inr (not_lt.1 hshort)⟩
    exact ⟨fun _ => ⟨_, rfl, hstop hb'⟩, fun h => absurd (fun _ => .inr (not_lt.1 hshort)) h⟩

theorem between_stateAfter (p : Packet) (left : List Byte) :
    Between p.header.isTypeKeepAlive (stateAfter p) left := by
  unfold stateAfter
  refine ⟨fun h => if_pos h, fun h => .inl ?_⟩
  by_contra hka
  rw [if_neg hka] at h
  cases h

/-- **A call of `read`**, when the packets can be taken: it reads beyond the buffer, or it
    ends where one call on all of the packets ends, or before a packet that is not
    complete. -/
theorem readAll_call (hinput : input ++ more = stream ps)
    (hst : st.rerror = none) (hb : Between ka s input)
    (hfinal : takeAll R cfg ps st = .ok final) :
    (CutOk R cfg ka ps st input.length → ∃ r, readAll R cfg ⟨input, s, st⟩ = .ok r ∧
      CallEnds R cfg ka ps st input more final r) ∧
    (¬ CutOk R cfg ka ps st input.length → readAll R cfg ⟨input, s, st⟩ = .error .pastEnd) := by
  induction ps generalizing ka s st input final with
  | nil =>
    obtain ⟨rfl, -⟩ := append_eq_nil_iff.1 hinput
    refine ⟨fun _ => ⟨_, readAll_nil rfl, .inr ⟨[], ka, final.1, hst, hinput, rfl, hb, hfinal, ?_,
      le_refl _, fun _ => Iff.rfl⟩⟩, fun h => absurd trivial h⟩
    exact add_comm _ _
  | cons p ps ih =>
    by_cases hlt : input.length < p.bytes.length
    · exact readAll_part hinput hst hb hfinal hlt
    -- the whole packet is there
    have hle := not_lt.1 hlt
    have hpre : p.bytes <+: input :=
      prefix_of_prefix_length_le ⟨stream ps, rfl⟩ ⟨more, hinput⟩ hle
    obtain ⟨tail, rfl⟩ := hpre
    rw [stream_cons, append_assoc] at hinput
    have htail : tail ++ more = stream ps := append_cancel_left hinput
    have hne : p.bytes ++ tail ≠ [] := by
      intro h
      have := p.sizeOf_le
      rw [(append_eq_nil_iff.1 h).1] at this
      exact absurd this (by decide)
    rw [readAll_turn hne, length_append]
    rw [takeAll] at hfinal
    cases htake : takePacket R cfg p st with
    | error fault => rw [htake] at hfinal; cases hfinal
    | ok st' =>
      rw [htake] at hfinal
      rw [readTurn_packet p tail s hst, htake, Except.map]
      by_cases herr : st'.rerror.isSome
      · simp only [if_pos herr] at hfinal ⊢
        cases hfinal
        refine ⟨fun _ => ⟨_, rfl, .inl ⟨rfl, herr, ?_, fun k => ?_⟩⟩, fun h => ?_⟩
        · simp only [length_append, p.bytes_length]
          omega
        · rw [length_append, add_assoc]
          exact cutOk_cons_error htake herr _
        · exact absurd (cutOk_cons_error htake herr tail.length) h
      · have hnone : st'.rerror = none := by simpa using herr
        simp only [if_neg herr] at hfinal ⊢
        cases hrest : takeAll R cfg ps st' with
        | error fault => rw [hrest] at hfinal; cases hfinal
        | ok final' =>
          rw [hrest] at hfinal
          cases hfinal
          obtain ⟨hok, hbad⟩ := ih htail hnone (between_stateAfter p tail) hrest
          rw [cutOk_cons_take htake hnone]
          refine ⟨fun h => ?_, fun h => hbad h⟩
          obtain ⟨r, hr, hends⟩ := hok h
          refine ⟨r, hr, hends.imp ?_ ?_⟩
          · rintro ⟨hst', herr', hlen, hcut⟩
            refine ⟨hst', herr', ?_, fun k => ?_⟩
            · simp only [length_append, hlen]
              omega
            · rw [length_append, add_assoc, cutOk_cons_take htake hnone]
              exact hcut k
          · rintro ⟨ps', ka', n, hnone', hmore, hpart, hb', htake', hlen, hle', hiff⟩
            refine ⟨ps', ka', n, hnone', hmore, hpart, hb', htake', ?_, ?_, fun k => ?_⟩
            · simp only [length_append]
              omega
            · rw [length_append]
              omega
            · rw [← hiff k, length_append, add_assoc, cutOk_cons_take htake hnone]

/-! ## Calls as the bytes arrive -/

/-- A further call: `r` is how the call before has ended, and `a` are the bytes that have
    arrived since. -/
def readMore (R : ReaderProtocol ω δ) (cfg : ReaderConfiguration) (r : ReadResult ω δ)
    (a : List Byte) : Except ReaderFault (ReadResult ω δ) :=
  readAll R cfg { r with rest := r.rest ++ a }

/-- The calls that are made as bytes arrive, until there is an error: the number of bytes
    that they consume, and how the last one ends. -/
def readCalls (R : ReaderProtocol ω δ) (cfg : ReaderConfiguration) :
    ReadResult ω δ → List (List Byte) → Except ReaderFault (ℕ × ReadResult ω δ)
  | r, [] => .ok (0, r)
  | r, a :: as =>
    if r.st.rerror.isSome then .ok (0, r)
    else
      match readMore R cfg r a with
      | .error fault => .error fault
      | .ok r' =>
        (readCalls R cfg r' as).map fun p => ((r.rest ++ a).length - r'.rest.length + p.1, p.2)

/-- The calls consume, complete and leave what one call does that takes the packets. -/
def Agrees (calls : Except ReaderFault (ℕ × ReadResult ω δ)) (final : ℕ × ReadState ω δ) : Prop :=
  ∃ r, calls = .ok r ∧ r.1 = final.1 ∧ r.2.st = final.2

theorem readCalls_error {r : ReadResult ω δ} (h : r.st.rerror.isSome) (as : List (List Byte)) :
    readCalls R cfg r as = .ok (0, r) := by
  cases as with
  | nil => rfl
  | cons a as => rw [readCalls, if_pos h]

theorem agrees_map {calls : Except ReaderFault (ℕ × ReadResult ω δ)} {n m : ℕ}
    {final : ReadState ω δ} :
    Agrees (calls.map fun p => (m + p.1, p.2)) (m + n, final) ↔ Agrees calls (n, final) := by
  cases calls with
  | error fault =>
    constructor
    · rintro ⟨r, ⟨⟩, -⟩
    · rintro ⟨r, ⟨⟩, -⟩
  | ok r =>
    constructor
    · rintro ⟨_, ⟨⟩, hn, hst⟩
      exact ⟨r, rfl, add_left_cancel hn, hst⟩
    · rintro ⟨_, ⟨⟩, hn, hst⟩
      exact ⟨_, rfl, congrArg (m + ·) hn, hst⟩

theorem readCalls_between {r : ReadResult ω δ}
    {as : List (List Byte)} (hinput : r.rest ++ as.flatten = stream ps)
    (hst : r.st.rerror = none) (hpart : Partial r.rest ps) (hb : Between ka r.state r.rest)
    (hfinal : takeAll R cfg ps r.st = .ok final) :
    Agrees (readCalls R cfg r as) final ↔ ∀ k, 1 ≤ k → k ≤ as.length →
      CutOk R cfg ka ps r.st (r.rest.length + (as.take k).flatten.length) := by
  induction as generalizing r ps ka final with
  | nil =>
    rw [flatten_nil, append_nil] at hinput
    obtain rfl : ps = [] := by
      cases ps with
      | nil => rfl
      | cons p ps =>
        rw [Partial, hinput, stream_cons, length_append] at hpart
        omega
    cases hfinal
    refine iff_of_true ⟨_, rfl, rfl, rfl⟩ fun k h1 h0 => ?_
    exact absurd (le_trans h1 h0) (by simp)
  | cons a as ih =>
    rw [flatten_cons, ← append_assoc] at hinput
    have hb' : Between ka r.state (r.rest ++ a) := by
      refine ⟨hb.data, fun h => (hb.enough h).imp_right fun hle => ?_⟩
      rw [length_append]
      omega
    obtain ⟨hok, hbad⟩ := readAll_call hinput hst hb' hfinal
    rw [readCalls, if_neg (by simp [hst])]
    -- the condition for the first call, and for those after it
    have hsplit : (∀ k, 1 ≤ k → k ≤ (a :: as).length →
        CutOk R cfg ka ps r.st (r.rest.length + ((a :: as).take k).flatten.length)) ↔
        CutOk R cfg ka ps r.st (r.rest ++ a).length ∧ ∀ k, 1 ≤ k → k ≤ as.length →
          CutOk R cfg ka ps r.st ((r.rest ++ a).length + (as.take k).flatten.length) := by
      have hlen : ∀ k, r.rest.length + ((a :: as).take (k + 1)).flatten.length =
          (r.rest ++ a).length + (as.take k).flatten.length := by
        intro k
        simp only [take_succ_cons, flatten_cons, length_append]
        omega
      constructor
      · intro h
        refine ⟨by simpa [hlen 0] using h 1 (le_refl _) (by simp), fun k h1 hk => ?_⟩
        rw [← hlen k]
        exact h (k + 1) (by omega) (by simpa using hk)
      · rintro ⟨h1, h⟩ k hk1 hk
        obtain ⟨k, rfl⟩ := Nat.exists_eq_add_of_le' hk1
        rw [hlen k]
        rcases Nat.eq_zero_or_pos k with rfl | hpos
        · simpa using h1
        · exact h k hpos (by simpa using hk)
    rw [hsplit]
    by_cases hcut : CutOk R cfg ka ps r.st (r.rest ++ a).length
    · rw [and_iff_right hcut]
      obtain ⟨r', hr', hends⟩ := hok hcut
      have hmore : readMore R cfg r a = .ok r' := hr'
      rw [hmore]
      rcases hends with ⟨hst', herr, hlen, hcuts⟩ | ⟨ps', ka', n, hnone, hmore', hpart', hbetween,
        htake, hlen, hle, hiff⟩
      · refine iff_of_true ?_ fun k _ _ => hcuts _
        simp only [readCalls_error herr]
        exact ⟨_, rfl, by simp only; omega, hst'⟩
      · have hcalls := ih hmore' hnone hpart' hbetween htake
        have hfin : final = ((r.rest ++ a).length - r'.rest.length + n, final.2) :=
          Prod.ext (by simp only; omega) rfl
        rw [hfin, agrees_map, hcalls]
        exact forall_congr' fun k => forall_congr' fun _ => forall_congr' fun _ => (hiff _).symm
    · have hmore : readMore R cfg r a = .error .pastEnd := hbad hcut
      rw [hmore]
      refine iff_of_false ?_ fun h => hcut h.1
      rintro ⟨r, ⟨⟩, -⟩

/-! ## One call -/

theorem cutOk_stream
    (hfinal : takeAll R cfg ps st = .ok final) : CutOk R cfg ka ps st (stream ps).length := by
  induction ps generalizing st ka final with
  | nil => trivial
  | cons p ps ih =>
    rw [stream_cons, length_append]
    rw [takeAll] at hfinal
    cases htake : takePacket R cfg p st with
    | error fault => rw [htake] at hfinal; cases hfinal
    | ok st' =>
      by_cases herr : st'.rerror.isSome
      · exact cutOk_cons_error htake herr _
      · have hnone : st'.rerror = none := by simpa using herr
        simp only [htake, if_neg herr] at hfinal
        cases hrest : takeAll R cfg ps st' with
        | error fault => rw [hrest] at hfinal; cases hfinal
        | ok final' =>
          rw [cutOk_cons_take htake hnone]
          exact ih hrest

theorem readAll_stream (hst : st.rerror = none) (hb : Between ka s (stream ps))
    (hfinal : takeAll R cfg ps st = .ok final) :
    ∃ r, readAll R cfg ⟨stream ps, s, st⟩ = .ok r ∧ r.st = final.2 ∧
      (stream ps).length = final.1 + r.rest.length := by
  have hinput : stream ps ++ [] = stream ps := append_nil _
  obtain ⟨r, hr, hends⟩ := (readAll_call hinput hst hb hfinal).1 (cutOk_stream hfinal)
  refine ⟨r, hr, ?_⟩
  rcases hends with ⟨hst', -, hlen, -⟩ | ⟨ps', -, n, -, hmore, hpart, -, htake, hlen, -, -⟩
  · exact ⟨hst', hlen⟩
  · rw [append_nil] at hmore
    cases ps' with
    | nil =>
      obtain ⟨rfl, hst'⟩ := Prod.mk.inj (Except.ok.inj htake)
      exact ⟨hst', hlen.symm⟩
    | cons p ps' =>
      rw [Partial, hmore, stream_cons, length_append] at hpart
      omega

theorem readAll_stream_error
    {fault : ReaderFault} (hst : st.rerror = none) (hfault : takeAll R cfg ps st = .error fault) :
    readAll R cfg ⟨stream ps, s, st⟩ = .error fault := by
  induction ps generalizing s st with
  | nil => cases hfault
  | cons p ps ih =>
    have hne : (⟨stream (p :: ps), s, st⟩ : ReadResult ω δ).rest ≠ [] := by
      intro h
      have := p.sizeOf_le
      rw [(append_eq_nil_iff.1 h).1] at this
      exact absurd this (by decide)
    rw [readAll_turn hne, stream_cons, readTurn_packet p _ s hst]
    rw [takeAll] at hfault
    cases htake : takePacket R cfg p st with
    | error fault' =>
      rw [htake] at hfault
      cases hfault
      rfl
    | ok st' =>
      rw [htake] at hfault
      by_cases herr : st'.rerror.isSome
      · simp only [if_pos herr] at hfault
        cases hfault
      · simp only [if_neg herr] at hfault
        simp only [Except.map, if_neg herr, readNext]
        refine ih (by simpa using herr) ?_
        cases hrest : takeAll R cfg ps st' with
        | error fault' => rw [hrest] at hfault; cases hfault; rfl
        | ok final => rw [hrest] at hfault; cases hfault

/-! ## The cuts -/

def Taken (R : ReaderProtocol ω δ) (cfg : ReaderConfiguration) (ps : List Packet)
    (st : ReadState ω δ) : Prop :=
  ∃ n st', takeAll R cfg ps st = .ok (n, st') ∧ st'.rerror = none

/-- Of the first `n` bytes of the stream, not just one, two or three follow a keep-alive
    packet that is reached. -/
def NoShortTail (R : ReaderProtocol ω δ) (cfg : ReaderConfiguration) (ps : List Packet)
    (st : ReadState ω δ) (n : ℕ) : Prop :=
  ∀ pre p post, ps = pre ++ p :: post → p.header.isTypeKeepAlive = true →
    Taken R cfg (pre ++ [p]) st → n ≤ (stream (pre ++ [p])).length ∨
      (stream (pre ++ [p])).length + sizeOf ≤ n

theorem taken_cons : Taken R cfg (p :: ps) st ↔
      ∃ st', takePacket R cfg p st = .ok st' ∧ st'.rerror = none ∧ Taken R cfg ps st' := by
  unfold Taken
  rw [takeAll]
  cases htake : takePacket R cfg p st with
  | error fault =>
    constructor
    · rintro ⟨n, st', ⟨⟩, -⟩
    · rintro ⟨st', ⟨⟩, -⟩
  | ok st1 =>
    by_cases herr : st1.rerror.isSome
    · simp only [if_pos herr]
      constructor
      · rintro ⟨n, st', ⟨⟩, hnone⟩
        rw [hnone] at herr
        cases herr
      · rintro ⟨st', ⟨⟩, hnone, -⟩
        rw [hnone] at herr
        cases herr
    · simp only [if_neg herr]
      constructor
      · rintro ⟨n, st', h, hnone⟩
        cases hrest : takeAll R cfg ps st1 with
        | error fault => rw [hrest] at h; cases h
        | ok r =>
          rw [hrest] at h
          cases h
          exact ⟨st1, rfl, by simpa using herr, r.1, r.2, hrest, hnone⟩
      · rintro ⟨st', ⟨⟩, -, n, st'', hrest, hnone⟩
        exact ⟨_, st'', by rw [hrest]; rfl, hnone⟩

theorem noShortTail_cons
    (htake : takePacket R cfg p st = .ok st') (hnone : st'.rerror = none) (k : ℕ) :
    NoShortTail R cfg (p :: ps) st (p.bytes.length + k) ↔
      (p.header.isTypeKeepAlive → k = 0 ∨ sizeOf ≤ k) ∧ NoShortTail R cfg ps st' k := by
  constructor
  · intro h
    constructor
    · intro hka
      have htaken : Taken R cfg ([] ++ [p]) st :=
        taken_cons.2 ⟨st', htake, hnone, 0, st', rfl, hnone⟩
      have := h [] p ps rfl hka htaken
      simp only [nil_append, stream_cons, stream_nil, append_nil] at this
      omega
    · intro pre q post hps hka htaken
      have := h (p :: pre) q post (by rw [hps]; rfl) hka (taken_cons.2 ⟨st', htake, hnone, htaken⟩)
      rw [cons_append, stream_cons, length_append] at this
      omega
  · rintro ⟨hfirst, hrest⟩ pre q post hps hka htaken
    cases pre with
    | nil =>
      obtain ⟨rfl, rfl⟩ := List.cons.inj hps
      have := hfirst hka
      simp only [nil_append, stream_cons, stream_nil, append_nil]
      omega
    | cons p' pre =>
      obtain ⟨rfl, hps'⟩ := List.cons.inj hps
      obtain ⟨st'', htake', -, htaken⟩ := taken_cons.1 htaken
      rw [htake] at htake'
      cases htake'
      have := hrest pre q post hps' hka htaken
      rw [cons_append, stream_cons, length_append]
      omega

theorem noShortTail_of_stop
    (hstop : ∀ st', takePacket R cfg p st = .ok st' → st'.rerror ≠ none) (n : ℕ) :
    NoShortTail R cfg (p :: ps) st n := by
  intro pre q post hps _ htaken
  have hfirst : ∃ rest, pre ++ [q] = p :: rest := by
    cases pre with
    | nil => exact ⟨[], by rw [(List.cons.inj hps).1]; rfl⟩
    | cons p' pre => exact ⟨pre ++ [q], by rw [(List.cons.inj hps).1]; rfl⟩
  obtain ⟨rest, hrest⟩ := hfirst
  rw [hrest] at htaken
  obtain ⟨st', htake, hnone, -⟩ := taken_cons.1 htaken
  exact absurd hnone (hstop st' htake)

theorem cutOk_iff {n : ℕ} (hn : n ≤ (stream ps).length) :
    CutOk R cfg ka ps st n ↔ (ka → ps ≠ [] → n = 0 ∨ sizeOf ≤ n) ∧ NoShortTail R cfg ps st n := by
  induction ps generalizing ka st n with
  | nil =>
    refine iff_of_true trivial ⟨fun _ h => absurd rfl h, ?_⟩
    rintro pre p post hps
    simp at hps
  | cons p ps ih =>
    have hsize := p.sizeOf_le
    by_cases hlt : n < p.bytes.length
    · have hshort : NoShortTail R cfg (p :: ps) st n := by
        intro pre q post hps _ _
        refine .inl ?_
        have hpre : p.bytes.length ≤ (stream (pre ++ [q])).length := by
          cases pre with
          | nil =>
            obtain ⟨rfl, -⟩ := List.cons.inj hps
            simp
          | cons p' pre =>
            obtain ⟨rfl, -⟩ := List.cons.inj hps
            simp
        omega
      rw [CutOk, if_pos hlt, and_iff_left hshort]
      exact ⟨fun h hka _ => h hka, fun h hka => h hka (by simp)⟩
    · obtain ⟨k, rfl⟩ := Nat.exists_eq_add_of_le (Nat.not_lt.1 hlt)
      rw [stream_cons, length_append] at hn
      rw [and_iff_right fun _ _ => .inr (by omega)]
      cases htake : takePacket R cfg p st with
      | error fault =>
        refine iff_of_true ?_ (noShortTail_of_stop (by simp [htake]) _)
        rw [CutOk, if_neg hlt, htake]
        rintro st' ⟨⟩
      | ok st' =>
        by_cases herr : st'.rerror.isSome
        · refine iff_of_true (cutOk_cons_error htake herr k) (noShortTail_of_stop ?_ _)
          rw [htake]
          rintro _ ⟨⟩ hnone
          rw [hnone] at herr
          cases herr
        · have hnone : st'.rerror = none := by simpa using herr
          rw [cutOk_cons_take htake hnone, noShortTail_cons htake hnone, ih (by omega)]
          refine and_congr_left fun _ => forall_congr' fun _ => ?_
          constructor
          · intro h
            by_cases hps : ps = []
            · subst hps
              simp only [stream_nil, length_nil] at hn
              exact .inl (by omega)
            · exact h hps
          · exact fun h _ => h

/-- **Reading in pieces.**  For a stream of well-formed packets that one call of `read`
    takes, the calls that are made as its bytes arrive complete and leave the same and
    consume as many bytes, without a read beyond the buffer, exactly when no call has just
    one, two or three bytes after a keep-alive packet. -/
theorem readCalls_iff {r : MessageReader ω δ} (hstate : r.state = .headerRead) {ps : List Packet}
    {whole : ReadResult ω δ} (hwhole : read R cfg (stream ps) r = .ok whole)
    {as : List (List Byte)} (has : as.flatten = stream ps) :
    (∃ n last, readCalls R cfg ⟨[], r.state, ⟨r.messageQ, [], none⟩⟩ as = .ok (n, last) ∧
      last.st = whole.st ∧ n = (stream ps).length - whole.rest.length) ↔
    ∀ k ≤ as.length, NoShortTail R cfg ps ⟨r.messageQ, [], none⟩ (as.take k).flatten.length := by
  have hb : ∀ left, Between false r.state left := by
    intro left
    rw [hstate]
    exact ⟨by rintro ⟨⟩, by rintro ⟨⟩⟩
  cases hfinal : takeAll R cfg ps ⟨r.messageQ, [], none⟩ with
  | error fault =>
    have := readAll_stream_error (s := r.state) rfl hfinal
    rw [readAll, ← read, hwhole] at this
    cases this
  | ok final =>
    obtain ⟨whole', hread, hst, hlen⟩ := readAll_stream rfl (hb _) hfinal
    rw [readAll, ← read, hwhole] at hread
    cases hread
    have hpart : Partial [] ps := by
      cases ps with
      | nil => rfl
      | cons p ps => exact lt_of_lt_of_le (by decide) p.sizeOf_le
    have hinput : (⟨[], r.state, ⟨r.messageQ, [], none⟩⟩ : ReadResult ω δ).rest ++ as.flatten =
        stream ps := has
    have hcalls := readCalls_between hinput rfl hpart (hb _) hfinal
    have hagrees : Agrees (readCalls R cfg ⟨[], r.state, ⟨r.messageQ, [], none⟩⟩ as) final ↔
        ∃ n last, readCalls R cfg ⟨[], r.state, ⟨r.messageQ, [], none⟩⟩ as = .ok (n, last) ∧
          last.st = whole.st ∧ n = (stream ps).length - whole.rest.length := by
      rw [hst, hlen, Nat.add_sub_cancel]
      constructor
      · rintro ⟨⟨n, last⟩, heq, hn, hlast⟩
        exact ⟨n, last, heq, hlast, hn⟩
      · rintro ⟨n, last, heq, hlast, hn⟩
        exact ⟨(n, last), heq, hn, hlast⟩
    have hcut : ∀ k, CutOk R cfg false ps ⟨r.messageQ, [], none⟩ (as.take k).flatten.length ↔
        NoShortTail R cfg ps ⟨r.messageQ, [], none⟩ (as.take k).flatten.length := by
      intro k
      have hle : (as.take k).flatten.length ≤ (stream ps).length := by
        have hsplit := congrArg (fun l => l.flatten.length) (take_append_drop k as)
        simp only [flatten_append, length_append] at hsplit
        rw [← has]
        omega
      rw [cutOk_iff hle, and_iff_right (by simp)]
    rw [← hagrees, hcalls]
    simp only [length_nil, zero_add, hcut]
    constructor
    · intro h k hk
      rcases Nat.eq_zero_or_pos k with rfl | hpos
      · exact fun pre p post _ _ _ => .inl (zero_le _)
      · exact h k hpos hk
    · exact fun h k _ hk => h k hk

end Turn

/-! ## A keep-alive packet and a message -/

theorem Packet.size_make {data : List Byte} (t : PacketType)
    (hlen : data.length ≤ maxPacketDataSize) : data.length = (make t false data.length).size := by
  have hlt : data.length < 2 ^ 17 := by
    simp only [maxPacketDataSize] at hlen
    omega
  exact (make_size t false data.length hlt).symm

/-- The packet that `write` makes of data that it does not compress. -/
def Packet.make (t : PacketType) (data : List Byte) (hlen : data.length ≤ maxPacketDataSize)
    (hka : t = .keepAlive → data = []) : Packet where
  header := .make t false data.length
  data := data
  size16_lt := make_size16_lt t false data.length
  isOk := make_isOk t false data.length hlen
  size := size_make t hlen
  keepAlive := by
    intro h
    refine hka ?_
    rw [isTypeKeepAlive, make_type] at h
    cases t with
    | keepAlive => rfl
    | _ => exact absurd h (by decide)

/-- A keep-alive packet, and a packet with a message of one byte. -/
def keepAliveAndMessage : List Packet :=
  [.make .keepAlive [] (by decide) fun _ => rfl,
    .make .switchToNewMessage [7] (by decide) (by rintro ⟨⟩)]

/-- The two packets in two pieces, cut after the second header. -/
theorem readCalls_after_header :
    ∃ n last, readCalls oneByte fourMessages ⟨[], .headerRead, ⟨[{}], [], none⟩⟩
        [(stream keepAliveAndMessage).take 8, (stream keepAliveAndMessage).drop 8] =
      .ok (n, last) ∧
      last.st.events = [.keepaliveComplete, .messageComplete (some ()) (some 0)] ∧ n = 9 := by
  have hwhole : read oneByte fourMessages (stream keepAliveAndMessage) prepared =
      .ok ⟨[], .headerRead, ⟨[{ deserializerPtr := some false }],
        [.keepaliveComplete, .messageComplete (some ()) (some 0)], none⟩⟩ := rfl
  have has : [(stream keepAliveAndMessage).take 8, (stream keepAliveAndMessage).drop 8].flatten =
      stream keepAliveAndMessage := rfl
  obtain ⟨n, last, heq, hst, hn⟩ := (readCalls_iff rfl hwhole has).2 (by
    intro k hk pre p post hps hka _
    have hpre : pre = [] ∧ p = .make .keepAlive [] (by decide) fun _ => rfl := by
      rcases pre with _ | ⟨p', _ | ⟨p'', pre⟩⟩
      · exact ⟨rfl, (List.cons.inj hps).1.symm⟩
      · have := (List.cons.inj (List.cons.inj hps).2).1
        rw [← this] at hka
        exact absurd hka (by decide)
      · have := congrArg List.length hps
        simp [keepAliveAndMessage] at this
    obtain ⟨rfl, rfl⟩ := hpre
    change k ≤ 2 at hk
    rcases (by omega : k = 0 ∨ k = 1 ∨ k = 2) with rfl | rfl | rfl
    · exact .inl (by decide)
    · exact .inr (by decide)
    · exact .inr (by decide))
  exact ⟨n, last, heq, by rw [hst], hn⟩

/-- The two packets in two pieces, cut after the first byte of the second header: the
    first call reads beyond its buffer. -/
theorem readCalls_short_tail :
    (∃ whole, read oneByte fourMessages (stream keepAliveAndMessage) prepared = .ok whole ∧
      whole.rest = []) ∧
    readCalls oneByte fourMessages ⟨[], .headerRead, ⟨[{}], [], none⟩⟩
      [(stream keepAliveAndMessage).take 5, (stream keepAliveAndMessage).drop 5] =
        .error .pastEnd :=
  ⟨⟨_, rfl, rfl⟩, rfl⟩

end MessageReader

end SolidFrame
