/-
  SolidFrame formalization — the message reader against an arbitrary peer.

  The tags of a packet lead the reader to a stub of `message_q`.  Nothing in the
  reader checks that there is such a stub: `Leads` says when a tag leads to one.
-/
import SolidFrame.Mpipc.MessageReader

namespace SolidFrame

open PacketHeader

namespace MessageReader
variable {ω δ : Type}

/-! ## Where a tag leads -/

/-- There is a front stub; a stub that holds a message, and every stub behind the front,
    has a deserializer. -/
def Served : List (MessageStub ω δ) → Prop
  | [] => False
  | f :: q => (f.messagePtr.isSome → f.deserializerPtr.isSome) ∧ ∀ s ∈ q, s.deserializerPtr.isSome

/-- The part that follows the tag has a stub to go to: for a switch to an old message
    the front holds a message or another stub is queued, for the continuation of a
    message the front has a deserializer. -/
def Leads : Option PacketType → List (MessageStub ω δ) → Prop
  | some .switchToOldMessage, f :: q => f.messagePtr.isSome ∨ q ≠ []
  | some .switchToOldCanceledMessage, f :: q => f.messagePtr.isSome ∨ q ≠ []
  | some .continuedMessage, f :: _ => f.deserializerPtr.isSome
  | _, _ => True

/-- The behaviour of the deserializer on the data is defined, and it takes some of it or
    reports an error. -/
def Yields (R : ReaderProtocol ω δ) (d : δ) (data : List Byte) : Prop :=
  ∃ rv d', R.run d data = some (rv, d') ∧ (0 < rv ∨ (R.error d').isSome)

section Safety
variable {R : ReaderProtocol ω δ} {cfg : ReaderConfiguration}
variable {q : List (MessageStub ω δ)} {st : ReadState ω δ} {data : List Byte}

theorem isSome_append {f : MessageStub ω δ}
    (hq : ∀ s ∈ q, s.deserializerPtr.isSome) (hf : f.deserializerPtr.isSome) :
    ∀ s ∈ q ++ [f], s.deserializerPtr.isSome := by
  intro s hs
  rcases List.mem_append.1 hs with hs | hs
  · exact hq s hs
  · rw [List.mem_singleton.1 hs]
    exact hf

/-- A switch to an old message that leads somewhere, leads to a stub with a
    deserializer. -/
theorem switchToOld_served (h : Served q)
    (hlead : Leads (some .switchToOldMessage) q) :
    ∃ f q', switchToOld q = .ok (f :: q') ∧ f.deserializerPtr.isSome ∧
      ∀ s ∈ q', s.deserializerPtr.isSome := by
  cases q with
  | nil => exact h.elim
  | cons f q =>
    obtain ⟨hf, hq⟩ := h
    by_cases hmsg : f.messagePtr.isSome
    · have hall := isSome_append hq (hf hmsg)
      rw [switchToOld, if_pos hmsg]
      cases hqf : q ++ [f] with
      | nil => simp at hqf
      | cons g q' =>
        rw [hqf] at hall
        exact ⟨g, q', rfl, hall g List.mem_cons_self, fun s hs =>
          hall s (List.mem_cons_of_mem g hs)⟩
    · rw [switchToOld, if_neg hmsg]
      cases q with
      | nil => exact absurd rfl (hlead.resolve_left hmsg)
      | cons g q' =>
        exact ⟨g, q', rfl, hq g List.mem_cons_self, fun s hs => hq s (List.mem_cons_of_mem g hs)⟩

variable (R cfg) in
/-- What a tag that leads to a stub does: it reports an error, it drops a message, or it
    puts a stub with a deserializer at the front. -/
theorem doSwitch_served {t : Option PacketType} (h : Served q)
    (hlead : Leads t q) :
    (∃ e, doSwitch R cfg t q = .ok (.error e)) ∨
    (∃ q', doSwitch R cfg t q = .ok (.ok (true, q')) ∧ Served q') ∨
    ∃ f q', doSwitch R cfg t q = .ok (.ok (false, f :: q')) ∧ f.deserializerPtr.isSome ∧
      ∀ s ∈ q', s.deserializerPtr.isSome := by
  cases q with
  | nil => exact h.elim
  | cons f q =>
    have ⟨hf, hq⟩ := h
    rcases t with _ | t
    · exact .inl ⟨_, rfl⟩
    cases t with
    | switchToNewMessage =>
      simp only [doSwitch, switchToNew]
      by_cases hmsg : f.messagePtr.isSome
      · rw [if_pos hmsg]
        by_cases hmax : q.length + 1 = cfg.maxMessageCountMultiplex
        · rw [if_pos hmax]
          exact .inl ⟨_, rfl⟩
        · rw [if_neg hmax]
          exact .inr (.inr ⟨_, _, rfl, rfl, isSome_append hq (hf hmsg)⟩)
      · rw [if_neg hmsg]
        exact .inr (.inr ⟨_, _, rfl, rfl, hq⟩)
    | switchToOldMessage =>
      obtain ⟨g, q', heq, hg, hq'⟩ := switchToOld_served h hlead
      exact .inr (.inr ⟨g, q', by rw [doSwitch, heq]; rfl, hg, hq'⟩)
    | continuedMessage => exact .inr (.inr ⟨_, q, rfl, hlead, hq⟩)
    | switchToOldCanceledMessage =>
      obtain ⟨g, q', heq, -, hq'⟩ := switchToOld_served h hlead
      refine .inr (.inl ⟨g.clear :: q', by rw [doSwitch, heq]; rfl, ?_, hq'⟩)
      rintro ⟨⟩
    | continuedCanceledMessage =>
      refine .inr (.inl ⟨f.clear :: q, rfl, ?_, hq⟩)
      rintro ⟨⟩
    | keepAlive => exact .inl ⟨_, rfl⟩

/-! ## A packet -/

/-- The tag leads to a stub, and the deserializer there can do something with the data. -/
def TurnMeets (R : ReaderProtocol ω δ) (cfg : ReaderConfiguration) (t : Byte) (data : List Byte)
    (q : List (MessageStub ω δ)) : Prop :=
  Leads (PacketType.ofByte? t) q ∧ ∀ f q' d,
    doSwitch R cfg (PacketType.ofByte? t) q = .ok (.ok (false, f :: q')) →
    f.deserializerPtr = some d → Yields R d data

/-- Every turn of the loop of `doConsumePacket` meets its condition. -/
inductive Meets (R : ReaderProtocol ω δ) (cfg : ReaderConfiguration) :
    Byte → List Byte → ReadState ω δ → Prop where
  | nil (t : Byte) (st : ReadState ω δ) : Meets R cfg t [] st
  | turn {t data} {st : ReadState ω δ} :
      data ≠ [] →
      TurnMeets R cfg t data st.messageQ →
      (∀ t' data' st', consumeTurn R cfg t data st = .ok (true, t' :: data', st') →
        Meets R cfg t' data' st') →
      Meets R cfg t data st

/-- A deserializer that can do something with the data goes on with the loop, or ends it
    with an error. -/
theorem deserialize_served {f : MessageStub ω δ}
    {d : δ} (hst : st.messageQ = f :: q)
    (hd : f.deserializerPtr = some d) (hq : ∀ s ∈ q, s.deserializerPtr.isSome)
    (hyields : Yields R d data) :
    ∃ go rest st', deserialize R data st = .ok (go, rest, st') ∧ Served st'.messageQ ∧
      (go = false → st'.rerror.isSome) := by
  obtain ⟨rv, d', hrun, hrv⟩ := hyields
  simp only [deserialize, hst, hd, hrun]
  by_cases hpos : 0 < rv
  · rw [if_pos hpos]
    refine ⟨_, _, _, rfl, ?_, by simp⟩
    split_ifs
    · exact ⟨fun h => absurd h (by simp [completedFront]), hq⟩
    · exact ⟨fun _ => rfl, hq⟩
  · rw [if_neg hpos]
    exact ⟨_, _, _, rfl, ⟨fun _ => rfl, hq⟩, fun _ => hrv.resolve_left hpos⟩

/-- **A turn** that meets its condition is defined, and keeps what every queue has. -/
theorem consumeTurn_served {t : Byte}
    (h : Served st.messageQ) (hmeets : TurnMeets R cfg t data st.messageQ) :
    ∃ go rest st', consumeTurn R cfg t data st = .ok (go, rest, st') ∧ Served st'.messageQ ∧
      (go = false → st'.rerror.isSome) := by
  obtain ⟨hlead, hyields⟩ := hmeets
  rcases doSwitch_served R cfg h hlead with
    ⟨e, heq⟩ | ⟨q', heq, hq'⟩ | ⟨f, q', heq, hf, hq'⟩
  · simp only [consumeTurn, heq]
    exact ⟨_, _, _, rfl, h, fun _ => rfl⟩
  · simp only [consumeTurn, heq]
    exact ⟨_, _, _, rfl, hq', by simp⟩
  · obtain ⟨d, hd⟩ := Option.isSome_iff_exists.1 hf
    simp only [consumeTurn, heq]
    exact deserialize_served rfl hd hq' (hyields f q' d heq hd)

/-- **The loop of `doConsumePacket`**, when every turn meets its condition, ends with all
    bytes taken or with an error. -/
theorem consume_served {t : Byte}
    (hmeets : Meets R cfg t data st) (h : Served st.messageQ) :
    ∃ rest st', consume R cfg t data st = .ok (rest, st') ∧ Served st'.messageQ ∧
      (rest = [] ∨ st'.rerror.isSome) := by
  induction hmeets with
  | nil t st => exact ⟨[], st, consume_nil t st, h, .inl rfl⟩
  | @turn t data st hne hturn _ ih =>
    obtain ⟨go, rest, st', heq, hserved, hgo⟩ := consumeTurn_served h hturn
    rw [consume_turn t hne, heq]
    rcases go with _ | _
    · exact ⟨rest, st', rfl, hserved, .inr (hgo rfl)⟩
    · rcases rest with _ | ⟨t', data'⟩
      · exact ⟨[], st', rfl, hserved, .inl rfl⟩
      · exact ih t' data' st' heq hserved

/-- The condition for a packet, on its data as it is decompressed. -/
def PacketMeets (R : ReaderProtocol ω δ) (cfg : ReaderConfiguration) (h : PacketHeader)
    (data : List Byte) (st : ReadState ω δ) : Prop :=
  if h.isCompressed then ∀ data', cfg.decompressFnc data = .ok data' → Meets R cfg h.type data' st
  else Meets R cfg h.type data st

theorem doConsumePacket_served {h : PacketHeader}
    (hmeets : PacketMeets R cfg h data st) (hs : Served st.messageQ) :
    ∃ rest st', doConsumePacket R cfg h data st = .ok (rest, st') ∧ Served st'.messageQ ∧
      (rest = [] ∨ st'.rerror.isSome) := by
  unfold PacketMeets at hmeets
  unfold doConsumePacket
  split_ifs at hmeets ⊢ with hc
  · cases hd : cfg.decompressFnc data with
    | error e => exact ⟨_, _, rfl, hs, .inr rfl⟩
    | ok data' => exact consume_served (hmeets data' hd) hs
  · exact consume_served hmeets hs

/-! ## Whatever is received -/

/-- The queues that packets lead to, whoever has sent them: every call of
    `doConsumePacket` was one whose tags lead to a stub. -/
inductive Reachable (R : ReaderProtocol ω δ) (cfg : ReaderConfiguration) :
    List (MessageStub ω δ) → Prop where
  | prepared : Reachable R cfg (prepared : MessageReader ω δ).messageQ
  | packet {st st' : ReadState ω δ} {h data rest} :
      Reachable R cfg st.messageQ →
      PacketMeets R cfg h data st →
      doConsumePacket R cfg h data st = .ok (rest, st') →
      Reachable R cfg st'.messageQ

theorem Reachable.served (h : Reachable R cfg q) : Served q := by
  induction h with
  | prepared => exact ⟨by rintro ⟨⟩, by simp⟩
  | packet _ hmeets heq ih =>
    obtain ⟨rest, st', heq', hserved, -⟩ := doConsumePacket_served hmeets ih
    rw [heq] at heq'
    cases heq'
    exact hserved

/-- **The reader against an arbitrary peer.**  Wherever packets have led the reader, a
    packet whose tags lead to stubs is taken completely or ends with an error: no call
    takes the front of an empty queue or runs a deserializer that was not created. -/
theorem doConsumePacket_ends {st : ReadState ω δ} (hreach : Reachable R cfg st.messageQ)
    (h : PacketHeader) (data : List Byte) (hmeets : PacketMeets R cfg h data st) :
    ∃ rest st', doConsumePacket R cfg h data st = .ok (rest, st') ∧
      (rest = [] ∨ st'.rerror.isSome) := by
  obtain ⟨rest, st', heq, -, hend⟩ := doConsumePacket_served hmeets hreach.served
  exact ⟨rest, st', heq, hend⟩

/-! ## A call of `read` -/

/-- The packet at the front, if it is taken in a turn of `read`, meets the condition. -/
def FrontMeets (R : ReaderProtocol ω δ) (cfg : ReaderConfiguration) (r : ReadResult ω δ) : Prop :=
  ∀ h, load r.rest = some h → h.size ≤ (r.rest.drop sizeOf).length → h.isOk →
    h.isTypeKeepAlive = false → PacketMeets R cfg h ((r.rest.drop sizeOf).take h.size) r.st

/-- Every turn of the loop of `read` that looks for a header without counting the bytes finds
    a whole one, and its packet meets the condition. -/
inductive ReadMeets (R : ReaderProtocol ω δ) (cfg : ReaderConfiguration) :
    ReadResult ω δ → Prop where
  | nil {r : ReadResult ω δ} : r.rest = [] → ReadMeets R cfg r
  | turn {r : ReadResult ω δ} :
      (r.state = .dataRead → sizeOf ≤ r.rest.length) →
      FrontMeets R cfg r →
      (∀ r', readTurn R cfg r = .ok (true, r') → ReadMeets R cfg r') →
      ReadMeets R cfg r

theorem readTurn_served {r : ReadResult ω δ} (hs : Served r.st.messageQ)
    (hlen : r.state = .dataRead → sizeOf ≤ r.rest.length) (hmeets : FrontMeets R cfg r) :
    ∃ go r', readTurn R cfg r = .ok (go, r') ∧ Served r'.st.messageQ := by
  unfold readTurn
  split_ifs with hshort
  · exact ⟨_, _, rfl, hs⟩
  have hsize : sizeOf ≤ r.rest.length := by
    cases hstate : r.state with
    | headerRead => exact not_lt.1 fun hlt => hshort ⟨hstate, hlt⟩
    | dataRead => exact hlen hstate
  obtain ⟨h, hload⟩ := exists_load hsize
  simp only [hload]
  split_ifs with hpart hok hkeep
  · exact ⟨_, _, rfl, hs⟩
  · exact ⟨_, _, rfl, hs⟩
  · exact ⟨_, _, rfl, hs⟩
  · obtain ⟨rest, st', hpacket, hs', -⟩ := doConsumePacket_served
      (hmeets h hload (not_lt.1 hpart) (by simpa using hok) (by simpa using hkeep)) hs
    simp only [hpacket]
    split_ifs <;> exact ⟨_, _, rfl, hs'⟩

/-- **A call of `read`** whose turns meet their condition returns. -/
theorem readLoop_served {r : ReadResult ω δ} (hmeets : ReadMeets R cfg r)
    (hs : Served r.st.messageQ) (n : ℕ) :
    ∃ r', readLoop R cfg n r = .ok r' ∧ Served r'.st.messageQ := by
  induction hmeets generalizing n with
  | @nil r hnil => cases n <;> exact ⟨r, by simp [readLoop, hnil], hs⟩
  | @turn r hlen hpacket _ ih =>
    cases n with
    | zero => exact ⟨r, rfl, hs⟩
    | succ n =>
      rw [readLoop]
      split_ifs
      · exact ⟨r, rfl, hs⟩
      obtain ⟨go, r', hturn, hs'⟩ := readTurn_served hs hlen hpacket
      rw [hturn]
      cases go with
      | false => exact ⟨r', rfl, hs'⟩
      | true => exact ih r' hturn hs' n

end Safety

/-! ## A small protocol -/

/-- Messages of one byte: a deserializer has one to load, or nothing to do. -/
def oneByte : ReaderProtocol Unit Bool where
  createDeserializer := false
  reset d := d
  push _ := true
  run d _ := some (if d then 1 else 0, false)
  message _ := some ()
  empty d := !d
  error _ := none
  clear d := d
  typeIndex _ := some 0

/-- Up to four messages at a time, and no compression. -/
def fourMessages : ReaderConfiguration where
  maxMessageCountMultiplex := 4
  decompressFnc := .ok

/-- Messages of two bytes: a deserializer counts those it has still to load. -/
def twoBytes : ReaderProtocol Unit ℕ where
  createDeserializer := 0
  reset d := d
  push _ := 2
  run d data := some (min d data.length, d - data.length)
  message _ := some ()
  empty d := d == 0
  error _ := none
  clear d := d
  typeIndex _ := some 0

theorem twoBytes_yields {d : ℕ} (hd : d ≠ 0) (hdata : data ≠ []) : Yields twoBytes d data := by
  refine ⟨_, _, rfl, .inl ?_⟩
  have hlen := List.length_pos_iff.2 hdata
  omega

/-- A byte of a message has come, and after that one of another message. -/
def halfRead : List (MessageStub Unit ℕ) := [⟨some (), some 1, 0⟩, ⟨some (), some 1, 0⟩]

theorem halfRead_reachable : Reachable twoBytes fourMessages halfRead := by
  have hstart : Reachable twoBytes fourMessages (⟨[{}], [], none⟩ : ReadState Unit ℕ).messageQ :=
    .prepared
  have hnew : PacketMeets twoBytes fourMessages (.make .switchToNewMessage false 1) [7]
      ⟨[{}], [], none⟩ := by
    refine .turn (by simp) ⟨trivial, ?_⟩ ?_
    · rintro f q' d ⟨⟩ ⟨⟩
      exact twoBytes_yields (by decide) (by simp)
    · rintro t' data' st' ⟨⟩
  have hother : PacketMeets twoBytes fourMessages (.make .switchToNewMessage false 1) [7]
      ⟨[⟨some (), some 1, 0⟩], [], none⟩ := by
    refine .turn (by simp) ⟨trivial, ?_⟩ ?_
    · rintro f q' d ⟨⟩ ⟨⟩
      exact twoBytes_yields (by decide) (by simp)
    · rintro t' data' st' ⟨⟩
  exact (hstart.packet hnew rfl).packet hother rfl

/-- A packet that ends the older message, drops the other one, and has a third one. -/
theorem doConsumePacket_ends_interleaved :
    ∃ rest st', doConsumePacket twoBytes fourMessages (.make .switchToOldMessage false 5)
      [7, PacketType.switchToOldCanceledMessage.toByte, PacketType.switchToNewMessage.toByte, 8, 9]
      ⟨halfRead, [], none⟩ = .ok (rest, st') ∧ (rest = [] ∨ st'.rerror.isSome) ∧
      st'.events.length = 2 := by
  have hmeets : PacketMeets twoBytes fourMessages (.make .switchToOldMessage false 5)
      [7, PacketType.switchToOldCanceledMessage.toByte, PacketType.switchToNewMessage.toByte, 8, 9]
      ⟨halfRead, [], none⟩ := by
    refine .turn (by simp) ⟨.inl rfl, ?_⟩ ?_
    · rintro f q' d ⟨⟩ ⟨⟩
      exact twoBytes_yields (by decide) (by simp)
    rintro t' data' st' ⟨⟩
    refine .turn (by simp) ⟨.inr (by simp), ?_⟩ ?_
    · rintro f q' d ⟨⟩
    rintro t' data' st' ⟨⟩
    refine .turn (by simp) ⟨trivial, ?_⟩ ?_
    · rintro f q' d ⟨⟩ ⟨⟩
      exact twoBytes_yields (by decide) (by simp)
    · rintro t' data' st' ⟨⟩
  obtain ⟨rest, st', heq, hend⟩ := doConsumePacket_ends halfRead_reachable _ _ hmeets
  refine ⟨rest, st', heq, hend, ?_⟩
  cases heq
  rfl

/-- A switch to an old message right after the start takes the front of an empty
    queue. -/
theorem doConsumePacket_old_first :
    doConsumePacket oneByte fourMessages (.make .switchToOldMessage false 1) [7]
      ⟨(prepared : MessageReader Unit Bool).messageQ, [], none⟩ = .error .emptyQueue := rfl

end MessageReader

end SolidFrame
