/-
  SolidFrame formalization — serialization round trip.

  Both ends are run call by call: `SerializerBase.Calls` on buffers of given
  lengths, `DeserializerBase.Consumes` on pieces that each call takes completely.
-/
import SolidFrame.Serialization.LoadTargets

namespace SolidFrame

open DeserializerBase List SerializerBase

/-! ## Successive calls of `run` -/

/-- Successive calls of `run` on buffers of the lengths `bls` store the pieces. -/
inductive SerializerBase.Calls :
    SerializerBase → List ℕ → List (List Byte) → SerializerBase → Prop where
  | nil (s : SerializerBase) : Calls s [] [] s
  | cons {s s₁ s' : SerializerBase} {bl p bls ps} :
      s.Runs bl p s₁ →
      Calls s₁ bls ps s' →
      Calls s (bl :: bls) (p :: ps) s'

/-- Successive calls of `run` on the pieces take every one of them completely. -/
inductive DeserializerBase.Consumes (tm : TypeMap) :
    DeserializerBase → List (List Byte) → DeserializerBase → Prop where
  | nil (d : DeserializerBase) : Consumes tm d [] d
  | cons {d d₁ d' : DeserializerBase} {p : List Byte} {ps} :
      d.Runs tm p p.length d₁ →
      Consumes tm d₁ ps d' →
      Consumes tm d (p :: ps) d'

/-- A serializer that was asked to store an object. -/
def SerializerBase.storing (t : Ty) (o : Obj) : SerializerBase :=
  (new .unlimited).push t o

def SerializerBase.storingWith (L : Limits) (t : Ty) (o : Obj) : SerializerBase :=
  (new L).push t o

/-- A deserializer that was asked to load into a default-initialised object. -/
def DeserializerBase.loading (t : Ty) : DeserializerBase :=
  (new .unlimited [dflt t]).push t ⟨.user 0, []⟩

def DeserializerBase.loadingWith (L : Limits) (t : Ty) : DeserializerBase :=
  (new L [dflt t]).push t ⟨.user 0, []⟩

/-- The target of `loading` holds the object. -/
def Rebuilt (t : Ty) (o : Obj) (m : Mem) : Prop := ∃ v, m = ⟨[v], []⟩ ∧ norm t v = norm t o

variable {t : Ty} {o : Obj} {tm : TypeMap} {Q : Goal} {pl' : List Wire}

theorem storeWithin_unlimited (hfit : Fits t o) : StoreWithin .unlimited t o := by
  have hle : ∀ (w : Width) {n : ℕ}, n ≤ maxValueWithoutCrc w → n ≤ invalidSize := fun w n hn =>
    Nat.le_trans hn (maxValueWithoutCrc_lt_invalidSize w).le
  induction t generalizing o with
  | str => cases o with
    | str c => exact hle .w64 hfit
    | _ => trivial
  | utf8 => cases o with
    | str c => exact hle .w32 hfit
    | _ => trivial
  | bitset v => cases o with
    | bits bs => exact hle .w64 hfit
    | _ => trivial
  | bitvec => cases o with
    | bits bs => exact hle .w64 hfit
    | _ => trivial
  | container b size t ih => cases o with
    | seq os => exact ⟨hle .w64 hfit.1, fun o ho => ih (hfit.2 o ho)⟩
    | _ => trivial
  | array b cap t ih => cases o with
    | arr os n => exact ⟨hle .w64 hfit.1, fun o ho => ih (hfit.2 o ho)⟩
    | _ => trivial
  | pair t u iht ihu => cases o with
    | pair a b => exact ⟨iht hfit.1, ihu hfit.2⟩
    | _ => trivial
  | struct mv t ih => exact ih hfit
  | _ => cases o <;> trivial

theorem sending_storingWith {K : Quota} (h : Storable K t o)
    (hmet : StoreWithin K.lmts t o → K.met) :
    ∃ n, Sending K n (.storingWith K.lmts t o) (wire t o) := by
  have hc : SClean K (new K.lmts) := ⟨rfl, rfl, rfl, rfl⟩
  have hsend := hc.sending_push h fun hin => .nil (hmet hin)
  rw [append_nil] at hsend
  exact ⟨_, hsend⟩

theorem sending_storing (ht : HasTy t o) (hfit : Fits t o) :
    ∃ n, Sending .unlimited n (.storing t o) (wire t o) := by
  have hst : Storable .unlimited t o :=
    ⟨ht, hfit, fun _ => storeWithin_unlimited hfit, .inr rfl⟩
  exact sending_storingWith hst fun _ => trivial

theorem loadable_unlimited (hfit : Fits t o) (hbuf : InBuffer t) : Loadable .unlimited t o := by
  have h64 : ∀ {n : ℕ}, n ≤ maxValueWithoutCrc .w64 → n < invalidSize := lt_invalidSize
  induction t generalizing o with
  | str => cases o with
    | str c => exact h64 hfit
    | _ => trivial
  | utf8 => cases o with
    | str c =>
      have := maxValueWithoutCrc_lt_invalidSize .w32
      exact Nat.le_trans hfit this.le
    | _ => trivial
  | bitset v => cases o with
    | bits bs => exact h64 hfit
    | _ => trivial
  | bitvec => cases o with
    | bits bs => exact h64 hfit
    | _ => trivial
  | container b size t ih => cases o with
    | seq os =>
      exact ⟨(h64 hfit.1).le, fun _ => hbuf.1, fun o ho => ih (hfit.2 o ho) hbuf.2.2⟩
    | _ => trivial
  | array b cap t ih => cases o with
    | arr os n => exact ⟨(h64 hfit.1).le, fun o ho => ih (hfit.2 o ho) hbuf⟩
    | _ => trivial
  | pair t u iht ihu => cases o with
    | pair a b => exact ⟨iht hfit.1 hbuf.1, ihu hfit.2 hbuf.2⟩
    | _ => trivial
  | struct mv t ih => exact ih hfit hbuf
  | _ => cases o <;> trivial

/-- A deserializer that was asked to load receives what is sent for the object, when it
    can be loaded. -/
theorem receives_loadingWith (ht : HasTy t o)
    (hfit : Fits t o) (hmet : Q.met ↔ Loadable Q.lmts t o) (hbuf : Q.faithful → InBuffer t)
    (hstream : Streamless t ∨ Q.lmts.streamlimit = invalidSize ∧ Q.faithful)
    (hpost : ∀ v, Held Q t o v → Q.post ⟨[v], []⟩) :
    Receives tm Q (.loadingWith Q.lmts t) (wire t o) := by
  have hget : (⟨[dflt t], []⟩ : Mem).get ⟨.user 0, []⟩ = some (dflt t) := rfl
  have hready := ready_dflt ht
  have htarget : Target Q t (dflt t) := ⟨shape_of_ready hready, fun _ => hready⟩
  have htakes : Takes tm Q t o := takes ht hfit hmet.1 hbuf hstream
  have hload := htakes ⟨[dflt t], []⟩ ⟨.user 0, []⟩ (dflt t) [] [] [] hget htarget
    fun hl v hheld => .nil (hmet.2 hl) (hpost v hheld)
  simp only [List.append_nil] at hload
  have hrec := hload (DeserializerBase.new Q.lmts [dflt t]) ⟨rfl, rfl, rfl, rfl⟩
  have hpush := DeserializerBase.push_eq (d := DeserializerBase.new Q.lmts [dflt t]) hget htarget.1
  rw [DeserializerBase.loadingWith, hpush]
  simpa only [DeserializerBase.new, List.append_nil] using hrec

theorem receives_loading (ht : HasTy t o) (hfit : Fits t o)
    (hbuf : InBuffer t) : Receives tm (.unlimited (Rebuilt t o)) (.loading t) (wire t o) :=
  receives_loadingWith ht hfit (iff_of_true trivial (loadable_unlimited hfit hbuf))
    (fun _ => hbuf) (.inr ⟨rfl, trivial⟩) fun v hheld => ⟨v, rfl, hheld.2 trivial⟩

/-- The buffers suit what is to be sent: none is empty and, for chunked data, none
    is shorter than `MIN_STREAM_BUFFER_SIZE` or so long that an `int32_t` cannot
    count it. -/
def Suits (pl : List Wire) (bls : List ℕ) : Prop :=
  ∀ bl ∈ bls, 0 < bl ∧ ((∃ bs, pl = bytes bs) ∨ minStreamBufferSize ≤ bl ∧ bl < 2 ^ 31)

variable {pl : List Wire} {bls : List ℕ}

/-- A call of `run` on a buffer that suits stores something, or there was nothing
    left to be sent. -/
theorem Ends.progress {bl : ℕ} {out : List Byte} {s' : SerializerBase}
    (h : Ends bl out s' pl') (hcut : Sent pl out pl')
    (hbl : Suits pl (bl :: bls)) : s'.fstk = [] ∨ weight pl' < weight pl := by
  obtain ⟨hpos, hsuits⟩ := hbl bl mem_cons_self
  rcases h with ⟨-, hf, -⟩ | ⟨-, -, hend⟩
  · exact .inl hf
  refine .inr (hcut.weight_lt (fun d hd => hd.1) fun hnil => ?_)
  subst hnil
  obtain rfl := Sent.nil hcut
  rw [length_nil] at hend
  rcases hend with hroom | ⟨⟨d, pl'', hd⟩, hsmall⟩
  · omega
  · rcases hsuits with ⟨bs, hbs⟩ | ⟨hmin, hmax⟩
    · cases bs <;> rw [hd] at hbs <;> cases hbs
    · rw [Nat.sub_zero, toInt32_of_lt hmax] at hsmall
      omega

theorem Suits.rest {bl : ℕ} {out : List Byte}
    (h : Suits pl (bl :: bls)) (hcut : Sent pl out pl') : Suits pl' bls := by
  intro x hx
  obtain ⟨hpos, hx⟩ := h x (mem_cons_of_mem _ hx)
  refine ⟨hpos, hx.imp_left ?_⟩
  rintro ⟨bs, rfl⟩
  obtain ⟨bs', -, rfl⟩ := Cut.bytes_iff.1 hcut
  exact ⟨bs', rfl⟩

/-- **Calls of a serializer** on buffers that suit: the pieces are pieces of what is
    to be sent, and enough calls send all of it. -/
theorem Sending.calls {K : Quota} {n : ℕ} {s : SerializerBase}
    (h : Sending K n s pl) (hmet : K.met) (hbls : Suits pl bls) :
    ∃ ps s' n' pl', s.Calls bls ps s' ∧ Cuts Sendable streamChunk (store16 0) pl ps pl' ∧
      Sending K n' s' pl' ∧ (weight pl < bls.length → s'.fstk = []) := by
  induction bls generalizing n s pl with
  | nil => exact ⟨[], s, n, pl, .nil s, .nil pl, h, fun hlt => absurd hlt (Nat.not_lt_zero _)⟩
  | cons bl bls ih =>
    obtain ⟨p, s₁, n1, pl1, hrun, -, hcut, hsend, hend⟩ := h.runs hmet bl
    obtain ⟨ps, s', n', pl', hcalls, hcuts, hsend', hdone⟩ := ih hsend (hbls.rest hcut)
    refine ⟨p :: ps, s', n', pl', .cons hrun hcalls, .cons hcut hcuts, hsend', fun hlt => ?_⟩
    rw [length_cons] at hlt
    rcases hend.progress hcut hbls with hf | hw
    · -- nothing is left: the calls that follow, if any, end at once
      obtain ⟨rfl, -⟩ := hsend.finished hf
      cases hcalls with
      | nil => exact hf
      | cons _ _ => exact hdone (by simp)
    · exact hdone (by omega)

theorem Received.receives {d : DeserializerBase}
    (h : Received tm Q d pl) : Receives tm Q d pl := by
  rcases h with ⟨rfl, hmet, hf, he, hc, hq⟩ | ⟨-, -, h⟩
  · exact .done hmet hf he hc hq
  · exact h

/-- **Calls of a deserializer** on pieces of what is sent take all of them. -/
theorem Receives.consumes {d : DeserializerBase}
    {ps : List (List Byte)} (h : Receives tm Q d pl) (hmet : Q.met)
    (hcuts : Cuts Sendable streamChunk (store16 0) pl ps pl') :
    ∃ d', d.Consumes tm ps d' ∧ DClean Q.lmts d' ∧ (ps ≠ [] → Received tm Q d' pl') := by
  induction hcuts generalizing d with
  | nil => exact ⟨d, .nil d, h.clean, fun hne => absurd rfl hne⟩
  | @cons pl pl1 pl' p ps hcut hcuts ih =>
    have hnil : ([] : List Byte) ≠ [] → pl1 = [] := fun hne => absurd rfl hne
    obtain ⟨d₁, hrun, hrec⟩ := h.runs hmet hcut hnil
    rw [append_nil] at hrun
    obtain ⟨d', hcons, hclean, hrec'⟩ := ih hrec.receives
    refine ⟨d', .cons hrun hcons, hclean, fun _ => ?_⟩
    cases hcons with
    | nil => cases hcuts; exact hrec
    | cons _ _ => exact hrec' (by simp)

/-! ## Pieces cut anywhere -/

theorem exists_bytes_flatMap {f : Obj → List Wire} {os : List Obj}
    (h : ∀ o ∈ os, ∃ bs, f o = bytes bs) : ∃ bs, os.flatMap f = bytes bs := by
  induction os with
  | nil => exact ⟨[], rfl⟩
  | cons o os ih =>
    obtain ⟨bs, hbs⟩ := h o mem_cons_self
    obtain ⟨cs, hcs⟩ := ih fun o ho => h o (mem_cons_of_mem _ ho)
    exact ⟨bs ++ cs, by rw [flatMap_cons, hbs, hcs, bytes_append]⟩

theorem exists_wire_eq_bytes (hs : Streamless t) (o : Obj) : ∃ bs, wire t o = bytes bs := by
  induction t generalizing o with
  | stream src dst => exact hs.elim
  | struct mv t ih => exact ih hs o
  | pair t u iht ihu => cases o with
    | pair a b =>
      obtain ⟨bs, hbs⟩ := iht hs.1 a
      obtain ⟨cs, hcs⟩ := ihu hs.2 b
      exact ⟨bs ++ cs, by rw [wire, hbs, hcs, bytes_append]⟩
    | _ => exact ⟨[], rfl⟩
  | container b size t ih => cases o with
    | seq os =>
      obtain ⟨bs, hbs⟩ := exists_bytes_flatMap fun o (_ : o ∈ os) => ih hs o
      exact ⟨_, by rw [wire, hbs, ← bytes_append]⟩
    | _ => exact ⟨[], rfl⟩
  | array b cap t ih => cases o with
    | arr os n =>
      obtain ⟨bs, hbs⟩ := exists_bytes_flatMap fun o (_ : o ∈ os.take n) => ih hs o
      exact ⟨_, by rw [wire, hbs, ← bytes_append]⟩
    | _ => exact ⟨[], rfl⟩
  | str => cases o with
    | str c => exact ⟨_, (bytes_append _ _).symm⟩
    | _ => exact ⟨[], rfl⟩
  | bitset v => cases o with
    | bits bs => exact ⟨_, (bytes_append _ _).symm⟩
    | _ => exact ⟨[], rfl⟩
  | bitvec => cases o with
    | bits bs => exact ⟨_, (bytes_append _ _).symm⟩
    | _ => exact ⟨[], rfl⟩
  | _ => cases o <;> first | exact ⟨_, rfl⟩ | exact ⟨[], rfl⟩

/-- **Round trip.**  For an object that holds no stream, and whose sizes can be
    encoded, calls of `run` on any buffers that are not empty store pieces of one
    output; and that output, cut into any pieces, is taken completely by the calls
    of a deserializer, which rebuild the object.  Neither side ends with an error or
    with anything on its stacks. -/
theorem round_trip (tm : TypeMap) {t : Ty} {o : Obj} (ht : HasTy t o) (hfit : Fits t o)
    (hbuf : InBuffer t) (hs : Streamless t) :
    ∃ out : List Byte,
      (∀ bls : List ℕ, (∀ bl ∈ bls, 0 < bl) → ∃ ps s', (storing t o).Calls bls ps s' ∧
        ps.flatten <+: out ∧ s'.err = none ∧ (out.length < bls.length → s'.fstk = []) ∧
        (s'.fstk = [] → ps.flatten = out ∧ s'.estk = [])) ∧
      (∀ ps : List (List Byte), ps ≠ [] → ps.flatten = out →
        ∃ d', (loading t).Consumes tm ps d' ∧ d'.fstk = [] ∧ d'.estk = [] ∧
          d'.err = none ∧ Rebuilt t o d'.mem) := by
  obtain ⟨out, hout⟩ := exists_wire_eq_bytes hs o
  obtain ⟨n, hsend⟩ := sending_storing ht hfit
  have hrec : Receives tm (.unlimited (Rebuilt t o)) (.loading t) (wire t o) :=
    receives_loading ht hfit hbuf
  rw [hout] at hsend hrec
  refine ⟨out, fun bls hbls => ?_, fun ps hne hps => ?_⟩
  · obtain ⟨ps, s', n', pl', hcalls, hcuts, hsend', hdone⟩ :=
      hsend.calls trivial fun bl hbl => ⟨hbls bl hbl, .inl ⟨out, rfl⟩⟩
    obtain ⟨bs', rfl, rfl⟩ := Cuts.bytes_iff.1 hcuts
    rw [weight_bytes] at hdone
    refine ⟨ps, s', hcalls, prefix_append _ _, hsend'.err, hdone, fun hf => ?_⟩
    obtain ⟨hpl, he, -⟩ := hsend'.finished hf
    obtain rfl : bs' = [] := bytes_injective hpl
    exact ⟨(append_nil _).symm, he⟩
  · obtain ⟨d', hcons, hclean, hrec'⟩ :=
      hrec.consumes trivial (Cuts.bytes_iff.2 ⟨[], by rw [hps, append_nil], rfl⟩)
    rcases hrec' hne with ⟨-, -, hf, he, -, hq⟩ | ⟨hne', -, -⟩
    · exact ⟨d', hcons, hf, he, hclean.err, hq⟩
    · exact absurd rfl hne'

/-- A structure of a list of strings, a cross integer and a bit vector. -/
theorem round_trip_structure :
    ∃ out : List Byte, ∀ ps : List (List Byte), ps ≠ [] → ps.flatten = out →
      ∃ d', (loading (.struct true
          (.pair (.container false 32 .str) (.pair (.cross .w32) .bitvec)))).Consumes
          (fun _ _ _ => .null) ps d' ∧ d'.fstk = [] ∧ d'.estk = [] ∧ d'.err = none ∧
        Rebuilt (.struct true (.pair (.container false 32 .str) (.pair (.cross .w32) .bitvec)))
          (.pair (.seq [.str [104, 105], .str []])
            (.pair (.raw [1, 2, 0, 0]) (.bits [true, false, true]))) d'.mem := by
  obtain ⟨out, -, h⟩ := round_trip (fun _ _ _ => .null)
    (t := .struct true (.pair (.container false 32 .str) (.pair (.cross .w32) .bitvec)))
    (o := .pair (.seq [.str [104, 105], .str []])
      (.pair (.raw [1, 2, 0, 0]) (.bits [true, false, true])))
    ⟨⟨rfl, by simp [HasTy]⟩, rfl, trivial⟩
    ⟨⟨by decide, by simp [Fits]; decide⟩, trivial, by change 3 ≤ _; decide⟩
    ⟨⟨by decide, trivial, trivial⟩, trivial, trivial⟩ ⟨trivial, trivial, trivial⟩
  exact ⟨out, h⟩

theorem storeUtf8_refuses {c : List Byte} (hlen : maxValueWithoutCrc .w32 < c.length)
    (hlim : c.length ≤ invalidSize) (t : Ty) (o : Obj) (bl : ℕ) : ∃ s',
    (SerializerBase.storing (.pair .utf8 t) (.pair (.str c) o)).runLoop false 1 bl [] =
      some (.failure s') ∧ s'.err = some .utf8MaxLimit := by
  refine ⟨{ SerializerBase.storing (.pair .utf8 t) (.pair (.str c) o) with
    err := some .utf8MaxLimit }, ?_, rfl⟩
  simp only [SerializerBase.runLoop, SerializerBase.resetLimits, SerializerBase.storing,
    SerializerBase.push,
    SerializerBase.new, SFrame.ofTy, SerializerBase.step, SerializerBase.fail, List.cons_append,
    List.nil_append, List.length_append, List.length_singleton, Nat.add_sub_cancel,
    Limits.unlimited, if_neg (Nat.not_lt.2 hlim), if_pos hlen, reduceCtorEq, if_false]

def longText : Obj := .str (List.replicate (2 ^ 27) 1)

theorem hasTy_longText : HasTy .utf8 longText := by
  intro h
  exact absurd (mem_replicate.1 h).2 (by decide)

/-- A text of `2 ^ 27` bytes is not stored. -/
theorem round_trip_longText :
    HasTy (.pair .utf8 .unit) (.pair longText .unit) ∧ InBuffer (.pair .utf8 .unit) ∧
      Streamless (.pair .utf8 .unit) ∧
      ∀ bl, ∃ s', (storing (.pair .utf8 .unit) (.pair longText .unit)).runLoop false 1
        bl [] = some (.failure s') ∧ s'.err = some .utf8MaxLimit :=
  ⟨⟨hasTy_longText, trivial⟩, ⟨trivial, trivial⟩, ⟨trivial, trivial⟩, fun bl =>
    storeUtf8_refuses (by rw [length_replicate]; decide) (by rw [length_replicate]; decide) _ _ bl⟩

/-! ## Pieces as they are stored -/

/-- **Transfer with streams.**  When every buffer has at least
    `MIN_STREAM_BUFFER_SIZE` bytes, and its length is an `int`, the calls of a
    deserializer on the pieces that the calls of the serializer store take all of
    them.  Once the serializer has nothing left to do, and it gets there, the
    destination streams have received what was requested, the other parts are
    rebuilt, and all stacks are empty; there is never an error. -/
theorem stream_transfer (tm : TypeMap) {t : Ty} {o : Obj} (ht : HasTy t o) (hfit : Fits t o)
    (hbuf : InBuffer t) (bls : List ℕ)
    (hbls : ∀ bl ∈ bls, minStreamBufferSize ≤ bl ∧ bl < 2 ^ 31) :
    ∃ ps s' d', (storing t o).Calls bls ps s' ∧ (loading t).Consumes tm ps d' ∧
      s'.err = none ∧ s'.streamerr = none ∧ d'.err = none ∧ d'.streamerr = none ∧
      (weight (wire t o) < bls.length → s'.fstk = []) ∧
      (bls ≠ [] → s'.fstk = [] →
        s'.estk = [] ∧ d'.fstk = [] ∧ d'.estk = [] ∧ Rebuilt t o d'.mem) := by
  obtain ⟨n, hsend⟩ := sending_storing ht hfit
  have hpos : ∀ bl ∈ bls, 0 < bl := fun bl hbl =>
    Nat.lt_of_lt_of_le (by decide) (hbls bl hbl).1
  obtain ⟨ps, s', n', pl', hcalls, hcuts, hsend', hdone⟩ :=
    hsend.calls trivial fun bl hbl => ⟨hpos bl hbl, .inr (hbls bl hbl)⟩
  have hload : Receives tm (.unlimited (Rebuilt t o)) (.loading t) (wire t o) :=
    receives_loading ht hfit hbuf
  obtain ⟨d', hcons, hclean, hrec⟩ := hload.consumes trivial hcuts
  refine ⟨ps, s', d', hcalls, hcons, hsend'.err, hsend'.streamerr, hclean.err, hclean.streamerr,
    hdone, fun hne hf => ?_⟩
  have hps : ps ≠ [] := by
    rintro rfl
    cases hcalls
    exact hne rfl
  obtain ⟨rfl, he, -⟩ := hsend'.finished hf
  rcases hrec hps with ⟨-, -, hf', he', -, hq⟩ | ⟨hne', -, -⟩
  · exact ⟨he, hf', he', hq⟩
  · exact absurd rfl hne'

/-- A stream of three bytes after an integer, through buffers of 16 and 20 bytes. -/
theorem stream_transfer_three_bytes :
    ∃ ps s' d', (storing (.pair (.int .w8) (.stream (some (1, 2)) none))
        (.pair (.raw [7]) (.istream ⟨[1, 2, 3], 0, false⟩))).Calls
        (16 :: List.replicate 8 20) ps s' ∧
      (loading (.pair (.int .w8) (.stream (some (1, 2)) none))).Consumes
        (fun _ _ _ => .null) ps d' ∧
      d'.fstk = [] ∧ d'.estk = [] ∧ d'.streamerr = none ∧
      Rebuilt (.pair (.int .w8) (.stream (some (1, 2)) none))
        (.pair (.raw [7]) (.istream ⟨[1, 2, 3], 0, false⟩)) d'.mem := by
  obtain ⟨ps, s', d', hcalls, hcons, -, -, -, hserr, hdone, hend⟩ :=
    stream_transfer (fun _ _ _ => .null) (t := .pair (.int .w8) (.stream (some (1, 2)) none))
      (o := .pair (.raw [7]) (.istream ⟨[1, 2, 3], 0, false⟩))
      ⟨rfl, rfl, by decide, by decide, by decide⟩ ⟨trivial, trivial⟩ ⟨trivial, trivial⟩
      (16 :: List.replicate 8 20) (by decide)
  obtain ⟨-, hf, he, hq⟩ := hend (by simp) (hdone (by decide))
  exact ⟨ps, s', d', hcalls, hcons, hf, he, hserr, hq⟩

/-- A stream is not sent when the text before it is not stored; and in a destination that is
    not empty there is more than what was received. -/
theorem stream_transfer_longText :
    (HasTy (.pair .utf8 (.stream none none)) (.pair longText (.istream ⟨[1], 0, false⟩)) ∧
      InBuffer (.pair .utf8 (.stream none none)) ∧
      ∀ bl, ∃ s', (storing (.pair .utf8 (.stream none none))
        (.pair longText (.istream ⟨[1], 0, false⟩))).runLoop false 1 bl [] = some (.failure s') ∧
        s'.err = some .utf8MaxLimit) ∧
    ∃ p s' d', (storing (.stream none none) (.istream ⟨[1], 0, false⟩)).runLoop false 6 32 [] =
        some (.done p s') ∧ s'.fstk = [] ∧
      ((DeserializerBase.new .unlimited [.ostream { content := [8, 9] }]).push (.stream none none)
        ⟨.user 0, []⟩).runLoop (fun _ _ _ => .null) false p 6 0 = some (.done p.length d') ∧
      d'.fstk = [] ∧
      d'.mem.get ⟨.user 0, []⟩ = some (.ostream { content := [1, 9], pos := 1 }) := by
  refine ⟨⟨⟨hasTy_longText, rfl⟩, ⟨trivial, trivial⟩, fun bl => ?_⟩, _, _, _, rfl, rfl, rfl,
    rfl, rfl⟩
  exact storeUtf8_refuses (by rw [length_replicate]; decide)
    (by rw [length_replicate]; decide) _ _ bl

end SolidFrame
