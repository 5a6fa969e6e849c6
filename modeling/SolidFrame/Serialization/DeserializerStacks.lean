/-
  SolidFrame formalization — the stacks of a deserializer.

  Whatever was scheduled and whatever bytes arrive, the stacks of a deserializer
  fit together: every function finds the data it needs on `estk` (`Scheduled`,
  `Resumable`).
-/
import SolidFrame.Serialization.DeserializerPlan

namespace SolidFrame

open DeserializerBase Nat Option

/-! ## The stacks -/

/-- The number of calls that the functions pushed for a target can take before one
    takes a byte. -/
def Ty.calls : Ty → ℕ
  | .str | .bitset _ | .bitvec | .container _ _ _ | .stream _ none | .ptr _ _ => 2
  | .stream _ (some _) => 3
  | .pair t u => t.calls + u.calls
  | .unit => 0
  | .struct _ t => t.calls + 1
  | .call _ t _ => t.calls + 2
  | _ => 1

/-- The same for a function that needs nothing from `estk` and nothing from the
    functions below it. -/
def DFrame.calls : DFrame → Option ℕ
  | .setStringLimit _ | .setStreamLimit _ | .setContainerLimit _ | .loadBinary .. | .loadBool _
  | .loadInt .. | .loadStreamCheck _ | .loadStream .. | .loadDummyStream _ | .loadUtf8 _
  | .loadCross _ (.loc _) | .loadReturnError _ | .loadReturnSuccess => some 1
  | .loadString _ | .loadBits .. | .loadContainer .. => some 2
  | .load t _ => some (t.calls + 1)
  | _ => none

def DFrame.IsStream : DFrame → Prop
  | .loadStream .. | .loadDummyStream _ => True
  | _ => False

/-- The calls that a loaded pointer can lead to. -/
def PtrLoad.calls : PtrLoad Ty → ℕ
  | .object t => t.calls + 1
  | _ => 0

/-- An entry of `estk` that holds a size or a type id. -/
def DExt.IsSlot : DExt → Prop
  | .val _ none | .vals _ _ => True
  | _ => False

def DExt.setFirst (v : ℕ) : DExt → DExt
  | .val _ g => .val v g
  | .vals _ i => .vals v i
  | e => e

theorem DExt.exists_setFirst (e : DExt) : ∃ v, e.setFirst v = e := by
  cases e with
  | val v g => exact ⟨v, rfl⟩
  | vals v i => exact ⟨v, rfl⟩
  | call => exact ⟨0, rfl⟩

/-- The functions of `fstk` find the data they need on `estk`, and at most `n` calls
    can be made before a byte is taken. -/
inductive Scheduled (tm : TypeMap) : ℕ → List DFrame → List DExt → Prop where
  | nil (es : List DExt) : Scheduled tm 0 [] es
  | plain {n fs es f c} : DFrame.calls f = some c → Scheduled tm n fs es →
      Scheduled tm (n + c) (f :: fs) es
  | streamBegin {n fs es f} (p : Option Loc) (a : ℕ) : DFrame.IsStream f → Scheduled tm n fs es →
      Scheduled tm (n + 2) (.loadStreamBegin p a :: f :: fs) es
  | popExtStack {n fs es} (v : ℕ) : Scheduled tm n fs es →
      Scheduled tm (n + 1) (.popExtStack :: fs) (.val v none :: es)
  | stringCheck {n fs es} (l' l : Loc) (v : ℕ) : Scheduled tm n fs es →
      Scheduled tm (n + 2) (.loadBinaryStringCheck l' :: .loadBinaryString l :: fs)
        (.val v none :: es)
  | string {n fs es} (l : Loc) (v : ℕ) : Scheduled tm n fs es →
      Scheduled tm (n + 1) (.loadBinaryString l :: fs) (.val v none :: es)
  | bitsBegin {n fs es} (fixed : Option ℕ) (l : Loc) (v : ℕ) : Scheduled tm n fs es →
      Scheduled tm (n + 2) (.loadBitsBegin fixed l :: fs) (.val v none :: es)
  | bitsContinue {n fs es} (l : Loc) (s v : ℕ) : Scheduled tm n fs es →
      Scheduled tm (n + 1) (.loadBitsContinue l s :: fs) (.val v none :: es)
  | containerBegin {n fs es} (b : Bool) (size : ℕ) (t : Ty) (l : Loc) (v : ℕ) :
      Scheduled tm n fs es →
      Scheduled tm (n + (v + 1) * (t.calls + 1)) (.loadContainerBegin b size t l :: fs)
        (.val v none :: es)
  | containerContinue {n fs es i} (size : ℕ) (t : Ty) (l : Loc) : 0 < i → Scheduled tm n fs es →
      Scheduled tm (n + i * (t.calls + 1)) (.loadContainerContinue t l :: fs)
        (.val i (some size) :: es)
  | array {n fs es} (b : Bool) (t : Ty) (l : Loc) (v : ℕ) : Scheduled tm n fs es →
      Scheduled tm (n + v * (t.calls + 1) + 2) (.loadArray b t l :: fs) (.vals v 0 :: es)
  | arrayContinue {n fs es} (t : Ty) (l : Loc) (v i : ℕ) : Scheduled tm n fs es →
      Scheduled tm (n + (v - i) * (t.calls + 1) + 1) (.loadArrayContinue t l :: fs)
        (.vals v i :: es)
  /-- whatever size is announced -/
  | announced {fs es e} (k : ℕ) (m : ℕ → ℕ) : DExt.IsSlot e →
      (∀ v, Scheduled tm (m v) fs (e.setFirst v :: es)) →
      Scheduled tm (k + 1) (.loadCross .w64 .top :: fs) (e :: es)
  | pointerPrepare {n fs es} (k : ℕ) (sh : Bool) (base : ℕ) (l : Loc) (v : ℕ) :
      Scheduled tm n fs es →
      Scheduled tm (k + 2) (.loadPointerPrepare sh base l :: .popExtStack :: fs) (.val v none :: es)
  | pointer {n fs es} (sh : Bool) (base : ℕ) (l : Loc) (v : ℕ) : Scheduled tm n fs es →
      Scheduled tm (n + (tm sh base v).calls + 2) (.loadPointer sh base l :: .popExtStack :: fs)
        (.val v none :: es)
  | call {n fs es} (ctx : Bool) (t : Ty) (l : Loc) (err : Option SerError) : Scheduled tm n fs es →
      Scheduled tm (n + t.calls + 2) (.loadCall ctx t l err :: fs) (.call :: es)

/-- **Scheduling a target** leaves stacks that fit together. -/
theorem Scheduled.push {tm : TypeMap} {n : ℕ} {fs : List DFrame} {es : List DExt}
    (h : Scheduled tm n fs es) (m : Mem) (t : Ty) (l : Loc) :
    Scheduled tm (n + t.calls) ((DFrame.ofTy m t l).1 ++ fs) ((DFrame.ofTy m t l).2 ++ es) := by
  induction t generalizing n fs es l with
  | pair t u iht ihu =>
    simp only [DFrame.ofTy, List.append_assoc, Ty.calls]
    have hu := ihu h (l.sub 1)
    have ht := iht hu (l.sub 0)
    rwa [add_comm t.calls, ← add_assoc]
  | array b cap t ih => exact .announced n _ trivial fun v => .array b t l v h
  | stream src dst =>
    cases dst with
    | none =>
      simp only [DFrame.ofTy]
      split
      · exact .streamBegin _ _ trivial h
      · exact .streamBegin _ _ trivial h
    | some arg =>
      have hcheck : ∀ p f, DFrame.IsStream f → Scheduled tm (n + 2 + 1)
          (.loadStreamCheck arg.2 :: .loadStreamBegin p arg.1 :: f :: fs) es :=
        fun p f hf => .plain rfl (.streamBegin p arg.1 hf h)
      simp only [DFrame.ofTy]
      split
      · exact hcheck none _ trivial
      · exact hcheck (some l) _ trivial
  | ptr sh base => exact .pointerPrepare n sh base l 0 h
  | call ctx t err ih => exact .call ctx t l err h
  | unit => exact h
  | _ => exact .plain rfl h

/-- Where the value of a cross integer goes, the stacks then fit together. -/
def StoredThen (tm : TypeMap) (m : ℕ → ℕ) (dst : Dst) (fs : List DFrame) (es : List DExt) : Prop :=
  match dst with
  | .loc _ => ∀ v, Scheduled tm (m v) fs es
  | .top => ∃ e es', es = e :: es' ∧ e.IsSlot ∧ ∀ v, Scheduled tm (m v) fs (e.setFirst v :: es')

/-- `Scheduled`, also in the middle of a cross integer. -/
inductive Resumable (tm : TypeMap) : ℕ → DeserializerBase → Prop where
  | scheduled {n d} : Scheduled tm n d.fstk d.estk → Resumable tm n d
  | crossContinue {w dst fs s} {d : DeserializerBase} (k : ℕ) (m : ℕ → ℕ) :
      d.fstk = .loadCrossContinue s :: .loadCrossDone w dst :: fs → s < d.tmpstr.length →
      StoredThen tm m dst fs d.estk → Resumable tm (k + 1) d
  | crossDone {w dst fs} {d : DeserializerBase} (m : ℕ → ℕ) :
      d.fstk = .loadCrossDone w dst :: fs → StoredThen tm m dst fs d.estk →
      Resumable tm (m ((crossLoad w d.tmpstr).elim 0 Prod.fst) + 1) d

theorem Resumable.congr {tm : TypeMap} {n : ℕ} {d d' : DeserializerBase} (h : Resumable tm n d)
    (hf : d'.fstk = d.fstk) (he : d'.estk = d.estk) (ht : d'.tmpstr = d.tmpstr) :
    Resumable tm n d' := by
  cases h with
  | scheduled h => exact .scheduled (by rw [hf, he]; exact h)
  | crossContinue k m h hs hst =>
    exact .crossContinue k m (hf.trans h) (by rw [ht]; exact hs) (by rw [he]; exact hst)
  | crossDone m h hst => exact ht ▸ .crossDone m (hf.trans h) (by rw [he]; exact hst)

/-! ## What a call may do -/

/-- The elements that there is room for in an array. -/
def arrayCapacity (m : Mem) (l : Loc) : ℕ :=
  match m.get l with
  | some (.arr os _) => os.length
  | _ => 0

/-- The condition under which the function on top of `fstk` stays inside the buffer
    and asks for nothing undefined: a chunk of a stream lies in the buffer as a
    whole, the first byte of an 8 bit cross integer is valid, a cast function that is
    called is set, an element that is destroyed was made in the buffer of its
    `ExtendedData`, and an array that is not made by the deserializer has room for the
    announced elements. -/
def Contained (tm : TypeMap) (avail : List Byte) (d : DeserializerBase) : Prop :=
  match d.fstk with
  | .loadStream _ s :: _ => ∀ sz, load16 avail ≠ 0xffff →
      checkValueWithCrc .w16 (load16 avail) = some sz → min (min (avail.length - 2) s) sz ≠ 0 →
      2 + sz ≤ avail.length
  | .loadDummyStream _ :: _ => ∀ sz, 2 ≤ avail.length → load16 avail ≠ 0xffff → load16 avail ≠ 0 →
      checkValueWithCrc .w16 (load16 avail) = some sz → 2 + sz ≤ avail.length
  | .loadCross .w8 _ :: _ => ∀ b ∈ avail.head?, crossSizePtr b ≠ none
  | .loadPointer sh base _ :: _ => ∀ id g es, d.estk = .val id g :: es → tm sh base id ≠ .undefined
  | .loadContainerContinue _ _ :: _ => ∀ size es, d.estk = .val 1 (some size) :: es →
      size ≤ maxGenericSize
  | .loadArray false _ l :: _ => ∀ v i es rsz, d.estk = .vals v i :: es →
      checkSize v .arrayMaxLimit = .ok rsz →
      rsz = invalidSize ∨ rsz ≤ d.lmts.containerlimit → rsz ≤ arrayCapacity d.mem l
  | _ => True

/-- The same for `clear()`, which also must not drop the function of a call that was
    given a context. -/
def Clearable (d : DeserializerBase) : Prop :=
  match d.fstk with
  | .loadContainerContinue _ _ :: _ => ∀ i size es, d.estk = .val i (some size) :: es →
      size ≤ maxGenericSize
  | .loadCall ctx _ _ _ :: _ => ctx = false
  | _ => True

/-- What a call does: it takes no more than there is, and unless it takes a byte
    fewer calls can follow. -/
def Moves (tm : TypeMap) (n : ℕ) (d : DeserializerBase) (avail : List Byte) : Prop :=
  ∃ ret k d', d.step tm false 0 avail = some (ret, k, d') ∧ k ≤ avail.length ∧
    ∃ n', Resumable tm n' (d'.after ret) ∧ (ret = .cont ∨ ret = .success → 0 < k ∨ n' < n)

variable {size : ℕ}

section Moves
variable {tm : TypeMap} {n n' k : ℕ} {d d' : DeserializerBase} {fs fs' : List DFrame}
  {es es' : List DExt} {avail : List Byte}

theorem Moves.of_wait (hstep : d.step tm false 0 avail = some (.wait, k, d'))
    (hk : k ≤ avail.length) (h : Resumable tm n' d') : Moves tm n d avail :=
  ⟨.wait, k, d', hstep, hk, n', h, by rintro (h | h) <;> cases h⟩

theorem Moves.of_failure (hstep : d.step tm false 0 avail = some (.failure, k, d'))
    (hk : k ≤ avail.length) (h : Resumable tm n' d') : Moves tm n d avail :=
  ⟨.failure, k, d', hstep, hk, n', h, by rintro (h | h) <;> cases h⟩

theorem Moves.of_cont (hstep : d.step tm false 0 avail = some (.cont, k, d'))
    (hk : k ≤ avail.length) (h : Resumable tm n' d') (hdec : 0 < k ∨ n' < n) : Moves tm n d avail :=
  ⟨.cont, k, d', hstep, hk, n', h, fun _ => hdec⟩

theorem Moves.of_success (hstep : d.step tm false 0 avail = some (.success, k, d'))
    (hk : k ≤ avail.length) (h : Scheduled tm n' d'.fstk.tail d'.estk) (hdec : 0 < k ∨ n' < n) :
    Moves tm n d avail :=
  ⟨.success, k, d', hstep, hk, n', .scheduled h, fun _ => hdec⟩

variable {err : Option SerError}

theorem Moves.of_fail {streamerr : Option SerError} (hstep : d.step tm false 0 avail =
    some (.failure, 0, { d with err := err, streamerr := streamerr })) (h : Resumable tm n' d) :
    Moves tm n d avail :=
  .of_failure hstep (zero_le _) (h.congr rfl rfl rfl)

theorem Moves.of_next (hstep : d.step tm false 0 avail = some (.cont, 0, d'))
    (h : Scheduled tm n' d'.fstk d'.estk) (hlt : n' < n) : Moves tm n d avail :=
  .of_cont hstep (zero_le _) (.scheduled h) (.inr hlt)

theorem Moves.of_done (hstep : d.step tm false 0 avail = some (.success, 0, d'))
    (h : Scheduled tm n' d'.fstk.tail d'.estk) (hlt : n' < n) : Moves tm n d avail :=
  .of_success hstep (zero_le _) h (.inr hlt)

/-! ## The functions that need nothing else -/

theorem beforeNul_length_le (p : List Byte) : (beforeNul p).length ≤ p.length :=
  (List.takeWhile_sublist _).length_le

theorem moves_loadBinary {j l off s c} (hc : 1 ≤ c) (h : Scheduled tm n fs d.estk)
    (hstep : d.step tm false 0 avail = d.loadBinary j l off s fs avail) :
    Moves tm (n + c) d avail := by
  unfold loadBinary at hstep
  simp only at hstep
  split_ifs at hstep with hj hdone hle hpos
  · exact .of_success hstep (min_le_left _ _) h (.inr (by omega))
  · exact .of_wait hstep (min_le_left _ _) (.scheduled (.plain rfl h))
  · exact .of_success hstep hle h (.inr (by omega))
  · exact .of_wait hstep (le_refl _) (.scheduled (.plain rfl h))
  · exact .of_wait hstep (zero_le _) (.scheduled (.plain rfl h))

theorem StoredThen.store {m : ℕ → ℕ} {dst : Dst} (h : StoredThen tm m dst fs d.estk) (w : Width)
    (v : ℕ) : ∃ d', d.storeCrossValue w v dst = some d' ∧ d'.fstk = d.fstk ∧
      Scheduled tm (m v) fs d'.estk := by
  cases dst with
  | loc l => exact ⟨_, rfl, rfl, h v⟩
  | top =>
    obtain ⟨e, es, he, hslot, hv⟩ := h
    have hv := hv v
    unfold storeCrossValue
    cases e with
    | val u g => exact ⟨{ d with estk := .val v g :: es }, by simp only [he], rfl, hv⟩
    | vals u i => exact ⟨{ d with estk := .vals v i :: es }, by simp only [he], rfl, hv⟩
    | call => exact hslot.elim

variable {v : ℕ} {l : Loc} {w : Width} {t : Ty} {c : ℕ} {b : Byte} {s : ℕ} {f : DFrame} {i : ℕ}

theorem crossSizePtr_of_crossLoad {ps : List Byte}
    (h : crossLoad w (b :: ps) = some (v, k)) : crossSizePtr b = some k := by
  rw [crossLoad] at h
  rw [crossSizePtr]
  cases hsz : checkValueWithCrc .w8 b.toNat with
  | none => simp [hsz] at h
  | some sz =>
    simp only [hsz] at h
    split_ifs at h
    obtain ⟨-, rfl⟩ := Prod.mk.inj (some.inj h)
    rfl

theorem checkValueWithCrc_le {sz : ℕ} (h : checkValueWithCrc w v = some sz) : sz ≤ v := by
  unfold checkValueWithCrc at h
  split_ifs at h
  obtain rfl := some.inj h
  rw [shiftRight_eq_div_pow]
  exact div_le_self _ _

theorem announcedSize_of_crossLoad {ps : List Byte}
    (h : crossLoad w (b :: ps) = some (v, k)) : announcedSize w b = k ∧ 0 < k := by
  have hk := crossSizePtr_of_crossLoad h
  refine ⟨by rw [announcedSize, hk], ?_⟩
  obtain ⟨sz, -, rfl⟩ := map_eq_some_iff.1 hk
  exact succ_pos sz

/-- Only an 8 bit cross integer with an invalid first byte announces `-1` bytes. -/
theorem announcedSize_ne (h : w = .w8 → crossSizePtr b ≠ none) :
    announcedSize w b ≠ 2 ^ 64 - 1 := by
  unfold announcedSize
  cases hsz : crossSizePtr b with
  | none =>
    have hw : w ≠ .w8 := fun hw => h hw hsz
    simp only [if_neg hw]
    decide
  | some k =>
    obtain ⟨sz, hval, rfl⟩ := map_eq_some_iff.1 hsz
    have hle := checkValueWithCrc_le hval
    have hb := b.toNat_lt
    simp only
    omega

/-- `loadCross` takes its bytes, or keeps those that are there and goes on with
    `loadCrossContinue`. -/
theorem moves_loadCross {dst : Dst} {m : ℕ → ℕ}
    (hf : d.fstk = .loadCross w dst :: fs) (h : StoredThen tm m dst fs d.estk)
    (hself : Resumable tm n' d) (hok : Contained tm avail d) : Moves tm n d avail := by
  have hstep : d.step tm false 0 avail = d.loadCross w dst fs avail := by
    simp [step, hf, reads]
  obtain _ | ⟨b, rest⟩ := avail
  · exact .of_wait hstep (zero_le _) hself
  have hok : w = .w8 → crossSizePtr b ≠ none := by
    rintro rfl
    unfold Contained at hok
    rw [hf] at hok
    exact hok b rfl
  unfold loadCross at hstep
  simp only [if_neg (announcedSize_ne hok)] at hstep
  by_cases hle : announcedSize w b ≤ (b :: rest).length
  · -- the whole integer is there
    rw [if_pos hle] at hstep
    cases hload : crossLoad w (b :: rest) with
    | none =>
      rw [hload] at hstep
      exact .of_fail hstep hself
    | some r =>
      obtain ⟨v, k⟩ := r
      obtain ⟨hk, hpos⟩ := announcedSize_of_crossLoad hload
      obtain ⟨d', hst, hfs, hs⟩ := h.store w v
      simp only [hload, hst, map_some] at hstep
      have hs' : Scheduled tm (m v) d'.fstk.tail d'.estk := by rw [hfs, hf]; exact hs
      exact .of_success hstep (hk ▸ hle) hs' (.inl hpos)
  · rw [if_neg hle] at hstep
    obtain ⟨len, hlen⟩ : ∃ len, len = if w = .w8 then 1 else (b :: rest).length := ⟨_, rfl⟩
    have hpos : 0 < len := by rw [hlen]; split_ifs <;> simp
    have hmax : len ≤ (b :: rest).length := by rw [hlen]; split_ifs <;> simp
    rw [← hlen] at hstep
    refine .of_cont hstep hmax (.crossContinue 0 m rfl ?_ h) (.inl hpos)
    have htake : ((b :: rest).take len).length = len := List.length_take_of_le hmax
    simp only
    rw [overwrite_length (by rw [resize_length, htake]; omega), resize_length]
    omega

theorem moves_loadUtf8 (hf : d.fstk = .loadUtf8 l :: fs)
    (h : Scheduled tm n fs d.estk) : Moves tm (n + c) d avail := by
  have hself : Resumable tm (n + 1) d := .scheduled (by rw [hf]; exact .plain rfl h)
  have hstep : d.step tm false 0 avail = d.loadUtf8 l avail := by
    simp [step, hf, reads]
  have hle := beforeNul_length_le avail
  have htail : Scheduled tm n d.fstk.tail d.estk := by rw [hf]; exact h
  unfold loadUtf8 at hstep
  simp only at hstep
  split_ifs at hstep with hlim hmax hall
  · exact .of_fail hstep hself
  · exact .of_fail hstep hself
  · exact .of_wait hstep hle (hself.congr rfl rfl rfl)
  · exact .of_success hstep (by omega) htail (.inl (succ_pos _))

theorem moves_loadStream (hf : d.fstk = .loadStream l s :: fs)
    (h : Scheduled tm n fs d.estk) (hok : Contained tm avail d) : Moves tm (n + c) d avail := by
  have hself : Resumable tm (n + 1) d := .scheduled (by rw [hf]; exact .plain rfl h)
  have hstep : d.step tm false 0 avail = d.loadStream l s fs avail := by
    simp [step, hf, reads]
  have htail : Scheduled tm n d.fstk.tail d.estk := by rw [hf]; exact h
  unfold Contained at hok
  rw [hf] at hok
  unfold loadStream at hstep
  simp only at hstep
  by_cases hshort : avail.length < 2
  · rw [if_pos hshort] at hstep
    exact .of_wait hstep (zero_le _) hself
  rw [if_neg hshort] at hstep
  by_cases hend : load16 avail = 0xffff
  · rw [if_pos hend] at hstep
    exact .of_success hstep (by omega) htail (.inl (by omega))
  rw [if_neg hend] at hstep
  cases hcrc : checkValueWithCrc .w16 (load16 avail) with
  | none =>
    simp only [hcrc] at hstep
    exact .of_fail hstep hself
  | some sz =>
    simp only [hcrc] at hstep
    by_cases hzero : min (min (avail.length - 2) s) sz = 0
    · rw [if_pos hzero] at hstep
      exact .of_success hstep (by omega) htail (.inl (by omega))
    have hinside := hok sz hend hcrc hzero
    rw [if_neg hzero] at hstep
    by_cases hlim : d.lmts.streamlimit < (d.streamsz + min (min (avail.length - 2) s) sz) % 2 ^ 64
    · rw [if_pos hlim] at hstep
      exact .of_fail hstep hself
    rw [if_neg hlim] at hstep
    -- the function goes on, as itself or as `loadDummyStream`
    refine .of_cont hstep hinside (.scheduled (n := n + 1) ?_) (.inl (by omega))
    split_ifs <;> exact .plain rfl h

theorem moves_loadDummyStream (hf : d.fstk = .loadDummyStream s :: fs)
    (h : Scheduled tm n fs d.estk) (hok : Contained tm avail d) (hlen : avail.length < 2 ^ 31) :
    Moves tm (n + c) d avail := by
  have hself : Resumable tm (n + 1) d := .scheduled (by rw [hf]; exact .plain rfl h)
  have hstep : d.step tm false 0 avail = d.loadDummyStream s fs avail.length avail := by
    simp [step, hf, toInt32_of_lt hlen]
  have htail : Scheduled tm n d.fstk.tail d.estk := by rw [hf]; exact h
  unfold Contained at hok
  rw [hf] at hok
  unfold loadDummyStream at hstep
  simp only at hstep
  split_ifs at hstep with hshort hend hzero
  · exact .of_wait hstep (zero_le _) hself
  · exact .of_success hstep (by omega) htail (.inl (by omega))
  · exact .of_success hstep (by omega) htail (.inl (by omega))
  cases hcrc : checkValueWithCrc .w16 (load16 avail) with
  | none =>
    simp only [hcrc] at hstep
    exact .of_fail hstep hself
  | some sz =>
    have hinside := hok sz (by omega) hend hzero hcrc
    simp only [hcrc] at hstep
    split_ifs at hstep with hlim
    · exact .of_failure hstep (zero_le _) (.scheduled (.plain rfl h))
    · exact .of_cont hstep hinside (.scheduled (.plain rfl h)) (.inl (by omega))

theorem moves_plain (hf : d.fstk = f :: fs) (hc : DFrame.calls f = some c)
    (h : Scheduled tm n fs d.estk) (hok : Contained tm avail d) (hlen : avail.length < 2 ^ 31) :
    Moves tm (n + c) d avail := by
  have hself : Resumable tm (n + c) d := .scheduled (by rw [hf]; exact .plain hc h)
  obtain ⟨fstk, estk, mem, rdefaultlmts, lmts, err, streamerr, streamsz, tmpstr⟩ := d
  subst hf
  cases f with
  | loadStream l s => exact moves_loadStream rfl h hok
  | loadDummyStream s => exact moves_loadDummyStream rfl h hok hlen
  | loadUtf8 l => exact moves_loadUtf8 rfl h
  | loadCross w dst => cases dst with
    | top => cases hc
    | loc l => exact moves_loadCross rfl (m := fun _ => n) (fun _ => h) hself hok
  | loadBinary j l off s =>
    cases hc
    exact moves_loadBinary (le_refl 1) h rfl
  | loadInt w l =>
    cases hc
    exact moves_loadBinary (le_refl 1) h rfl
  | loadBool l => cases avail with
    | nil => exact .of_wait rfl (zero_le _) hself
    | cons b rest => exact .of_success rfl (by simp) h (.inl one_pos)
  | loadStreamCheck v =>
    by_cases hlim : lmts.streamlimit < v
    · exact .of_fail (if_pos hlim) hself
    · cases hc
      exact .of_done (if_neg hlim) h (lt_succ_self n)
  -- a size is announced: `loadCross` is pushed over a function that takes any size
  | loadString l =>
    cases hc
    exact .of_next rfl (.announced n _ trivial fun v =>
      .stringCheck l l v h) (lt_succ_self _)
  | loadBits fixed l =>
    cases hc
    exact .of_next rfl (.announced n _ trivial fun v =>
      .bitsBegin fixed l v h) (lt_succ_self _)
  | loadContainer b size t l =>
    cases hc
    exact .of_next rfl (.announced n _ trivial fun v =>
      .containerBegin b size t l v h) (lt_succ_self _)
  | load t l =>
    cases hc
    exact .of_next rfl (h.push mem t l) (lt_succ_self _)
  | loadReturnError e => exact .of_fail rfl hself
  | setStringLimit v =>
    cases hc
    exact .of_done rfl h (lt_succ_self n)
  | setStreamLimit v =>
    cases hc
    exact .of_done rfl h (lt_succ_self n)
  | setContainerLimit v =>
    cases hc
    exact .of_done rfl h (lt_succ_self n)
  | loadReturnSuccess =>
    cases hc
    exact .of_done rfl h (lt_succ_self n)
  | _ => cases hc

/-! ## The functions that use `estk` -/

theorem DFrame.IsStream.calls (h : f.IsStream) : DFrame.calls f = some 1 := by
  cases f <;> first | exact h.elim | rfl

theorem moves_streamBegin {p : Option Loc} {a : ℕ}
    (hf : d.fstk = .loadStreamBegin p a :: f :: fs) (hs : f.IsStream)
    (h : Scheduled tm n fs d.estk) : Moves tm (n + 2) d avail := by
  obtain ⟨fstk, estk, mem, rdefaultlmts, lmts, err, streamerr, streamsz, tmpstr⟩ := d
  subst hf
  have hbelow : Scheduled tm (n + 1) (f :: fs) estk := .plain hs.calls h
  have hdummy : Scheduled tm (n + 1) (.loadDummyStream 0 :: fs) estk := .plain rfl h
  cases p with
  | none => exact .of_next rfl hdummy (lt_succ_self _)
  | some l =>
    by_cases ha : a = invalidSize
    · exact .of_done (if_pos ha) hbelow (lt_succ_self _)
    by_cases hseek : (Obj.stream? ((mem.upd l (Obj.mapStream (·.seekp a))).get l)).tellp = some a
    · exact .of_done ((if_neg ha).trans (if_pos hseek)) hbelow (lt_succ_self _)
    · exact .of_next ((if_neg ha).trans (if_neg hseek)) hdummy (lt_succ_self _)

theorem checkSize_le {sz : ℕ} {e : SerError} (h : checkSize v e = .ok sz) : sz ≤ v := by
  unfold checkSize at h
  split_ifs at h
  · cases h
    exact le_refl _
  · split at h
    · cases h
      exact checkValueWithCrc_le (by assumption)
    · cases h

theorem moves_string (hf : d.fstk = .loadBinaryString l :: fs)
    (he : d.estk = .val v none :: es) (h : Scheduled tm n fs es) : Moves tm (n + 1) d avail := by
  cases d
  subst hf he
  by_cases hall : v - min avail.length v = 0
  · exact .of_success (if_pos hall) (min_le_left _ _) h (.inr (lt_succ_self _))
  · exact .of_wait (if_neg hall) (min_le_left _ _) (.scheduled (.string l _ h))

theorem moves_stringCheck {l' : Loc}
    (hf : d.fstk = .loadBinaryStringCheck l' :: .loadBinaryString l :: fs)
    (he : d.estk = .val v none :: es) (h : Scheduled tm n fs es) : Moves tm (n + 2) d avail := by
  have hself : Resumable tm (n + 2) d := .scheduled (by rw [hf, he]; exact .stringCheck l' l v h)
  have hstep : d.step tm false 0 avail = d.loadBinaryStringCheck := by
    simp [step, hf, reads]
  unfold loadBinaryStringCheck at hstep
  cases hsize : checkSize v .stringMaxLimit with
  | error e =>
    simp only [he, hsize] at hstep
    exact .of_fail hstep hself
  | ok sz =>
    simp only [he, hsize, hf] at hstep
    split_ifs at hstep with hlim
    · exact .of_failure hstep (zero_le _) (.scheduled (.stringCheck l' l sz h))
    · exact .of_done hstep (.string l sz h) (lt_succ_self _)

theorem moves_bitsBegin {fixed : Option ℕ}
    (hf : d.fstk = .loadBitsBegin fixed l :: fs) (he : d.estk = .val v none :: es)
    (h : Scheduled tm n fs es) : Moves tm (n + 2) d avail := by
  have hself : Resumable tm (n + 2) d := .scheduled (by rw [hf, he]; exact .bitsBegin fixed l v h)
  have hstep : d.step tm false 0 avail = d.loadBitsBegin fixed l fs := by
    simp [step, hf, reads]
  unfold loadBitsBegin at hstep
  cases hsize : checkSize v .stringMaxLimit with
  | error e =>
    simp only [he, hsize] at hstep
    exact .of_fail hstep hself
  | ok sz =>
    simp only [he, hsize, hf] at hstep
    have hfail : Scheduled tm (n + 2) (.loadBitsBegin fixed l :: fs) (.val sz none :: es) :=
      .bitsBegin fixed l sz h
    have hnext : Scheduled tm (n + 1) (.loadBitsContinue l 0 :: fs) (.val sz none :: es) :=
      .bitsContinue l 0 sz h
    split_ifs at hstep with hlim
    · exact .of_failure hstep (zero_le _) (.scheduled hfail)
    cases fixed with
    | none => exact .of_next hstep hnext (lt_succ_self _)
    | some k =>
      simp only at hstep
      split_ifs at hstep with hk
      · exact .of_failure hstep (zero_le _) (.scheduled hfail)
      · exact .of_next hstep hnext (lt_succ_self _)

theorem loadBitsLoop_le (j : ℕ) (avail : List Byte) (off : ℕ) (h : off ≠ 0 → avail ≠ []) :
    (loadBitsLoop j avail off).2 ≤ avail.length := by
  induction j generalizing avail off with
  | zero =>
    unfold loadBitsLoop
    split_ifs with hoff
    · exact zero_le _
    · exact List.length_pos_iff.2 (h hoff)
  | succ j ih =>
    obtain _ | ⟨b, bs⟩ := avail
    · exact zero_le _
    · unfold loadBitsLoop
      simp only
      split_ifs with hoff
      · have := ih bs 0 (fun h0 => absurd rfl h0)
        simp only [List.length_cons]
        omega
      · exact ih (b :: bs) (off + 1) (fun _ => by simp)

theorem moves_bitsContinue (hf : d.fstk = .loadBitsContinue l s :: fs)
    (he : d.estk = .val v none :: es) (h : Scheduled tm n fs es) : Moves tm (n + 1) d avail := by
  cases d
  subst hf he
  have hle := loadBitsLoop_le (v - s) avail 0 (fun h0 => absurd rfl h0)
  by_cases hmore : s + (loadBitsLoop (v - s) avail 0).1.length < v
  · exact .of_wait (if_pos hmore) hle (.scheduled (.bitsContinue l _ v h))
  · exact .of_success (if_neg hmore) hle h (.inr (lt_succ_self _))

theorem mul_calls_lt (h : i < v) (n c : ℕ) : n + i * (c + 1) + c < n + v * (c + 1) := by
  have hmul : (i + 1) * (c + 1) ≤ v * (c + 1) := mul_le_mul_right _ h
  rw [add_mul, one_mul] at hmul
  omega

theorem moves_containerBegin {b : Bool}
    (hf : d.fstk = .loadContainerBegin b size t l :: fs) (he : d.estk = .val v none :: es)
    (h : Scheduled tm n fs es) : Moves tm (n + (v + 1) * (t.calls + 1)) d avail := by
  have hself : Resumable tm (n + (v + 1) * (t.calls + 1)) d :=
    .scheduled (by rw [hf, he]; exact .containerBegin b size t l v h)
  have hstep : d.step tm false 0 avail = d.loadContainerBegin b size t l fs := by
    simp [step, hf, reads]
  have hpop : n < n + (v + 1) * (t.calls + 1) :=
    Nat.lt_add_of_pos_right (Nat.mul_pos (Nat.succ_pos _) (Nat.succ_pos _))
  unfold loadContainerBegin at hstep
  cases hsize : checkSize v .containerMaxLimit with
  | error e =>
    simp only [he, hsize] at hstep
    exact .of_fail hstep hself
  | ok i =>
    have hi := checkSize_le hsize
    simp only [he, hsize, hf] at hstep
    by_cases hnull : i = invalidSize
    · rw [if_pos hnull] at hstep
      exact .of_done hstep h hpop
    rw [if_neg hnull] at hstep
    by_cases hlim : d.lmts.containerlimit < i
    · rw [if_pos hlim] at hstep
      exact .of_failure hstep (zero_le _) (.scheduled (.containerBegin b size t l i h))
    rw [if_neg hlim] at hstep
    by_cases hzero : i = 0
    · rw [if_pos hzero] at hstep
      cases b <;> exact .of_done hstep h hpop
    · rw [if_neg hzero] at hstep
      have hcont := Scheduled.containerContinue size t l (pos_of_ne_zero hzero) h
      have hlt := mul_calls_lt (lt_succ_of_le hi) n t.calls
      cases b <;> exact .of_next hstep (hcont.push _ t _) hlt

theorem moves_containerContinue
    (hf : d.fstk = .loadContainerContinue t l :: fs) (he : d.estk = .val i (some size) :: es)
    (hi : 0 < i) (h : Scheduled tm n fs es) (hok : Contained tm avail d) :
    Moves tm (n + i * (t.calls + 1)) d avail := by
  have hstep : d.step tm false 0 avail = d.loadContainerContinue false t l := by
    simp [step, hf, reads]
  unfold Contained at hok
  rw [hf] at hok
  unfold loadContainerContinue at hstep
  simp only [he, hf, true_and] at hstep
  by_cases hlast : i - 1 = 0
  · rw [if_neg (by simpa using hlast)] at hstep
    obtain rfl : i = 1 := by omega
    have hsize := hok size es he
    simp only [popSuccess, popExt, if_pos hsize, map_some] at hstep
    exact .of_done hstep h (by omega)
  · rw [if_pos (by simpa using hlast)] at hstep
    have hcont := Scheduled.containerContinue size t l (pos_of_ne_zero hlast) h
    exact .of_next hstep (hcont.push _ t _) (mul_calls_lt (by omega) n t.calls)

theorem moves_array {b : Bool} (hf : d.fstk = .loadArray b t l :: fs)
    (he : d.estk = .vals v 0 :: es) (h : Scheduled tm n fs es) :
    Moves tm (n + v * (t.calls + 1) + 2) d avail := by
  have hself : Resumable tm (n + v * (t.calls + 1) + 2) d :=
    .scheduled (by rw [hf, he]; exact .array b t l v h)
  have hstep : d.step tm false 0 avail = d.loadArray b t l fs := by
    simp [step, hf, reads]
  unfold loadArray at hstep
  cases hsize : checkSize v .arrayMaxLimit with
  | error e =>
    simp only [he, hsize] at hstep
    exact .of_fail hstep hself
  | ok i =>
    have hi := mul_le_mul_right (t.calls + 1) (checkSize_le hsize)
    simp only [he, hsize, hf] at hstep
    split_ifs at hstep with hnull hlim
    · exact .of_done hstep h (by omega)
    · exact .of_failure hstep (zero_le _) (.scheduled (.array b t l i h))
    · refine .of_next hstep (.arrayContinue t l i 0 h) ?_
      rw [Nat.sub_zero]
      omega
    · refine .of_next hstep (.arrayContinue t l i 0 h) ?_
      rw [Nat.sub_zero]
      omega

theorem moves_arrayContinue
    (hf : d.fstk = .loadArrayContinue t l :: fs) (he : d.estk = .vals v i :: es)
    (h : Scheduled tm n fs es) : Moves tm (n + (v - i) * (t.calls + 1) + 1) d avail := by
  have hstep : d.step tm false 0 avail = d.loadArrayContinue t l := by
    simp [step, hf, reads]
  unfold loadArrayContinue at hstep
  simp only [he, hf] at hstep
  split_ifs at hstep with hmore
  · have hcont := Scheduled.arrayContinue t l v (i + 1) h
    have hlt : v - (i + 1) < v - i := by omega
    have hcalls := mul_calls_lt hlt n t.calls
    exact .of_next hstep (hcont.push _ t _) (by omega)
  · simp only [popSuccess, popExt, he, map_some] at hstep
    exact .of_done hstep (by rw [hf]; exact h) (by omega)

theorem moves_pointerPrepare {j : ℕ} {sh : Bool} {base : ℕ}
    (hf : d.fstk = .loadPointerPrepare sh base l :: .popExtStack :: fs)
    (he : d.estk = .val v none :: es) (h : Scheduled tm n fs es) : Moves tm (j + 2) d avail := by
  cases d
  subst hf he
  exact .of_next rfl (.announced j _ trivial fun id =>
    .pointer sh base l id h) (lt_succ_self _)

theorem moves_pointer {sh : Bool} {base : ℕ}
    (hf : d.fstk = .loadPointer sh base l :: .popExtStack :: fs)
    (he : d.estk = .val v none :: es) (h : Scheduled tm n fs es) (hok : Contained tm avail d) :
    Moves tm (n + (tm sh base v).calls + 2) d avail := by
  have hstep : d.step tm false 0 avail = d.loadPointer tm sh base l (.popExtStack :: fs) := by
    simp [step, hf, reads]
  unfold Contained at hok
  rw [hf] at hok
  have hset := hok v none es he
  unfold loadPointer at hstep
  cases hload : tm sh base v with
  | undefined => exact absurd hload hset
  | error e =>
    simp only [he, hload] at hstep
    exact .of_failure hstep (zero_le _) (.scheduled (.popExtStack v h))
  | null =>
    simp only [he, hload] at hstep
    exact .of_next hstep (.popExtStack v h) (lt_succ_of_le (le_refl _))
  | object t =>
    simp only [he, hload] at hstep
    refine .of_next hstep (.plain rfl (.popExtStack v h)) ?_
    rw [PtrLoad.calls]
    omega

theorem moves_call {ctx : Bool}
    (hf : d.fstk = .loadCall ctx t l err :: fs) (he : d.estk = .call :: es)
    (h : Scheduled tm n fs es) : Moves tm (n + t.calls + 2) d avail := by
  have hstep : d.step tm false 0 avail = d.loadCall t l err fs := by
    simp [step, hf, reads]
  simp only [loadCall, popExt, he, map_some] at hstep
  refine .of_cont hstep (zero_le _) (.scheduled (Scheduled.push (n := n + 1) ?_ _ t l))
    (.inr (by omega))
  cases err.or d.err <;> exact .plain rfl h

/-! ## One call -/

theorem Scheduled.moves (h : Scheduled tm n d.fstk d.estk) (hne : d.fstk ≠ [])
    (hok : Contained tm avail d) (hlen : avail.length < 2 ^ 31) : Moves tm n d avail := by
  have hself : Resumable tm n d := .scheduled h
  generalize hf : d.fstk = fs0 at h hne
  generalize he : d.estk = es0 at h
  cases h with
  | nil => exact absurd rfl hne
  | plain hc h => exact moves_plain hf hc (he ▸ h) hok hlen
  | streamBegin p a hs h => exact moves_streamBegin hf hs (he ▸ h)
  | popExtStack v h =>
    obtain ⟨fstk, estk, mem, rdefaultlmts, lmts, err, streamerr, streamsz, tmpstr⟩ := d
    subst hf he
    exact .of_done rfl h (lt_succ_self _)
  | stringCheck l' l v h => exact moves_stringCheck hf he h
  | string l v h => exact moves_string hf he h
  | bitsBegin fixed l v h => exact moves_bitsBegin hf he h
  | bitsContinue l s v h => exact moves_bitsContinue hf he h
  | containerBegin b size t l v h => exact moves_containerBegin hf he h
  | containerContinue size t l hi h => exact moves_containerContinue hf he hi h hok
  | array b t l v h => exact moves_array hf he h
  | arrayContinue t l v i h => exact moves_arrayContinue hf he h
  | announced j m hslot h =>
    exact moves_loadCross hf (m := m) ⟨_, _, he, hslot, h⟩ hself hok
  | pointerPrepare j sh base l v h => exact moves_pointerPrepare hf he h
  | pointer sh base l v h => exact moves_pointer hf he h hok
  | call ctx t l err h => exact moves_call hf he h

/-- **One call** takes no more bytes than there are, and leaves stacks that fit
    together. -/
theorem Resumable.moves (h : Resumable tm n d) (hne : d.fstk ≠ []) (hok : Contained tm avail d)
    (hlen : avail.length < 2 ^ 31) : Moves tm n d avail := by
  cases h with
  | scheduled h => exact h.moves hne hok hlen
  | @crossContinue w dst fs s _ j m hf hs hst =>
    have hstep : d.step tm false 0 avail =
        d.loadCrossContinue s (.loadCrossDone w dst :: fs) avail := by
      simp [step, hf, reads]
    unfold loadCrossContinue at hstep
    simp only [if_neg (not_lt.2 hs.le)] at hstep
    have hlen' : ∀ p, p.length ≤ d.tmpstr.length - s →
        (overwrite d.tmpstr s p).length = d.tmpstr.length := by
      intro p hp
      exact overwrite_length (by omega)
    split_ifs at hstep with hmore
    · refine .of_wait hstep (min_le_right _ _) (.crossContinue j m rfl ?_ hst)
      simp only
      rw [hlen' _ (by rw [List.length_take]; omega)]
      omega
    · exact ⟨.success, _, _, hstep, min_le_right _ _, _, .crossDone m rfl hst,
        fun _ => .inl (by omega)⟩
  | @crossDone w dst fs _ m hf hst =>
    have hself : Resumable tm (m ((crossLoad w d.tmpstr).elim 0 Prod.fst) + 1) d :=
      .crossDone m hf hst
    cases hload : crossLoad w d.tmpstr with
    | none =>
      have hstep : d.step tm false 0 avail = d.fail .crossValueSmall := by
        simp [step, hf, reads, hload]
      exact .of_fail hstep hself
    | some r =>
      obtain ⟨v, j⟩ := r
      obtain ⟨d', hd', hf', hs⟩ := hst.store w v
      have hstep : d.step tm false 0 avail = some (.success, 0, d') := by
        simp [step, hf, reads, hload, hd']
      exact .of_done hstep (by rw [hf', hf]; exact hs) (lt_succ_self _)

end Moves

/-! ## `clear()` -/

/-- What a call does when `cpb` is null: it returns `SuccessE` and leaves `fstk` as it
    is, or it ends the loop. -/
def Drops (tm : TypeMap) (d : DeserializerBase) : Prop :=
  ∃ ret d' n', d.step tm true 0 [] = some (ret, 0, d') ∧ Resumable tm n' (d'.after ret) ∧
    (ret = .success ∧ d'.fstk = d.fstk ∨ ret = .wait ∨ ret = .failure)

section Drops
variable {tm : TypeMap} {n : ℕ} {d d' : DeserializerBase} {fs : List DFrame} {es : List DExt}

theorem Drops.of_success (hstep : d.step tm true 0 [] = some (.success, 0, d'))
    (hf : d'.fstk = d.fstk) (h : Scheduled tm n d.fstk.tail d'.estk) : Drops tm d := by
  have h' : Scheduled tm n d'.fstk.tail d'.estk := by rw [hf]; exact h
  exact ⟨.success, d', n, hstep, .scheduled h', .inl ⟨rfl, hf⟩⟩

theorem drops_loadUtf8 {l : Loc} (hf : d.fstk = .loadUtf8 l :: fs) (hself : Resumable tm n d) :
    Drops tm d := by
  have hstep : d.step tm true 0 [] = d.loadUtf8 l [] := by
    simp [step, hf, reads]
  unfold loadUtf8 at hstep
  simp only at hstep
  split_ifs at hstep with hlim hmax hall
  · exact ⟨.failure, _, _, hstep, hself.congr rfl rfl rfl, .inr (.inr rfl)⟩
  · exact ⟨.failure, _, _, hstep, hself.congr rfl rfl rfl, .inr (.inr rfl)⟩
  · exact ⟨.wait, _, _, hstep, hself.congr rfl rfl rfl, .inr (.inl rfl)⟩
  · exact absurd rfl hall

theorem drops_containerContinue {i : ℕ} {t : Ty} {l : Loc}
    (hf : d.fstk = .loadContainerContinue t l :: fs) (he : d.estk = .val i (some size) :: es)
    (h : Scheduled tm n fs es) (hok : Clearable d) : Drops tm d := by
  have hstep : d.step tm true 0 [] = d.loadContainerContinue true t l := by
    simp [step, hf, reads]
  unfold Clearable at hok
  rw [hf] at hok
  have hsize := hok i size es he
  simp only [loadContainerContinue, he, Bool.true_eq_false, false_and, if_false,
    popSuccess, popExt, if_pos hsize, map_some] at hstep
  exact .of_success hstep rfl (by rw [hf]; exact h)

theorem drops_plain {f : DFrame} {c : ℕ} (hf : d.fstk = f :: fs) (hc : DFrame.calls f = some c)
    (h : Scheduled tm n fs d.estk) : Drops tm d := by
  have hself : Resumable tm (n + c) d := .scheduled (by rw [hf]; exact .plain hc h)
  cases d
  subst hf
  cases f with
  | loadUtf8 l => exact drops_loadUtf8 rfl hself
  | loadReturnError e => exact ⟨.failure, _, _, rfl, hself.congr rfl rfl rfl, .inr (.inr rfl)⟩
  | loadCross w dst => cases dst with
    | top => cases hc
    | loc l => exact .of_success rfl rfl h
  | _ => first | exact .of_success rfl rfl h | cases hc

theorem Scheduled.drops (h : Scheduled tm n d.fstk d.estk) (hne : d.fstk ≠ [])
    (hok : Clearable d) : Drops tm d := by
  obtain ⟨fstk, estk, mem, rdefaultlmts, lmts, err, streamerr, streamsz, tmpstr⟩ := d
  dsimp only at h
  cases h with
  | nil => exact absurd rfl hne
  | plain hc h => exact drops_plain rfl hc h
  | streamBegin p a hs h => exact .of_success rfl rfl (.plain hs.calls h)
  | stringCheck l' l v h => exact .of_success rfl rfl (.string l v h)
  | containerContinue size t l hi h => exact drops_containerContinue rfl rfl h hok
  | @announced _ _ e j m hslot h =>
    obtain ⟨v, hv⟩ := e.exists_setFirst
    have hrest := h v
    rw [hv] at hrest
    exact .of_success rfl rfl hrest
  | pointerPrepare j sh base l v h => exact .of_success rfl rfl (.popExtStack v h)
  | pointer sh base l v h => exact .of_success rfl rfl (.popExtStack v h)
  | call ctx t l err h =>
    cases ctx with
    | true => cases hok
    | false => exact .of_success rfl rfl h
  | array | arrayContinue | popExtStack | string | bitsBegin | bitsContinue | containerBegin =>
    exact .of_success rfl rfl (by assumption)

theorem Resumable.drops (h : Resumable tm n d) (hne : d.fstk ≠ []) (hok : Clearable d) :
    Drops tm d := by
  cases h with
  | scheduled h => exact h.drops hne hok
  | @crossContinue w dst fs s _ j m hf hs hst =>
    have hstep : d.step tm true 0 [] = some (.success, 0, d) := by
      simp [step, hf]
    refine ⟨.success, d, _, hstep, .crossDone (w := w) m ?_ hst, .inl ⟨rfl, rfl⟩⟩
    simp [after, hf]
  | @crossDone w dst fs _ m hf hst =>
    have hstep : d.step tm true 0 [] = some (.success, 0, d) := by
      simp [step, hf, reads]
    cases dst with
    | loc l => exact .of_success hstep rfl (by rw [hf]; exact hst 0)
    | top =>
      obtain ⟨e, es, he, hslot, h⟩ := hst
      obtain ⟨v, hv⟩ := e.exists_setFirst
      have hrest := h v
      rw [hv, ← he] at hrest
      exact .of_success hstep rfl (by rw [hf]; exact hrest)

end Drops

end SolidFrame
