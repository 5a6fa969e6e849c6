/-
  SolidFrame formalization — what a serializer still has to send.

  `Sending K n s pl`: the stacks of the serializer `s` are those of a run over
  well-formed objects, `pl` is what it has to send, and `n` bounds the number of
  functions it has to call.
-/
import SolidFrame.Serialization.Serializer

namespace SolidFrame

open IStream List Nat SerializerBase

def Sendable (d : List Byte) : Prop := d ≠ [] ∧ d.length ≤ maxValueWithoutCrc .w16

/-- A piece takes what is left to be sent from `pl` to `pl'`. -/
abbrev Sent (pl : List Wire) (p : List Byte) (pl' : List Wire) : Prop :=
  Cut Sendable streamChunk (store16 0) pl p pl'

/-- What `storeStream` will still send. -/
def IStream.avail (ris : IStream) (len : ℕ) : List Byte :=
  if len = invalidSize then ris.rest else ris.rest.take len

/-- The number of calls that storing an object takes. -/
def cost : Ty → Obj → ℕ
  | .str, .str _ => 4
  | .utf8, .str _ => 2
  | .bitset _, .bits _ => 4
  | .bitvec, .bits _ => 4
  | .container _ _ t, .seq os => 4 + (os.map fun o => cost t o + 1).sum
  | .array _ _ t, .arr os n => 4 + ((os.take n).map fun o => cost t o + 1).sum
  | .pair t u, .pair a b => cost t a + cost u b
  | .struct _ t, o => cost t o + 1
  | .stream none _, .istream s => s.rest.length + 2
  | .stream (some arg) _, .istream s => (requested s (some arg)).length + 3
  | .unit, _ => 0
  | _, _ => 1

def BinSize.Holds : BinSize → List Byte → Prop
  | .b0, _ => True
  | .b1, p => p.length = 1
  | .b2, p => p.length = 2
  | .b4, p => p.length = 4
  | .b8, p => p.length = 8

/-- The sizes of the object are within the limits of a serializer. -/
def StoreWithin (L : Limits) : Ty → Obj → Prop
  | .str, .str c => c.length ≤ L.stringlimit
  | .utf8, .str c => c.length ≤ L.stringlimit
  | .bitset _, .bits bs => bs.length ≤ L.containerlimit
  | .bitvec, .bits bs => bs.length ≤ L.containerlimit
  | .container _ _ t, .seq os => os.length ≤ L.containerlimit ∧ ∀ o ∈ os, StoreWithin L t o
  | .array _ _ t, .arr os n => n ≤ L.containerlimit ∧ ∀ o ∈ os.take n, StoreWithin L t o
  | .pair t u, .pair a b => StoreWithin L t a ∧ StoreWithin L u b
  | .struct _ t, o => StoreWithin L t o
  | _, _ => True

/-- The limits of a serializer, and whether what is stored meets them. -/
structure Quota where
  lmts : Limits
  met : Prop

def Quota.unlimited : Quota := ⟨.unlimited, True⟩

/-- The object can be stored; it is within the limits when all that is stored is. -/
structure Storable (K : Quota) (t : Ty) (o : Obj) : Prop where
  hasTy : HasTy t o
  fits : Fits t o
  within : K.met → StoreWithin K.lmts t o
  stream : Streamless t ∨ K.lmts.streamlimit = invalidSize

def costs (t : Ty) (os : List Obj) : ℕ := (os.map fun o => cost t o + 1).sum

/-- The stacks are those of a run that has `pl` to send.  What is below a function that
    checks a limit counts only when the limit is met. -/
inductive SPlan (K : Quota) : ℕ → List SFrame → List SExt → List Wire → Prop where
  | nil : K.met → SPlan K 0 [] [] []
  | popExtStack {n fs es pl} (e : SExt) :
      SPlan K n fs es pl → SPlan K (n + 1) (.popExtStack :: fs) (e :: es) pl
  | storeBinary {n fs es pl k p} : BinSize.Holds k p → SPlan K n fs es pl →
      SPlan K (n + 1) (.storeBinary k p :: fs) es (bytes p ++ pl)
  | storeBool {n fs es pl} (b : Bool) :
      SPlan K n fs es pl → SPlan K (n + 1) (.storeBool b :: fs) es
      (bytes [if b then 1 else 0] ++ pl)
  | storeInt {n fs es pl w p} : p.length = Width.bytes w → SPlan K n fs es pl →
      SPlan K (n + 1) (.storeInt w p :: fs) es (bytes p ++ pl)
  | storeString {n fs es pl c} :
      c.length ≤ maxValueWithoutCrc .w64 → (K.met → c.length ≤ K.lmts.stringlimit) →
      (c.length ≤ K.lmts.stringlimit → SPlan K n fs es pl) →
      SPlan K (n + 4) (.storeString c :: fs) es (bytes (sizeBytes c.length) ++ (bytes c ++ pl))
  | storeStreamBegin {n fs es pl len} (ris : IStream) :
      K.lmts.streamlimit = invalidSize → len ≤ invalidSize → SPlan K n fs es pl →
      SPlan K (n + (ris.avail len).length + 2)
        (.storeStreamBegin false invalidSize :: .storeStream ris len :: fs) es
        (.chunks (ris.avail len) :: pl)
  | storeStreamSeek {n fs es pl len} (ris : IStream) (from_ : ℕ) :
      K.lmts.streamlimit = invalidSize → len ≤ invalidSize → from_ ≠ invalidSize →
      (ris.seekg from_).tellg = some from_ → SPlan K n fs es pl →
      SPlan K (n + ((ris.seekg from_).avail len).length + 2)
        (.storeStreamBegin false from_ :: .storeStream ris len :: fs) es
        (.chunks ((ris.seekg from_).avail len) :: pl)
  | storeStreamCheck {n fs es pl v} :
      K.lmts.streamlimit = invalidSize → v ≤ invalidSize → SPlan K n fs es pl →
      SPlan K (n + 1) (.storeStreamCheck v :: fs) es pl
  | storeStream {n fs es pl len} (ris : IStream) :
      K.lmts.streamlimit = invalidSize → len ≤ invalidSize → SPlan K n fs es pl →
      SPlan K (n + (ris.avail len).length + 1) (.storeStream ris len :: fs) es
        (.chunks (ris.avail len) :: pl)
  | storeUtf8 {n fs es pl p} :
      p.length - 1 ≤ maxValueWithoutCrc .w32 → (K.met → p.length - 1 ≤ K.lmts.stringlimit) →
      (p.length - 1 ≤ K.lmts.stringlimit → SPlan K n fs es pl) →
      SPlan K (n + 2) (.storeUtf8 p :: fs) es (bytes p ++ pl)
  | storeCross {n fs es pl w v} : v < Width.bound w → SPlan K n fs es pl →
      SPlan K (n + 1) (.storeCross w v :: fs) es (bytes (crossBytes w v) ++ pl)
  | storeBits {n fs es pl bs} :
      bs.length ≤ maxValueWithoutCrc .w64 → (K.met → bs.length ≤ K.lmts.containerlimit) →
      (bs.length ≤ K.lmts.containerlimit → SPlan K n fs es pl) →
      SPlan K (n + 4) (.storeBits bs :: fs) es
        (bytes (sizeBytes bs.length) ++ (bytes (bitsBytes bs) ++ pl))
  | storeBitsContinue {n fs es pl} (bs : List Bool) (k : ℕ) : SPlan K n fs es pl →
      SPlan K (n + 1) (.storeBitsContinue bs k :: fs) es (bytes (bitsBytes (bs.drop k)) ++ pl)
  | storeContainer {n fs es pl t c} :
      c.length ≤ maxValueWithoutCrc .w64 → (K.met → c.length ≤ K.lmts.containerlimit) →
      (∀ o ∈ c, Storable K t o) →
      (c.length ≤ K.lmts.containerlimit ∧ (∀ o ∈ c, StoreWithin K.lmts t o) → SPlan K n fs es pl) →
      SPlan K (n + costs t c + 4) (.storeContainer t (some c) :: fs) es
        (bytes (sizeBytes c.length) ++ (c.flatMap (wire t) ++ pl))
  | storeContainerContinue {n fs es pl t rest} : (∀ o ∈ rest, Storable K t o) →
      ((∀ o ∈ rest, StoreWithin K.lmts t o) → SPlan K n fs es pl) →
      SPlan K (n + costs t rest + 1) (.storeContainerContinue t :: fs) (.iter rest :: es)
        (rest.flatMap (wire t) ++ pl)
  | storeArray {n fs es pl t c k} :
      k ≤ c.length → k ≤ maxValueWithoutCrc .w64 → (K.met → k ≤ K.lmts.containerlimit) →
      (∀ o ∈ c.take k, Storable K t o) →
      (k ≤ K.lmts.containerlimit ∧ (∀ o ∈ c.take k, StoreWithin K.lmts t o) → SPlan K n fs es pl) →
      SPlan K (n + costs t (c.take k) + 4) (.storeArray t (some c) :: fs) (.vals k 0 :: es)
        (bytes (sizeBytes k) ++ ((c.take k).flatMap (wire t) ++ pl))
  | storeArrayContinue {n fs es pl t c k i} :
      k ≤ c.length → (∀ o ∈ (c.take k).drop i, Storable K t o) →
      ((∀ o ∈ (c.take k).drop i, StoreWithin K.lmts t o) → SPlan K n fs es pl) →
      SPlan K (n + costs t ((c.take k).drop i) + 1) (.storeArrayContinue t c :: fs)
      (.vals k i :: es)
        (((c.take k).drop i).flatMap (wire t) ++ pl)
  | store {n fs es pl t o} : Storable K t o → (StoreWithin K.lmts t o → SPlan K n fs es pl) →
      SPlan K (n + cost t o + 1) (.store t o :: fs) es (wire t o ++ pl)

/-- What is left to be sent, with the rest of a cross integer on top. -/
inductive STop (K : Quota) : ℕ → SerializerBase → List Wire → Prop where
  | plan {n s pl} : SPlan K n s.fstk s.estk pl → STop K n s pl
  | cross {n fs pl k} {s : SerializerBase} :
      s.fstk = .storeCrossContinue k :: fs → k < s.tmpstr.length → SPlan K n fs s.estk pl →
      STop K (n + 1) s (bytes (s.tmpstr.drop k) ++ pl)

structure SClean (K : Quota) (s : SerializerBase) : Prop where
  lmts : s.lmts = K.lmts
  rdefaultlmts : s.rdefaultlmts = K.lmts
  err : s.err = none
  streamerr : s.streamerr = none

/-- The serializer has `pl` to send, without an error so far. -/
structure Sending (K : Quota) (n : ℕ) (s : SerializerBase) (pl : List Wire) : Prop
    extends SClean K s where
  top : STop K n s pl

/-! ## The parts of an object -/

/-- What `storeBinary` leaves: all of `p` is out, or the room is full and the frame holds
    the rest. -/
def Stored (p : List Byte) (room : ℕ) (r : Ret × List Byte × SFrame) : Prop :=
  (r.1 = .success ∧ r.2.1 = p ∧ p.length ≤ room) ∨
  (r.1 = .wait ∧ ∃ k' q, r.2.2 = .storeBinary k' q ∧ p = r.2.1 ++ q ∧ q ≠ [] ∧ BinSize.Holds k' q ∧
    r.2.1.length = room)

variable {p : List Byte} {k : BinSize} {m : ℕ}
variable {w : Width} {out : List Byte} {f : SFrame} {o : Obj}

theorem Stored.all {room : ℕ} (hp : p.length = m) (hm : m ≤ room) :
    Stored p room (.success, p.take m, f) := by
  subst hp
  exact Or.inl ⟨rfl, take_length, hm⟩

theorem Stored.part {room : ℕ} (hm : m < p.length) (hroom : m = room) (hk : k.Holds (p.drop m)) :
    Stored p room (.wait, p.take m, .storeBinary k (p.drop m)) := by
  refine Or.inr ⟨rfl, k, p.drop m, rfl, (take_append_drop m p).symm, ?_, hk, ?_⟩
  · intro he
    have hlen := congrArg List.length he
    rw [length_drop, length_nil] at hlen
    omega
  · rw [length_take]
    omega

theorem Stored.none {room : ℕ} (hp : 0 < p.length)
    (hroom : 0 = room) (hk : k.Holds p) : Stored p room (.wait, [], .storeBinary k p) :=
  Stored.part hp hroom hk

theorem Stored.ite {room : ℕ} {c : Prop} [Decidable c]
    {r r' : Ret × List Byte × SFrame} (h : c → Stored p room r) (h' : ¬ c → Stored p room r') :
    Stored p room (if c then r else r') := by
  split_ifs with hc
  · exact h hc
  · exact h' hc

theorem BinSize.holds_drop {n : ℕ} (hp : p.length = n)
    (hk : ∀ q : List Byte, q.length = n - m → k.Holds q) : k.Holds (p.drop m) :=
  hk _ (by rw [length_drop, hp])

theorem storeBinary_stored {room : ℕ} (h : k.Holds p) : Stored p room (storeBinary k p room) := by
  have b0 : ∀ q : List Byte, BinSize.Holds .b0 q := fun _ => trivial
  have b1 : ∀ q : List Byte, q.length = 1 → BinSize.Holds .b1 q := fun _ hq => hq
  have b2 : ∀ q : List Byte, q.length = 2 → BinSize.Holds .b2 q := fun _ hq => hq
  have b4 : ∀ q : List Byte, q.length = 4 → BinSize.Holds .b4 q := fun _ hq => hq
  cases k with
  | b0 =>
    rw [storeBinary]
    by_cases hle : p.length ≤ room
    · rw [Nat.min_eq_right hle, Nat.sub_self, if_pos rfl]
      exact Stored.all rfl hle
    · rw [min_eq_left (by omega), if_neg (by omega)]
      exact Stored.part (by omega) rfl (b0 _)
  | b1 =>
    have hp : p.length = 1 := h
    rw [storeBinary]
    refine .ite (fun h1 => .all hp h1) fun h1 => ?_
    exact .none (by omega) (by omega) hp
  | b2 =>
    have hp : p.length = 2 := h
    rw [storeBinary]
    refine .ite (fun h2 => .all hp h2) fun h2 => ?_
    refine .ite (fun h1 => .part (by omega) (by omega) (BinSize.holds_drop hp b1)) fun h1 => ?_
    exact .none (by omega) (by omega) hp
  | b4 =>
    have hp : p.length = 4 := h
    rw [storeBinary]
    refine .ite (fun h4 => .all hp h4) fun h4 => ?_
    refine .ite (fun h3 => .part (by omega) (by omega) (BinSize.holds_drop hp b1)) fun h3 => ?_
    refine .ite (fun h2 => .part (by omega) (by omega) (BinSize.holds_drop hp b2)) fun h2 => ?_
    refine .ite (fun h1 => .part (by omega) (by omega) (b0 _)) fun h1 => ?_
    exact .none (by omega) (by omega) (b0 _)
  | b8 =>
    have hp : p.length = 8 := h
    rw [storeBinary]
    refine .ite (fun h8 => .all hp h8) fun h8 => ?_
    refine .ite (fun h7 => .part (by omega) (by omega) (BinSize.holds_drop hp b1)) fun h7 => ?_
    refine .ite (fun h6 => .part (by omega) (by omega) (BinSize.holds_drop hp b2)) fun h6 => ?_
    refine .ite (fun h5 => .part (by omega) (by omega) (b0 _)) fun h5 => ?_
    refine .ite (fun h4 => .part (by omega) (by omega) (BinSize.holds_drop hp b4)) fun h4 => ?_
    refine .ite (fun h3 => .part (by omega) (by omega) (b0 _)) fun h3 => ?_
    refine .ite (fun h2 => .part (by omega) (by omega) (b0 _)) fun h2 => ?_
    refine .ite (fun h1 => .part (by omega) (by omega) (b0 _)) fun h1 => ?_
    exact .none (by omega) (by omega) (b0 _)

/-- `storeBinary<S>` stores its bytes, or as many as the buffer takes and
    continues with the others. -/
theorem storeBinary_spec {room : ℕ} {ret : Ret}
    (h : k.Holds p) (hr : storeBinary k p room = (ret, out, f)) :
    (ret = .success ∧ out = p ∧ p.length ≤ room) ∨
    (ret = .wait ∧ ∃ k' q, f = .storeBinary k' q ∧ p = out ++ q ∧ q ≠ [] ∧ BinSize.Holds k' q ∧
      out.length = room) := by
  have hstored : Stored p room (storeBinary k p room) := storeBinary_stored h
  rw [hr] at hstored
  exact hstored

theorem Width.binSize_holds (h : p.length = w.bytes) : w.binSize.Holds p := by
  cases w <;> exact h

/-- The bit loop stores the bytes of the bits it passes, and stops only at the
    end of a full buffer. -/
theorem storeBitsLoop_spec (bs : List Bool) (room off cur : ℕ) (h : room = 0 → off = 0) :
    bitsAcc bs off (if off = 0 then 0 else cur) =
      (storeBitsLoop bs room off cur).1 ++ bitsBytes (storeBitsLoop bs room off cur).2 ∧
    (storeBitsLoop bs room off cur).1.length ≤ room ∧
    ((storeBitsLoop bs room off cur).2 ≠ [] → (storeBitsLoop bs room off cur).1.length = room) ∧
    (storeBitsLoop bs room off cur).2 <:+ bs := by
  induction bs generalizing room off cur with
  | nil =>
    by_cases hoff : off = 0
    · simp [storeBitsLoop, bitsAcc, bitsBytes, hoff]
    · have hroom : 1 ≤ room := by
        by_contra hr
        exact hoff (h (by omega))
      simp [storeBitsLoop, bitsAcc, bitsBytes, hoff, hroom]
  | cons b bs ih =>
    cases room with
    | zero =>
      have hoff := h rfl
      subst hoff
      simp [storeBitsLoop, bitsBytes]
    | succ room =>
      set cur' := (if off = 0 then 0 else cur) ||| if b then 1 <<< off else 0 with hcur
      by_cases hoff : off + 1 = 8
      · obtain ⟨hacc, hle, hfull, hsuf⟩ := ih room 0 0 (fun _ => rfl)
        have hacc' : bitsAcc bs 0 0 =
            (storeBitsLoop bs room 0 0).1 ++ bitsBytes (storeBitsLoop bs room 0 0).2 := by
          simpa using hacc
        refine ⟨?_, ?_, ?_, ?_⟩
        · simp only [bitsAcc, storeBitsLoop, if_pos hoff, hacc', cons_append]
        · simp only [storeBitsLoop, if_pos hoff, length_cons]
          omega
        · simp only [storeBitsLoop, if_pos hoff, length_cons]
          intro hne
          rw [hfull hne]
        · simp only [storeBitsLoop, if_pos hoff]
          exact hsuf.trans (suffix_cons b bs)
      · obtain ⟨hacc, hle, hfull, hsuf⟩ := ih (room + 1) (off + 1) cur' (by omega)
        rw [if_neg (by omega)] at hacc
        refine ⟨?_, ?_, ?_, ?_⟩
        · simp only [bitsAcc, storeBitsLoop, if_neg hoff]
          exact hacc
        · simpa only [storeBitsLoop, if_neg hoff] using hle
        · simpa only [storeBitsLoop, if_neg hoff] using hfull
        · simp only [storeBitsLoop, if_neg hoff]
          exact hsuf.trans (suffix_cons b bs)

theorem bitsAcc_ne_nil (b : Bool) (bs : List Bool) (off cur : ℕ) :
    bitsAcc (b :: bs) off cur ≠ [] := by
  induction bs generalizing b off cur with
  | nil =>
    simp only [bitsAcc]
    split <;> simp
  | cons b' bs ih =>
    rw [bitsAcc]
    split
    · simp
    · exact ih _ _ _

theorem IStream.read_rest (ris : IStream) (n : ℕ) (h : ris.fail = false) :
    (ris.read n).1 = ris.rest.take n ∧ (ris.read n).2.rest = ris.rest.drop n := by
  have hrest : ris.rest = ris.content.drop ris.pos := by simp [rest, h]
  refine ⟨by rw [hrest]; rfl, ?_⟩
  simp only [rest, read, h, length_take, decide_eq_true_eq, length_drop]
  by_cases hlt : min n (ris.content.length - ris.pos) < n
  · rw [if_pos hlt, eq_comm, if_neg Bool.false_ne_true, drop_drop, drop_eq_nil_iff]
    omega
  · rw [if_neg hlt, if_neg Bool.false_ne_true, drop_drop]
    congr 1
    omega

/-! ## One call -/

/-- The state from which `run` goes on: `SuccessE` pops the function. -/
def SerializerBase.after (ret : Ret) (s : SerializerBase) : SerializerBase :=
  match ret with
  | .success => { s with fstk := s.fstk.tail }
  | _ => s

/-- Why a call returns `WaitE`: the buffer is full, or a stream is next and the
    buffer is too small for it. -/
def Stopped (room : ℕ) (out : List Byte) (pl : List Wire) : Prop :=
  out.length = room ∨ out = [] ∧ (∃ d pl', pl = .chunks d :: pl') ∧
      (toInt32 room < minStreamBufferSize ∨ room < minStreamBufferSize)

/-- One call stores a piece of what is left to be sent; or it fails, when what is stored
    does not meet the limits. -/
def Advances (K : Quota) (n : ℕ) (s : SerializerBase) (pl : List Wire) (room : ℕ) : Prop :=
  (∃ ret out s' n' pl', s.step false room = some (ret, out, s') ∧ ret ≠ .failure ∧
    out.length ≤ room ∧ Sent pl out pl' ∧ Sending K n' (s'.after ret) pl' ∧
    (ret ≠ .wait → n' < n) ∧ (ret = .wait → pl' ≠ [] ∧ Stopped room out pl)) ∨
  (¬ K.met ∧ ∃ out s', s.step false room = some (.failure, out, s'))

section Advances
variable {K : Quota} {n n' room : ℕ} {s : SerializerBase} {pl : List Wire}

variable {s' : SerializerBase}

theorem Advances.of_cont (hstep : s.step false room = some (.cont, [], s'))
    (h : Sending K n' s' pl) (hn : n' < n) : Advances K n s pl room :=
  .inl ⟨.cont, [], s', n', pl, hstep, by simp, by simp, .nil pl, h, fun _ => hn, by simp⟩

theorem Advances.of_success
    (hstep : s.step false room = some (.success, out, s')) (hle : out.length ≤ room)
    (h : Sending K n' { s' with fstk := s'.fstk.tail } pl) (hn : n' < n) :
    Advances K n s (bytes out ++ pl) room :=
  .inl ⟨.success, out, s', n', pl, hstep, by simp, hle, Cut.bytes out pl, h, fun _ => hn, by simp⟩

theorem Advances.of_wait {q : List Byte}
    (hstep : s.step false room = some (.wait, out, s')) (hroom : out.length = room)
    (hq : q ≠ []) (h : Sending K n' s' (bytes q ++ pl)) :
    Advances K n s (bytes (out ++ q) ++ pl) room := by
  refine .inl ⟨.wait, out, s', n', bytes q ++ pl, hstep, by simp, hroom.le,
    Cut.bytes_append out q pl, h, by simp, fun _ => ⟨?_, .inl hroom⟩⟩
  cases q with
  | nil => exact absurd rfl hq
  | cons b q => simp

end Advances

/-! ## The functions one by one -/

section Steps
variable {K : Quota} {n room : ℕ} {s : SerializerBase} {fs : List SFrame} {es : List SExt}
  {pl : List Wire}

theorem SClean.sending {fs : List SFrame} {es : List SExt} {tmp : List Byte} {sz : ℕ}
    (hc : SClean K s) (hp : SPlan K n fs es pl) :
    Sending K n { s with fstk := fs, estk := es, tmpstr := tmp, streamsz := sz } pl :=
  ⟨⟨hc.lmts, hc.rdefaultlmts, hc.err, hc.streamerr⟩, .plan hp⟩

variable {k : ℕ} {p : List Byte}

theorem SClean.sending_cross {tmp : List Byte} (hc : SClean K s) (hk : k < tmp.length)
    (hp : SPlan K n fs s.estk pl) :
    Sending K (n + 1) { s with fstk := .storeCrossContinue k :: fs, tmpstr := tmp }
      (bytes (tmp.drop k) ++ pl) :=
  ⟨⟨hc.lmts, hc.rdefaultlmts, hc.err, hc.streamerr⟩,
    STop.cross (s := { s with fstk := .storeCrossContinue k :: fs, tmpstr := tmp }) rfl hk hp⟩

theorem advances_popExtStack {e : SExt} (hc : SClean K s) (hf : s.fstk = .popExtStack :: fs)
    (he : s.estk = e :: es) (hp : SPlan K n fs es pl) : Advances K (n + 1) s pl room := by
  have hstep : s.step false room = some (.success, [], { s with estk := es }) := by
    simp only [step, hf, he]
  refine Advances.of_success hstep (zero_le _) ?_ (lt_succ_self n)
  rw [hf]
  exact hc.sending hp

theorem advances_binary {k : BinSize} (hc : SClean K s) (hk : k.Holds p)
    (hstep : s.step false room = some ((storeBinary k p room).1, (storeBinary k p room).2.1,
      { s with fstk := (storeBinary k p room).2.2 :: fs }))
    (hp : SPlan K n fs s.estk pl) : Advances K (n + 1) s (bytes p ++ pl) room := by
  rcases hr : storeBinary k p room with ⟨ret, out, f'⟩
  rw [hr] at hstep
  rcases storeBinary_spec hk hr with ⟨rfl, rfl, hle⟩ | ⟨rfl, k', q, rfl, rfl, hq, hk', hroom⟩
  · exact Advances.of_success hstep hle (hc.sending hp) (lt_succ_self n)
  · exact Advances.of_wait hstep hroom hq (hc.sending (.storeBinary hk' hp))

theorem advances_storeBinary {k : BinSize} (hc : SClean K s)
    (hf : s.fstk = .storeBinary k p :: fs) (hk : k.Holds p) (hp : SPlan K n fs s.estk pl) :
    Advances K (n + 1) s (bytes p ++ pl) room :=
  advances_binary hc hk (by simp [step, hf]) hp

theorem advances_storeInt (hc : SClean K s)
    (hf : s.fstk = .storeInt w p :: fs) (hw : p.length = w.bytes) (hp : SPlan K n fs s.estk pl) :
    Advances K (n + 1) s (bytes p ++ pl) room :=
  advances_binary hc (Width.binSize_holds hw) (by simp [step, hf]) hp

theorem advances_storeBool {b : Bool} (hc : SClean K s) (hf : s.fstk = .storeBool b :: fs)
    (hp : SPlan K n fs s.estk pl) :
    Advances K (n + 1) s (bytes [if b then 1 else 0] ++ pl) room := by
  by_cases hroom : 1 ≤ room
  · have hstep : s.step false room = some (.success, [if b then 1 else 0], s) := by
      simp [step, hf, hroom]
    refine Advances.of_success hstep hroom ?_ (lt_succ_self n)
    rw [hf]
    exact hc.sending hp
  · have hstep : s.step false room = some (.wait, [], s) := by
      simp [step, hf, hroom]
    exact Advances.of_wait (q := [if b then 1 else 0]) hstep (by simp; omega) (by simp)
      ⟨hc, .plan (by rw [hf]; exact .storeBool b hp)⟩

theorem advances_announce {crcsz m : ℕ} (hc : SClean K s)
    (hcrc : computeValueWithCrc .w64 k = some crcsz)
    (hstep : s.step false room = s.announce f fs crcsz es) (hp : SPlan K n (f :: fs) es pl)
    (hm : n + 2 < m) : Advances K m s (bytes (sizeBytes k) ++ pl) room := by
  have hsz : sizeBytes k = crossBytes .w64 crcsz := by rw [sizeBytes, hcrc]; rfl
  rw [hsz]
  refine Advances.of_cont hstep (hc.sending (.storeCross ?_ (.popExtStack _ hp))) hm
  exact computeValueWithCrc_lt hcrc

theorem exists_crc (h : k ≤ maxValueWithoutCrc .w64) :
    ∃ crcsz, computeValueWithCrc .w64 k = some crcsz :=
  Option.isSome_iff_exists.1 (computeValueWithCrc_isSome.2 h)

theorem maxValueWithoutCrc_lt_invalidSize (w : Width) : maxValueWithoutCrc w < invalidSize := by
  cases w <;> decide

theorem Advances.of_limit {size limit : ℕ} {e : SerError} (hmet : K.met → size ≤ limit)
    (hfail : limit < size → s.step false room = s.fail e)
    (h : size ≤ limit → Advances K n s pl room) : Advances K n s pl room := by
  by_cases hle : size ≤ limit
  · exact h hle
  · exact .inr ⟨fun hm => hle (hmet hm), _, _, hfail (not_le.1 hle)⟩

section
variable (hc : SClean K s)
include hc

theorem advances_storeString {c : List Byte} (hf : s.fstk = .storeString c :: fs)
    (hlen : c.length ≤ maxValueWithoutCrc .w64) (hmet : K.met → c.length ≤ K.lmts.stringlimit)
    (hp : c.length ≤ K.lmts.stringlimit → SPlan K n fs s.estk pl) :
    Advances K (n + 4) s (bytes (sizeBytes c.length) ++ (bytes c ++ pl)) room := by
  obtain ⟨crcsz, hcrc⟩ := exists_crc hlen
  refine .of_limit hmet (e := .stringLimit) (fun hlt => ?_) fun hle => ?_
  · simp [step, hf, hc.lmts, hlt]
  · have hstep : s.step false room = s.announce (.storeBinary .b0 c) fs crcsz s.estk := by
      simp [step, hf, hc.lmts, not_lt.2 hle, hcrc]
    exact advances_announce hc hcrc hstep (.storeBinary trivial (hp hle)) (by omega)

theorem advances_storeBits {bs : List Bool} (hf : s.fstk = .storeBits bs :: fs)
    (hlen : bs.length ≤ maxValueWithoutCrc .w64)
    (hmet : K.met → bs.length ≤ K.lmts.containerlimit)
    (hp : bs.length ≤ K.lmts.containerlimit → SPlan K n fs s.estk pl) :
    Advances K (n + 4) s (bytes (sizeBytes bs.length) ++ (bytes (bitsBytes bs) ++ pl)) room := by
  obtain ⟨crcsz, hcrc⟩ := exists_crc hlen
  refine .of_limit hmet (e := .containerLimit) (fun hlt => ?_) fun hle => ?_
  · simp [step, hf, hc.lmts, hlt]
  · have hstep : s.step false room = s.announce (.storeBitsContinue bs 0) fs crcsz s.estk := by
      simp [step, hf, hc.lmts, not_lt.2 hle, hcrc]
    exact advances_announce hc hcrc hstep (.storeBitsContinue bs 0 (hp hle)) (by omega)

theorem advances_storeContainer {t : Ty} {c : List Obj}
    (hf : s.fstk = .storeContainer t (some c) :: fs) (hlen : c.length ≤ maxValueWithoutCrc .w64)
    (hmet : K.met → c.length ≤ K.lmts.containerlimit) (hst : ∀ o ∈ c, Storable K t o)
    (hp : c.length ≤ K.lmts.containerlimit ∧ (∀ o ∈ c, StoreWithin K.lmts t o) →
      SPlan K n fs s.estk pl) :
    Advances K (n + costs t c + 4) s
      (bytes (sizeBytes c.length) ++ (c.flatMap (wire t) ++ pl)) room := by
  obtain ⟨crcsz, hcrc⟩ := exists_crc hlen
  refine .of_limit hmet (e := .containerLimit) (fun hlt => ?_) fun hle => ?_
  · simp [step, hf, hc.lmts, hlt]
  · have hstep : s.step false room =
        s.announce (.storeContainerContinue t) fs crcsz (.iter c :: s.estk) := by
      simp [step, hf, hc.lmts, not_lt.2 hle, hcrc]
    exact advances_announce hc hcrc hstep
      (.storeContainerContinue hst fun hall => hp ⟨hle, hall⟩) (by omega)

theorem advances_storeArray {t : Ty} {c : List Obj}
    (hf : s.fstk = .storeArray t (some c) :: fs) (he : s.estk = .vals k 0 :: es)
    (hk : k ≤ c.length) (hlen : k ≤ maxValueWithoutCrc .w64)
    (hmet : K.met → k ≤ K.lmts.containerlimit) (hst : ∀ o ∈ c.take k, Storable K t o)
    (hp : k ≤ K.lmts.containerlimit ∧ (∀ o ∈ c.take k, StoreWithin K.lmts t o) →
      SPlan K n fs es pl) :
    Advances K (n + costs t (c.take k) + 4) s
      (bytes (sizeBytes k) ++ ((c.take k).flatMap (wire t) ++ pl)) room := by
  obtain ⟨crcsz, hcrc⟩ := exists_crc hlen
  have hne : k ≠ invalidSize := by
    have := maxValueWithoutCrc_lt_invalidSize .w64
    omega
  refine .of_limit hmet (e := .arrayLimit) (fun hlt => ?_) fun hle => ?_
  · simp [step, hf, he, hc.lmts, hne, hlt]
  · have hstep : s.step false room =
        s.announce (.storeArrayContinue t c) fs crcsz (.vals k 0 :: es) := by
      simp [step, hf, he, hc.lmts, not_lt.2 hle, hcrc, hne]
    exact advances_announce hc hcrc hstep
      (.storeArrayContinue hk hst fun hall => hp ⟨hle, hall⟩) (by simp)

theorem advances_storeUtf8 (hf : s.fstk = .storeUtf8 p :: fs)
    (hlen : p.length - 1 ≤ maxValueWithoutCrc .w32)
    (hmet : K.met → p.length - 1 ≤ K.lmts.stringlimit)
    (hp : p.length - 1 ≤ K.lmts.stringlimit → SPlan K n fs s.estk pl) :
    Advances K (n + 2) s (bytes p ++ pl) room := by
  refine .of_limit hmet (e := .utf8Limit) (fun hlt => ?_) fun hle => ?_
  · simp only [step, hf, hc.lmts, if_pos hlt]
  · have hstep : s.step false room =
        some (.cont, [], { s with fstk := .storeBinary .b0 p :: fs }) := by
      simp only [step, hf, hc.lmts, if_neg (not_lt.2 hle), if_neg (not_lt.2 hlen)]
    exact Advances.of_cont hstep (hc.sending (.storeBinary trivial (hp hle))) (by omega)

theorem advances_storeCross {v : ℕ}
    (hf : s.fstk = .storeCross w v :: fs) (hv : v < w.bound) (hp : SPlan K n fs s.estk pl) :
    Advances K (n + 1) s (bytes (crossBytes w v) ++ pl) room := by
  by_cases hroom : crossSize w v ≤ room
  · have hstep : s.step false room = some (.success, crossBytes w v, s) := by
      simp [step, hf, hroom, crossStore_eq hv]
    refine Advances.of_success hstep (by simpa using hroom) ?_ (lt_succ_self n)
    rw [hf]
    exact hc.sending hp
  · have hstep : s.step false room = some (.wait, (crossBytes w v).take room,
        { s with fstk := .storeCrossContinue room :: fs, tmpstr := crossBytes w v }) := by
      simp [step, hf, hroom, crossStore_eq hv]
    have hlen : room < (crossBytes w v).length := by simpa using hroom
    have hsplit : crossBytes w v = (crossBytes w v).take room ++ (crossBytes w v).drop room :=
      (take_append_drop _ _).symm
    rw [hsplit]
    exact Advances.of_wait hstep (by rw [length_take]; omega)
      (by rw [Ne, drop_eq_nil_iff]; omega) (hc.sending_cross hlen hp)

theorem advances_storeCrossContinue
    (hf : s.fstk = .storeCrossContinue k :: fs) (hk : k < s.tmpstr.length)
    (hp : SPlan K n fs s.estk pl) :
    Advances K (n + 1) s (bytes (s.tmpstr.drop k) ++ pl) room := by
  by_cases hroom : s.tmpstr.length - k ≤ room
  · have hstep : s.step false room = some (.success, s.tmpstr.drop k, { s with tmpstr := [] }) := by
      simp only [step, hf, Nat.min_eq_left hroom, Bool.false_eq_true, if_false]
      rw [if_pos (by omega), take_of_length_le (by rw [length_drop])]
    refine Advances.of_success hstep (by rw [length_drop]; omega) ?_ (Nat.lt_succ_self n)
    rw [hf]
    exact hc.sending hp
  · have hstep : s.step false room = some (.wait, (s.tmpstr.drop k).take room,
        { s with fstk := .storeCrossContinue (k + room) :: fs }) := by
      simp only [step, hf, Nat.min_eq_right (Nat.le_of_not_le hroom), Bool.false_eq_true, if_false]
      rw [if_neg (by omega)]
    have hsplit : s.tmpstr.drop k = (s.tmpstr.drop k).take room ++ s.tmpstr.drop (k + room) := by
      rw [← drop_drop, take_append_drop]
    rw [hsplit]
    exact Advances.of_wait hstep (by rw [length_take, length_drop]; omega)
      (by rw [Ne, drop_eq_nil_iff]; omega)
      (hc.sending_cross (show k + room < s.tmpstr.length by omega) hp)

theorem advances_storeBitsContinue {bs : List Bool}
    (hf : s.fstk = .storeBitsContinue bs k :: fs) (hp : SPlan K n fs s.estk pl) :
    Advances K (n + 1) s (bytes (bitsBytes (bs.drop k)) ++ pl) room := by
  obtain ⟨hacc, hle, hfull, hsuf⟩ := storeBitsLoop_spec (bs.drop k) room 0 0 (fun _ => rfl)
  set r := storeBitsLoop (bs.drop k) room 0 0 with hr
  have hstep : s.step false room = some (if r.2 = [] then .success else .wait, r.1,
      { s with fstk := .storeBitsContinue bs (bs.length - r.2.length) :: fs }) := by
    simp [step, hf, ← hr]
  have hbits : bitsBytes (bs.drop k) = r.1 ++ bitsBytes r.2 := hacc
  rw [hbits]
  by_cases hnil : r.2 = []
  · rw [if_pos hnil] at hstep
    rw [hnil, show bitsBytes [] = [] from rfl, append_nil]
    exact Advances.of_success hstep hle (hc.sending hp) (lt_succ_self n)
  · rw [if_neg hnil] at hstep
    have hdrop : bs.drop (bs.length - r.2.length) = r.2 := by
      obtain ⟨pre, hpre⟩ := hsuf.trans (drop_suffix k bs)
      rw [← hpre, length_append, Nat.add_sub_cancel, drop_left]
    have hne : bitsBytes r.2 ≠ [] := by
      cases hr2 : r.2 with
      | nil => exact absurd hr2 hnil
      | cons b bs' => exact bitsAcc_ne_nil _ _ _ _
    have hp' := SPlan.storeBitsContinue bs (bs.length - r.2.length) hp
    rw [hdrop] at hp'
    exact Advances.of_wait hstep (hfull hnil) hne (hc.sending hp')

end

end Steps

/-! ## Scheduled objects -/

theorem bytes_lt_bound {bs : List Byte} (h : bs.length = w.bytes) :
    leNat bs < w.bound := by
  rw [w.bound_eq, ← h]
  exact leNat_lt bs

/-- **Scheduling an object adds what is sent for it.** -/
theorem SPlan.push {K : Quota} {n : ℕ} {fs : List SFrame} {es : List SExt} {pl : List Wire}
    {t : Ty} (h : Storable K t o)
    (hp : StoreWithin K.lmts t o → SPlan K n fs es pl) :
    SPlan K (n + cost t o) ((SFrame.ofTy t o).1 ++ fs) ((SFrame.ofTy t o).2 ++ es)
      (wire t o ++ pl) := by
  obtain ⟨ht, hfit, hin, hstream⟩ := h
  induction t generalizing o n fs es pl with
  | bool => cases o with
    | bool b => exact .storeBool b (hp trivial)
    | _ => exact ht.elim
  | int w => cases o with
    | raw bs => exact .storeInt ht (hp trivial)
    | _ => exact ht.elim
  | str => cases o with
    | str c => rw [wire, append_assoc]; exact .storeString hfit hin hp
    | _ => exact ht.elim
  | utf8 => cases o with
    | str c =>
      have hlen : (c ++ [0]).length - 1 = c.length := by
        rw [length_append, length_singleton, Nat.add_sub_cancel]
      refine .storeUtf8 ?_ ?_ ?_
      · rw [hlen]; exact hfit
      · rw [hlen]; exact hin
      · rw [hlen]; exact hp
    | _ => exact ht.elim
  | cross w => cases o with
    | raw bs => exact .storeCross (bytes_lt_bound ht) (hp trivial)
    | _ => exact ht.elim
  | binary k => cases o with
    | raw bs => exact .storeBinary trivial (hp trivial)
    | _ => exact ht.elim
  | bitset v => cases o with
    | bits bs => rw [wire, append_assoc]; exact .storeBits hfit hin hp
    | _ => exact ht.elim
  | bitvec => cases o with
    | bits bs => rw [wire, append_assoc]; exact .storeBits hfit hin hp
    | _ => exact ht.elim
  | container b size t => cases o with
    | seq os =>
      rw [wire, append_assoc]
      have h := SPlan.storeContainer hfit.1 (fun hmet => (hin hmet).1)
        (fun o ho => ⟨ht.2 o ho, hfit.2 o ho, fun hmet => (hin hmet).2 o ho, hstream⟩) hp
      rwa [add_assoc, add_comm (costs t os) 4] at h
    | _ => exact ht.elim
  | array b cap t => cases o with
    | arr os k =>
      rw [wire, append_assoc]
      have hst : ∀ o ∈ os.take k, Storable K t o := fun o ho =>
        ⟨ht.2.2.2 o (mem_of_mem_take ho), hfit.2 o ho, fun hmet => (hin hmet).2 o ho, hstream⟩
      have h := SPlan.storeArray (by rw [ht.2.1]; exact ht.2.2.1) hfit.1
        (fun hmet => (hin hmet).1) hst hp
      rwa [add_assoc, add_comm (costs t (os.take k)) 4] at h
    | _ => exact ht.elim
  | pair t u iht ihu => cases o with
    | pair a b =>
      have hu := fun ha => ihu (fun hb => hp ⟨ha, hb⟩) ht.2 hfit.2 (fun hmet => (hin hmet).2)
        (hstream.imp_left And.right)
      have h := iht hu ht.1 hfit.1 (fun hmet => (hin hmet).1) (hstream.imp_left And.left)
      simpa only [SFrame.ofTy, wire, cost, append_assoc, add_assoc, add_comm (cost u b)] using h
    | _ => exact ht.elim
  | unit => cases o with
    | unit => exact hp trivial
    | _ => exact ht.elim
  | struct mv t => exact .store ⟨ht, hfit, hin, hstream⟩ hp
  | stream src dst => cases o with
    | istream ris =>
      have hunlim := hstream.resolve_left id
      cases dst with
      | some dst => cases src <;> exact ht.elim
      | none => cases src with
      | none => exact SPlan.storeStreamBegin ris hunlim le_rfl (hp trivial)
      | some arg =>
        obtain ⟨off, len⟩ := arg
        obtain ⟨hok, hoff, hoff', hlen⟩ := ht
        have hseek : ris.seekg off = { ris with pos := off } := by
          simp [seekg, hok, hoff]
        have htell : (ris.seekg off).tellg = some off := by
          rw [hseek]; simp [tellg, hok]
        have hreq : (ris.seekg off).avail len = requested ris (some (off, len)) := by
          rw [hseek]; simp [avail, rest, requested, hok]
        have h := SPlan.storeStreamCheck hunlim hlen
          (SPlan.storeStreamSeek ris off hunlim hlen (Nat.ne_of_lt hoff') htell (hp trivial))
        rw [hreq] at h
        exact h
    | _ => cases src <;> cases dst <;> exact ht.elim
  | stringLimit v => cases o <;> exact ht.elim
  | streamLimit v => cases o <;> exact ht.elim
  | containerLimit v => cases o <;> exact ht.elim
  | ptr sh b => cases o <;> exact ht.elim
  | call c t err => cases o <;> exact ht.elim
  | error e => cases o <;> exact ht.elim

section Steps
variable {K : Quota} {n room : ℕ} {s : SerializerBase} {fs : List SFrame} {es : List SExt}
  {pl : List Wire}

theorem costs_cons (t : Ty) (o : Obj) (os : List Obj) :
    costs t (o :: os) = cost t o + 1 + costs t os := by
  simp [costs]

variable {ris : IStream} {len : ℕ} {t : Ty}

theorem SClean.sending_push (hc : SClean K s) (h : Storable K t o)
    (hp : StoreWithin K.lmts t o → SPlan K n fs es pl) :
    Sending K (n + cost t o) (push { s with fstk := fs, estk := es } t o) (wire t o ++ pl) :=
  hc.sending (SPlan.push h hp)

theorem advances_storeContainerContinue {rest : List Obj} (hc : SClean K s)
    (hf : s.fstk = .storeContainerContinue t :: fs) (he : s.estk = .iter rest :: es)
    (hst : ∀ o ∈ rest, Storable K t o)
    (hp : (∀ o ∈ rest, StoreWithin K.lmts t o) → SPlan K n fs es pl) :
    Advances K (n + costs t rest + 1) s (rest.flatMap (wire t) ++ pl) room := by
  cases rest with
  | nil =>
    have hstep : s.step false room = some (.success, [], { s with estk := es }) := by
      simp only [step, hf, he]
    refine Advances.of_success hstep (zero_le _) ?_ (lt_succ_of_le (le_add_right n _))
    rw [hf]
    exact hc.sending (hp (by simp))
  | cons o rest =>
    obtain ⟨ho, hrest⟩ := forall_mem_cons.1 hst
    have hstep : s.step false room =
        some (.cont, [], { s with estk := .iter rest :: es }.push t o) := by
      simp [step, hf, he]
    rw [flatMap_cons, append_assoc]
    have h := hc.sending_push ho fun hin => .storeContainerContinue hrest fun hall =>
      hp (forall_mem_cons.2 ⟨hin, hall⟩)
    rw [← hf] at h
    exact Advances.of_cont hstep h (by rw [costs_cons]; omega)

theorem advances_storeArrayContinue {os : List Obj} {k i : ℕ} (hc : SClean K s)
    (hf : s.fstk = .storeArrayContinue t os :: fs) (he : s.estk = .vals k i :: es)
    (hk : k ≤ os.length) (hst : ∀ o ∈ (os.take k).drop i, Storable K t o)
    (hp : (∀ o ∈ (os.take k).drop i, StoreWithin K.lmts t o) → SPlan K n fs es pl) :
    Advances K (n + costs t ((os.take k).drop i) + 1) s
      (((os.take k).drop i).flatMap (wire t) ++ pl) room := by
  by_cases hi : i < k
  · have hlt : i < (os.take k).length := by rw [length_take]; omega
    have hdrop : (os.take k).drop i = (os.take k)[i] :: (os.take k).drop (i + 1) :=
      drop_eq_getElem_cons hlt
    have hget : os[i]? = some (os.take k)[i] := by
      rw [getElem_take, getElem?_eq_getElem]
    rw [hdrop] at hst hp ⊢
    obtain ⟨ho, hrest⟩ := forall_mem_cons.1 hst
    have hstep : s.step false room =
        some (.cont, [], { s with estk := .vals k (i + 1) :: es }.push t (os.take k)[i]) := by
      simp [step, hf, he, hi, hget]
    rw [flatMap_cons, append_assoc]
    have h := hc.sending_push ho fun hin => .storeArrayContinue hk hrest fun hall =>
      hp (forall_mem_cons.2 ⟨hin, hall⟩)
    rw [← hf] at h
    exact Advances.of_cont hstep h (by rw [costs_cons]; omega)
  · have hnil : (os.take k).drop i = [] := by
      rw [drop_eq_nil_iff, length_take]; omega
    have hstep : s.step false room = some (.success, [], { s with estk := es }) := by
      simp [step, hf, he, hi]
    rw [hnil] at hp ⊢
    refine Advances.of_success hstep (zero_le _) ?_ (lt_succ_of_le (le_add_right n _))
    rw [hf]
    exact hc.sending (hp (by simp))

theorem advances_store (hc : SClean K s) (hf : s.fstk = .store t o :: fs)
    (hst : Storable K t o) (hp : StoreWithin K.lmts t o → SPlan K n fs s.estk pl) :
    Advances K (n + cost t o + 1) s (wire t o ++ pl) room := by
  have hstep : s.step false room = some (.cont, [], { s with fstk := fs }.push t o) := by
    simp [step, hf]
  exact Advances.of_cont hstep (hc.sending_push hst hp) (lt_succ_self _)

theorem Advances.of_small {d : List Byte} (hc : Sending K n s (.chunks d :: pl))
    (hstep : s.step false room = some (.wait, [], s))
    (hsmall : toInt32 room < minStreamBufferSize ∨ room < minStreamBufferSize) :
    Advances K n s (.chunks d :: pl) room :=
  .inl ⟨.wait, [], s, n, _, hstep, by simp, by simp, .nil _, hc, by simp,
    fun _ => ⟨by simp, .inr ⟨rfl, ⟨d, pl, rfl⟩, hsmall⟩⟩⟩

theorem advances_storeStreamCheck {v : ℕ} (hc : SClean K s)
    (hf : s.fstk = .storeStreamCheck v :: fs)
    (hunlim : K.lmts.streamlimit = invalidSize) (hv : v ≤ invalidSize)
    (hp : SPlan K n fs s.estk pl) : Advances K (n + 1) s pl room := by
  have hstep : s.step false room = some (.success, [], s) := by
    simp [step, hf, hc.lmts, hunlim, not_lt.2 hv]
  refine Advances.of_success hstep (zero_le _) ?_ (lt_succ_self n)
  rw [hf]
  exact hc.sending hp

theorem advances_storeStreamBegin (hc : SClean K s)
    (hf : s.fstk = .storeStreamBegin false invalidSize :: .storeStream ris len :: fs)
    (hunlim : K.lmts.streamlimit = invalidSize) (hlen : len ≤ invalidSize)
    (hp : SPlan K n fs s.estk pl) :
    Advances K (n + (ris.avail len).length + 2) s (.chunks (ris.avail len) :: pl) room := by
  by_cases hsmall : toInt32 room < minStreamBufferSize
  · have hstep : s.step false room = some (.wait, [], s) := by
      simp [step, hf, storeStreamBegin, if_pos hsmall]
    exact Advances.of_small
      ⟨hc, .plan (by rw [hf]; exact .storeStreamBegin ris hunlim hlen hp)⟩ hstep (.inl hsmall)
  · have hstep : s.step false room =
        some (.success, [], { s with streamerr := none, streamsz := 0 }) := by
      simp [step, hf, storeStreamBegin, if_neg hsmall]
    refine Advances.of_success hstep (zero_le _) ?_ (lt_succ_self _)
    rw [hf]
    exact ⟨⟨hc.lmts, hc.rdefaultlmts, hc.err, rfl⟩, .plan (.storeStream ris hunlim hlen hp)⟩

theorem advances_storeStreamSeek {from_ : ℕ} (hc : SClean K s)
    (hf : s.fstk = .storeStreamBegin false from_ :: .storeStream ris len :: fs)
    (hunlim : K.lmts.streamlimit = invalidSize) (hlen : len ≤ invalidSize)
    (hfrom : from_ ≠ invalidSize)
    (htell : (ris.seekg from_).tellg = some from_) (hp : SPlan K n fs s.estk pl) :
    Advances K (n + ((ris.seekg from_).avail len).length + 2) s
      (.chunks ((ris.seekg from_).avail len) :: pl) room := by
  by_cases hsmall : toInt32 room < minStreamBufferSize
  · have hstep : s.step false room = some (.wait, [], s) := by
      simp [step, hf, storeStreamBegin, if_pos hsmall]
    exact Advances.of_small
      ⟨hc, .plan (by rw [hf]; exact .storeStreamSeek ris from_ hunlim hlen hfrom htell hp)⟩ hstep
      (.inl hsmall)
  · have hstep : s.step false room = some (.success, [], { s with
        streamerr := none
        streamsz := 0
        fstk := .storeStreamBegin false from_ :: .storeStream (ris.seekg from_) len :: fs }) := by
      simp [step, hf, storeStreamBegin, if_neg hsmall, if_neg hfrom, htell]
    refine Advances.of_success hstep (zero_le _) ?_ (lt_succ_self _)
    exact ⟨⟨hc.lmts, hc.rdefaultlmts, hc.err, rfl⟩, .plan (.storeStream _ hunlim hlen hp)⟩

theorem IStream.avail_read {m : ℕ} (hok : ris.fail = false)
    (hlen : len ≤ invalidSize) (hm : m ≤ len) :
    ris.avail len = (ris.read m).1 ++
      (ris.read m).2.avail (if len = invalidSize then len else len - (ris.read m).1.length) := by
  obtain ⟨hread, hrest⟩ := ris.read_rest m hok
  by_cases hinv : len = invalidSize
  · simp only [avail, if_pos hinv, hread, hrest, take_append_drop]
  · have hne : len - (ris.read m).1.length ≠ invalidSize := by omega
    simp only [avail, if_neg hinv, if_neg hne, hrest]
    rw [hread, length_take]
    by_cases hshort : ris.rest.length ≤ m
    · rw [take_of_length_le hshort, drop_eq_nil_of_le hshort, take_nil,
        append_nil, take_of_length_le (by omega)]
    · rw [min_eq_left (by omega), ← take_append_drop m (ris.rest.take len),
        take_take, min_eq_left hm, drop_take]

theorem IStream.avail_eq_nil {m : ℕ} (hm : 1 ≤ m)
    (h : ris.fail ∨ (ris.read m).1 = []) : ris.avail len = [] := by
  have hrest : ris.rest = [] := by
    by_cases hok : ris.fail
    · simp [rest, hok]
    · have hread := (ris.read_rest m (by simpa using hok)).1
      rw [hread] at h
      exact (take_eq_nil_iff.1 (h.resolve_left hok)).resolve_left (by omega)
  simp [avail, hrest]

theorem IStream.read_length_le (ris : IStream) (m : ℕ) : (ris.read m).1.length ≤ m :=
  length_take_le _ _

theorem streamChunk_length (d : List Byte) : (streamChunk d).length = d.length + 2 := by
  simp [streamChunk]; omega

theorem advances_storeStream (hc : SClean K s)
    (hf : s.fstk = .storeStream ris len :: fs) (hunlim : K.lmts.streamlimit = invalidSize)
    (hlen : len ≤ invalidSize) (hp : SPlan K n fs s.estk pl) :
    Advances K (n + (ris.avail len).length + 1) s (.chunks (ris.avail len) :: pl) room := by
  by_cases hsmall : room < minStreamBufferSize
  · have hstep : s.step false room = some (.wait, [], s) := by
      simp only [step, hf, storeStream, if_pos hsmall, Bool.false_eq_true, if_false]
    exact Advances.of_small ⟨hc, .plan (by rw [hf]; exact .storeStream ris hunlim hlen hp)⟩ hstep
      (.inr hsmall)
  have hroom : 16 ≤ room := Nat.le_of_not_lt hsmall
  set toread := min (min (room - 2) len) (maxValueWithoutCrc .w16) with htoread
  -- the stop mark, sent when nothing is asked for or nothing can be read
  have stop : ∀ s' : SerializerBase, s.step false room = some (.success, store16 0, s') →
      Sending K n { s' with fstk := s'.fstk.tail } pl → ris.avail len = [] →
      Advances K (n + (ris.avail len).length + 1) s (.chunks (ris.avail len) :: pl) room := by
    intro s' hstep hsend hnil
    rw [hnil]
    have hcut : Sent (.chunks [] :: pl) (store16 0 ++ []) pl := .stop (.nil pl)
    exact .inl ⟨.success, store16 0, s', n, pl, hstep, by simp, by simp; omega,
      by simpa using hcut, hsend, fun _ => by simp, by simp⟩
  by_cases hzero : toread = 0
  · have hstep : s.step false room = some (.success, store16 0, s) := by
      simp only [step, hf, storeStream, if_neg hsmall, ← htoread,
        if_pos hzero, Bool.false_eq_true, if_false]
    have hlen0 : len = 0 := by
      have : 0 < maxValueWithoutCrc .w16 := by decide
      omega
    refine stop s hstep ?_ (by simp [avail, hlen0, invalidSize])
    rw [hf]
    exact hc.sending hp
  set r := if ris.fail then ([], ris) else ris.read toread with hr
  by_cases hnil : r.1 = []
  · have hstep : s.step false room =
        some (.success, store16 0, { s with fstk := .storeStream r.2 len :: fs }) := by
      simp only [step, hf, storeStream, if_neg hsmall, ← htoread,
        if_neg hzero, ← hr, if_pos hnil, Bool.false_eq_true, if_false]
    refine stop _ hstep (hc.sending hp) (avail_eq_nil (m := toread) (by omega) ?_)
    by_cases hok : ris.fail
    · exact .inl hok
    · rw [hr, if_neg hok] at hnil
      exact .inr hnil
  · have hok : ris.fail = false := by
      by_contra hfail
      rw [hr, if_pos (by simpa using hfail)] at hnil
      exact hnil rfl
    have hrr : r = ris.read toread := by rw [hr, if_neg (by simp [hok])]
    have hrlen : r.1.length ≤ toread := by rw [hrr]; exact ris.read_length_le _
    have hlim : ¬ invalidSize < (s.streamsz + r.1.length) % 2 ^ 64 := by
      simp only [invalidSize]; omega
    set len' := if len = invalidSize then len else len - r.1.length with hlen'
    have hstep : s.step false room = some (.cont, streamChunk r.1, { s with
        fstk := .storeStream r.2 len' :: fs
        streamsz := (s.streamsz + r.1.length) % 2 ^ 64 }) := by
      simp only [step, hf, storeStream, if_neg hsmall, ← htoread,
        if_neg hzero, ← hr, if_neg hnil, hc.lmts, hunlim, if_neg hlim, ← hlen',
        Bool.false_eq_true, if_false]
    have havail : ris.avail len = r.1 ++ r.2.avail len' := by
      rw [hlen', hrr]; exact avail_read hok hlen (by omega)
    have hcut : Sent (.chunks (r.1 ++ r.2.avail len') :: pl) (streamChunk r.1 ++ [])
        (.chunks (r.2.avail len') :: pl) := .chunk ⟨hnil, by omega⟩ (.nil _)
    have hpos : 0 < r.1.length := length_pos_iff.2 hnil
    have hle' : len' ≤ invalidSize := by rw [hlen']; split <;> omega
    rw [havail]
    exact .inl ⟨.cont, _, _, n + (r.2.avail len').length + 1, _, hstep, by simp,
      by rw [streamChunk_length]; omega, by simpa using hcut, hc.sending
      (.storeStream _ hunlim hle' hp), fun _ => by rw [length_append]; omega, by simp⟩

/-- **One call stores a piece of what is left to be sent**, while something is
    scheduled. -/
theorem Sending.step (h : Sending K n s pl) (hf : s.fstk ≠ []) : Advances K n s pl room := by
  obtain ⟨hc, htop⟩ := h
  cases htop with
  | cross hf hk hp => exact advances_storeCrossContinue hc hf hk hp
  | plan hp =>
    generalize hfs : s.fstk = fstk at hp hf
    generalize hes : s.estk = estk at hp
    cases hp with
    | nil => exact absurd rfl hf
    | popExtStack e hp => exact advances_popExtStack hc hfs hes hp
    | storeBinary hk hp => exact advances_storeBinary hc hfs hk (hes ▸ hp)
    | storeBool b hp => exact advances_storeBool hc hfs (hes ▸ hp)
    | storeInt hw hp => exact advances_storeInt hc hfs hw (hes ▸ hp)
    | storeString hlen hmet hp => exact advances_storeString hc hfs hlen hmet (hes ▸ hp)
    | storeStreamBegin ris hunlim hlen hp =>
      exact advances_storeStreamBegin hc hfs hunlim hlen (hes ▸ hp)
    | storeStreamSeek ris from_ hunlim hlen hfrom htell hp =>
      exact advances_storeStreamSeek hc hfs hunlim hlen hfrom htell (hes ▸ hp)
    | storeStreamCheck hunlim hv hp => exact advances_storeStreamCheck hc hfs hunlim hv (hes ▸ hp)
    | storeStream ris hunlim hlen hp => exact advances_storeStream hc hfs hunlim hlen (hes ▸ hp)
    | storeUtf8 hlen hmet hp => exact advances_storeUtf8 hc hfs hlen hmet (hes ▸ hp)
    | storeCross hv hp => exact advances_storeCross hc hfs hv (hes ▸ hp)
    | storeBits hlen hmet hp => exact advances_storeBits hc hfs hlen hmet (hes ▸ hp)
    | storeBitsContinue bs k hp => exact advances_storeBitsContinue hc hfs (hes ▸ hp)
    | storeContainer hlen hmet hst hp =>
      exact advances_storeContainer hc hfs hlen hmet hst (hes ▸ hp)
    | storeContainerContinue hst hp => exact advances_storeContainerContinue hc hfs hes hst hp
    | storeArray hk hlen hmet hst hp => exact advances_storeArray hc hfs hes hk hlen hmet hst hp
    | storeArrayContinue hk hst hp => exact advances_storeArrayContinue hc hfs hes hk hst hp
    | store hst hp => exact advances_store hc hfs hst (hes ▸ hp)

end Steps

/-! ## A call of `run` -/

theorem Sending.finished {K : Quota} {n : ℕ} {s : SerializerBase} {pl : List Wire}
    (h : Sending K n s pl) (hf : s.fstk = []) : pl = [] ∧ s.estk = [] ∧ K.met := by
  obtain ⟨-, htop⟩ := h
  cases htop with
  | cross hf' => rw [hf] at hf'; cases hf'
  | plan hp =>
    generalize s.estk = es at hp
    rw [hf] at hp
    cases hp with
    | nil hmet => exact ⟨rfl, rfl, hmet⟩

theorem SClean.resetLimits {K : Quota} {s : SerializerBase} (hc : SClean K s) :
    s.resetLimits = s := by
  have hsame : s.rdefaultlmts = s.lmts := hc.rdefaultlmts.trans hc.lmts.symm
  cases s
  cases hsame
  rfl

/-- What a call of `run` on `room` bytes leaves: everything was sent and both
    stacks are empty, or the buffer was used up. -/
def Ends (room : ℕ) (out : List Byte) (s' : SerializerBase) (pl' : List Wire) : Prop :=
  (pl' = [] ∧ s'.fstk = [] ∧ s'.estk = []) ∨
  (pl' ≠ [] ∧ s'.fstk ≠ [] ∧ (out.length = room ∨ (∃ d pl'', pl' = .chunks d :: pl'') ∧
    (toInt32 (room - out.length) < minStreamBufferSize ∨ room - out.length < minStreamBufferSize)))

section
variable {K : Quota} {n : ℕ} {s : SerializerBase} {pl : List Wire} (h : Sending K n s pl)
include h

/-- The loop of `run` ends: it has stored a piece of what is left to be sent, or a limit
    is not met. -/
theorem Sending.runLoop (room : ℕ) (acc : List Byte) :
    (∃ fuel out s' n' pl', s.runLoop false fuel room acc = some (.done (acc ++ out) s') ∧
      out.length ≤ room ∧ Sent pl out pl' ∧ Sending K n' s' pl' ∧ Ends room out s' pl') ∨
    (¬ K.met ∧ ∃ fuel s', s.runLoop false fuel room acc = some (.failure s')) := by
  induction n using Nat.strongRecOn generalizing s pl room acc with
  | ind n ih =>
    by_cases hf : s.fstk = []
    · obtain ⟨rfl, he, -⟩ := h.finished hf
      refine .inl ⟨1, [], s, n, [], ?_, zero_le _, .nil _, h, .inl ⟨rfl, hf, he⟩⟩
      rw [SerializerBase.runLoop, if_pos hf, h.toSClean.resetLimits, List.append_nil]
    have hadv : Advances K n s pl room := h.step hf
    rcases hadv with ⟨ret, out, s1, n1, pl1, hstep, hret, hle, hcut, hsend, hdec, hwait⟩ |
      ⟨hmet, out, s', hfail⟩
    rotate_left
    · refine .inr ⟨hmet, 1, s'.resetLimits, ?_⟩
      rw [SerializerBase.runLoop, if_neg hf, hfail]
    -- after a call that does not wait the loop goes on with a smaller bound
    have go : n1 < n → (∀ fuel, s.runLoop false (fuel + 1) room acc =
          (s1.after ret).runLoop false fuel (room - out.length) (acc ++ out)) →
        (∃ fuel out s' n' pl', s.runLoop false fuel room acc = some (.done (acc ++ out) s') ∧
          out.length ≤ room ∧ Sent pl out pl' ∧ Sending K n' s' pl' ∧ Ends room out s' pl') ∨
        (¬ K.met ∧ ∃ fuel s', s.runLoop false fuel room acc = some (.failure s')) := by
      intro hlt hloop
      rcases ih n1 hlt hsend (room - out.length) (acc ++ out) with
        ⟨fuel, out', s', n', pl', hrun, hle', hcut', hsend', hend⟩ | ⟨hmet, fuel, s', hrun⟩
      · refine .inl ⟨fuel + 1, out ++ out', s', n', pl', ?_, ?_, hcut.trans hcut', hsend', ?_⟩
        · rw [hloop, hrun, List.append_assoc]
        · rw [List.length_append]; omega
        · rcases hend with hend | ⟨hne, hf', hend⟩
          · exact .inl hend
          · refine .inr ⟨hne, hf', ?_⟩
            rw [List.length_append, ← Nat.sub_sub]
            exact hend.imp_left fun hroom => by omega
      · exact .inr ⟨hmet, fuel + 1, s', by rw [hloop, hrun]⟩
    cases ret with
    | failure => exact absurd rfl hret
    | cont =>
      refine go (hdec (by simp)) fun fuel => ?_
      rw [SerializerBase.runLoop, if_neg hf, hstep]
      rfl
    | success =>
      refine go (hdec (by simp)) fun fuel => ?_
      rw [SerializerBase.runLoop, if_neg hf, hstep]
      rfl
    | wait =>
      obtain ⟨hne, hstop⟩ := hwait rfl
      have hf' : s1.fstk ≠ [] := fun hf' => hne (Sending.finished hsend hf').1
      refine .inl ⟨1, out, s1, n1, pl1, ?_, hle, hcut, hsend, .inr ⟨hne, hf', ?_⟩⟩
      · rw [SerializerBase.runLoop, if_neg hf, hstep]
      · rcases hstop with hroom | ⟨rfl, ⟨d, pl', rfl⟩, hsmall⟩
        · exact .inl hroom
        · rcases hcut.chunks_cases with ⟨-, rfl⟩ | ⟨c, e, q, -, -, hnil, -⟩ | ⟨q, -, hnil, -⟩
          · exact .inr ⟨⟨d, pl', rfl⟩, hsmall⟩
          · have := congrArg List.length hnil
            simp [streamChunk_length] at this
            omega
          · have := congrArg List.length hnil
            simp at this
            omega

/-- **Every call of `run` ends**, and takes what is left to be sent to what is left
    afterwards, or fails because a limit is not met. -/
theorem Sending.runs_or_fails (room : ℕ) :
    (∃ out s' n' pl', s.Runs room out s' ∧ out.length ≤ room ∧ Sent pl out pl' ∧
      Sending K n' s' pl' ∧ Ends room out s' pl') ∨
    (¬ K.met ∧ ∃ fuel s', s.runLoop false fuel room [] = some (.failure s')) := by
  rcases h.runLoop room [] with ⟨fuel, out, s', n', pl', hrun, rest⟩ | hfail
  · exact .inl ⟨out, s', n', pl', ⟨fuel, hrun⟩, rest⟩
  · exact .inr hfail

/-- **Every call of `run` ends**, when the limits are met. -/
theorem Sending.runs (hmet : K.met) (room : ℕ) :
    ∃ out s' n' pl', s.Runs room out s' ∧ out.length ≤ room ∧ Sent pl out pl' ∧
      Sending K n' s' pl' ∧ Ends room out s' pl' :=
  (h.runs_or_fails room).resolve_right fun hnot => hnot.1 hmet

end

theorem SerializerBase.runLoop_mono {null : Bool} {fuel fuel' room : ℕ} {acc : List Byte}
    {s : SerializerBase} {r : SRun} (h : s.runLoop null fuel room acc = some r)
    (hle : fuel ≤ fuel') : s.runLoop null fuel' room acc = some r := by
  induction fuel generalizing fuel' room acc s with
  | zero => cases h
  | succ fuel ih =>
    obtain ⟨fuel', rfl⟩ := Nat.exists_eq_add_of_le' (Nat.le_trans (Nat.succ_pos fuel) hle)
    rw [runLoop] at h ⊢
    split_ifs at h ⊢ with hf
    · exact h
    · cases hs : s.step null room with
      | none => simpa only [hs] using h
      | some res =>
        obtain ⟨ret, out, s'⟩ := res
        simp only [hs] at h ⊢
        cases ret with
        | cont => exact ih h (by omega)
        | success => exact ih h (by omega)
        | wait => exact h
        | failure => exact h

theorem SerializerBase.Runs.unique {s s1 s2 : SerializerBase} {room : ℕ} {out1 out2 : List Byte}
    (h1 : s.Runs room out1 s1) (h2 : s.Runs room out2 s2) : out1 = out2 ∧ s1 = s2 := by
  obtain ⟨fuel1, h1⟩ := h1
  obtain ⟨fuel2, h2⟩ := h2
  have h := (runLoop_mono h1 (le_max_left fuel1 fuel2)).symm.trans
    (runLoop_mono h2 (le_max_right fuel1 fuel2))
  simpa using h

end SolidFrame
