/-
  SolidFrame formalization — progress of a serializer
  (`SerializerBase::run` in `solid/serialization/src/binary.cpp`).

  A call of `run` ends when the stack is empty, when a function fails, or when a
  function returns `WaitE` because its bytes do not fit.  A stream does not wait for
  one byte but for `MIN_STREAM_BUFFER_SIZE` of them.
-/
import SolidFrame.Serialization.SerializerPlan

namespace SolidFrame

open List Nat SerializerBase

/-! ## Objects and stacks -/

/-- The number of calls for the elements of a container, when each takes `k`. -/
def elementCalls (k : Obj → ℕ) (os : List Obj) : ℕ := (os.map fun o => k o + 1).sum

theorem elementCalls_cons (k : Obj → ℕ) (o : Obj) (os : List Obj) :
    elementCalls k (o :: os) = k o + 1 + elementCalls k os := by
  simp [elementCalls]

/-- The calls of `t` can be made for the object: its integers have their width, and an array
    has as many elements as its size says.  Storing it takes at most so many calls. -/
inductive StoredIn : ℕ → Ty → Obj → Prop where
  | bool (b : Bool) : StoredIn 1 .bool (.bool b)
  | int {w : Width} {bs : List Byte} : bs.length = w.bytes → StoredIn 1 (.int w) (.raw bs)
  | str (c : List Byte) : StoredIn 4 .str (.str c)
  | utf8 (c : List Byte) : StoredIn 2 .utf8 (.str c)
  | cross {w : Width} {bs : List Byte} : bs.length = w.bytes → StoredIn 1 (.cross w) (.raw bs)
  | binary (m : ℕ) (bs : List Byte) : StoredIn 1 (.binary m) (.raw bs)
  | bitset (v : ℕ) (bs : List Bool) : StoredIn 4 (.bitset v) (.bits bs)
  | bitvec (bs : List Bool) : StoredIn 4 .bitvec (.bits bs)
  | container {b sz t os} (k : Obj → ℕ) :
      (∀ o ∈ os, StoredIn (k o) t o) →
      StoredIn (elementCalls k os + 4) (.container b sz t) (.seq os)
  | containerNull (sz : ℕ) (t : Ty) : StoredIn 3 (.container true sz t) (.ptr none)
  | array {b cap m t} {os : List Obj} (k : Obj → ℕ) :
      m ≤ os.length →
      (∀ o ∈ os.take m, StoredIn (k o) t o) →
      StoredIn (elementCalls k (os.take m) + 4) (.array b cap t) (.arr os m)
  /-- a size that stands for a null pointer -/
  | arrayInvalid (b : Bool) (cap : ℕ) (t : Ty) (os : List Obj) :
      StoredIn 3 (.array b cap t) (.arr os invalidSize)
  | arrayNull (cap : ℕ) (t : Ty) : StoredIn 3 (.array true cap t) (.ptr none)
  | pair {n m t u a b} : StoredIn n t a → StoredIn m u b → StoredIn (n + m) (.pair t u) (.pair a b)
  | unit : StoredIn 0 .unit .unit
  | struct {n t o} (mv : Bool) : StoredIn n t o → StoredIn (n + 1) (.struct mv t) o
  | stringLimit (v : ℕ) (o : Obj) : StoredIn 1 (.stringLimit v) o
  | streamLimit (v : ℕ) (o : Obj) : StoredIn 1 (.streamLimit v) o
  | containerLimit (v : ℕ) (o : Obj) : StoredIn 1 (.containerLimit v) o
  | stream (src dst : Option (ℕ × ℕ)) (ris : IStream) :
      StoredIn (ris.content.length + 3) (.stream src dst) (.istream ris)
  | streamNull (src dst : Option (ℕ × ℕ)) : StoredIn 3 (.stream src dst) (.ptr none)
  | ptrNull (sh : Bool) (base : ℕ) : StoredIn 1 (.ptr sh base) (.ptr none)
  | ptr {n id t o} (sh : Bool) (base : ℕ) :
      id < Width.bound .w64 →
      StoredIn n t o →
      StoredIn (n + 2) (.ptr sh base) (.ptr (some (id, t, o)))
  | call {n t o} (ctx : Bool) (err : Option SerError) :
      StoredIn n t o →
      StoredIn (n + 2) (.call ctx t err) o
  | error (e : SerError) (o : Obj) : StoredIn 1 (.error e) o

/-- The functions without data on `estk`, and the calls they lead to. -/
inductive SFrame.Plain : ℕ → SFrame → Prop where
  | setStringLimit (v : ℕ) : SFrame.Plain 1 (.setStringLimit v)
  | setStreamLimit (v : ℕ) : SFrame.Plain 1 (.setStreamLimit v)
  | setContainerLimit (v : ℕ) : SFrame.Plain 1 (.setContainerLimit v)
  | storeBinary {k : BinSize} {p} : k.Holds p → SFrame.Plain 1 (.storeBinary k p)
  | storeBool (b : Bool) : SFrame.Plain 1 (.storeBool b)
  | storeInt {w : Width} {p : List Byte} : p.length = w.bytes → SFrame.Plain 1 (.storeInt w p)
  | storeString (c : List Byte) : SFrame.Plain 4 (.storeString c)
  | storeStreamCheck (v : ℕ) : SFrame.Plain 1 (.storeStreamCheck v)
  | storeUtf8 (p : List Byte) : SFrame.Plain 2 (.storeUtf8 p)
  | storeCross {w : Width} {v} : v < w.bound → SFrame.Plain 1 (.storeCross w v)
  | storeBits (bs : List Bool) : SFrame.Plain 4 (.storeBits bs)
  | storeBitsContinue (bs : List Bool) (k : ℕ) : SFrame.Plain 1 (.storeBitsContinue bs k)
  | storeContainerNull (t : Ty) : SFrame.Plain 3 (.storeContainer t none)
  | storeReturnError (e : SerError) : SFrame.Plain 1 (.storeReturnError e)
  | storeReturnSuccess : SFrame.Plain 1 .storeReturnSuccess

/-- Stacks of a run over objects that can be stored, with a bound on the calls that are
    left. -/
inductive Runnable : ℕ → List SFrame → List SExt → Prop where
  | nil (es : List SExt) : Runnable 0 [] es
  | plain {n k} {f : SFrame} {fs es} : f.Plain k → Runnable n fs es → Runnable (n + k) (f :: fs) es
  | popExtStack {n fs es} (e : SExt) :
      Runnable n fs es →
      Runnable (n + 1) (.popExtStack :: fs) (e :: es)
  | storeStreamBegin {n fs es} (np : Bool) (off len : ℕ) (ris : IStream) :
      Runnable n fs es →
      Runnable (n + (ris.content.length + 2))
        (.storeStreamBegin np off :: .storeStream ris len :: fs) es
  | storeStream {n fs es} (ris : IStream) (len : ℕ) :
      Runnable n fs es →
      Runnable (n + (ris.content.length - ris.pos + 1)) (.storeStream ris len :: fs) es
  | storeContainer {n fs es t c} (k : Obj → ℕ) : (∀ o ∈ c, StoredIn (k o) t o) → Runnable n fs es →
      Runnable (n + (elementCalls k c + 4)) (.storeContainer t (some c) :: fs) es
  | storeContainerContinue {n fs es t rest} (k : Obj → ℕ) :
      (∀ o ∈ rest, StoredIn (k o) t o) →
      Runnable n fs es →
      Runnable (n + (elementCalls k rest + 1)) (.storeContainerContinue t :: fs) (.iter rest :: es)
  | storeArray {n m fs es t} {c : List Obj} (k : Obj → ℕ) :
      m ≤ c.length →
      (∀ o ∈ c.take m, StoredIn (k o) t o) →
      Runnable n fs es →
      Runnable (n + (elementCalls k (c.take m) + 4)) (.storeArray t (some c) :: fs)
        (.vals m 0 :: es)
  | storeArrayNull {n m i fs es c} (t : Ty) : c = none ∨ m = invalidSize → Runnable n fs es →
      Runnable (n + 3) (.storeArray t c :: fs) (.vals m i :: es)
  | storeArrayContinue {n m i fs es t} {c : List Obj} (k : Obj → ℕ) :
      m ≤ c.length →
      (∀ o ∈ (c.take m).drop i, StoredIn (k o) t o) →
      Runnable n fs es →
      Runnable (n + (elementCalls k ((c.take m).drop i) + 1)) (.storeArrayContinue t c :: fs)
        (.vals m i :: es)
  | store {n k fs es t o} :
      StoredIn k t o →
      Runnable n fs es →
      Runnable (n + (k + 1)) (.store t o :: fs) es
  | storeCall {n k fs es t o} (ctx : Bool) (err : Option SerError) (e : SExt) : StoredIn k t o →
      Runnable n fs es → Runnable (n + (k + 2)) (.storeCall ctx t o err :: fs) (e :: es)

/-- **Scheduling an object** that can be stored. -/
theorem Runnable.push {n m : ℕ} {fs : List SFrame} {es : List SExt} {t : Ty} {o : Obj}
    (ho : StoredIn m t o) (h : Runnable n fs es) :
    ∃ k, k ≤ n + m ∧ Runnable k ((SFrame.ofTy t o).1 ++ fs) ((SFrame.ofTy t o).2 ++ es) := by
  induction ho generalizing n fs es with
  | bool b => exact ⟨_, le_rfl, .plain (.storeBool b) h⟩
  | int hbs => exact ⟨_, le_rfl, .plain (.storeInt hbs) h⟩
  | str c => exact ⟨_, le_rfl, .plain (.storeString c) h⟩
  | utf8 c => exact ⟨_, le_rfl, .plain (.storeUtf8 _) h⟩
  | cross hbs => exact ⟨_, le_rfl, .plain (.storeCross (bytes_lt_bound hbs)) h⟩
  | binary m bs => exact ⟨_, le_rfl, .plain (.storeBinary trivial) h⟩
  | bitset v bs => exact ⟨_, le_rfl, .plain (.storeBits bs) h⟩
  | bitvec bs => exact ⟨_, le_rfl, .plain (.storeBits bs) h⟩
  | container k hos => exact ⟨_, le_rfl, .storeContainer k hos h⟩
  | containerNull sz t => exact ⟨_, le_rfl, .plain (.storeContainerNull t) h⟩
  | array k hm hos => exact ⟨_, le_rfl, .storeArray k hm hos h⟩
  | arrayInvalid b cap t os => exact ⟨_, le_rfl, .storeArrayNull t (.inr rfl) h⟩
  | arrayNull cap t => exact ⟨_, le_rfl, .storeArrayNull t (.inl rfl) h⟩
  | pair _ _ iht ihu =>
    obtain ⟨k, hk, hu⟩ := ihu h
    obtain ⟨k', hk', ht⟩ := iht hu
    refine ⟨k', by omega, ?_⟩
    simpa only [SFrame.ofTy, append_assoc] using ht
  | unit => exact ⟨_, le_rfl, h⟩
  | struct mv ho => exact ⟨_, le_rfl, .store ho h⟩
  | stringLimit v o => exact ⟨_, le_rfl, .plain (.setStringLimit v) h⟩
  | streamLimit v o => exact ⟨_, le_rfl, .plain (.setStreamLimit v) h⟩
  | containerLimit v o => exact ⟨_, le_rfl, .plain (.setContainerLimit v) h⟩
  | stream src dst ris =>
    rcases src with _ | ⟨off, len⟩
    · exact ⟨_, by omega, .storeStreamBegin false invalidSize invalidSize ris h⟩
    · refine ⟨_, ?_, .plain (.storeStreamCheck len) (.storeStreamBegin false off len ris h)⟩
      omega
  | streamNull src dst =>
    rcases src with _ | ⟨off, len⟩
    · exact ⟨_, le_succ _, .storeStreamBegin true invalidSize invalidSize ⟨[], 0, true⟩ h⟩
    · refine ⟨_, ?_, .plain (.storeStreamCheck len)
        (.storeStreamBegin true off len ⟨[], 0, true⟩ h)⟩
      exact le_rfl
  | ptrNull sh base => exact ⟨_, le_rfl, .plain (.storeCross (by decide)) h⟩
  | ptr sh base hid ho =>
    refine ⟨_, ?_, .plain (.storeCross hid) (.store ho h)⟩
    omega
  | call ctx err ho => exact ⟨_, le_rfl, .storeCall ctx err _ ho h⟩
  | error e o => exact ⟨_, le_rfl, .plain (.storeReturnError e) h⟩

/-- The stacks of the serializer are those of such a run, possibly with the rest of a cross
    integer on top. -/
inductive Loaded (s : SerializerBase) : ℕ → Prop where
  | plan {n} : Runnable n s.fstk s.estk → Loaded s n
  | cross {n k fs} :
      s.fstk = .storeCrossContinue k :: fs →
      k < s.tmpstr.length →
      Runnable n fs s.estk →
      Loaded s (n + 1)

namespace SerializerBase
variable (s : SerializerBase)

def Waits : Prop :=
  match s.fstk with
  | .storeBool _ :: _ => True
  | .storeBinary _ p :: _ => p ≠ []
  | .storeCross .. :: _ => True
  | .storeCrossContinue k :: _ => k < s.tmpstr.length
  | .storeBitsContinue bs k :: _ => bs.drop k ≠ []
  | .storeStreamBegin .. :: _ => True
  | .storeStream .. :: _ => True
  | _ => False

/-- The room that the function on top needs to store something. -/
def need : ℕ :=
  match s.fstk with
  | .storeStreamBegin .. :: _ | .storeStream .. :: _ => minStreamBufferSize
  | _ => 1

end SerializerBase

/-! ## One call of a function -/

/-- What a call does, with `room` bytes left, when at most `n` calls are left. -/
inductive Called (n : ℕ) (s : SerializerBase) (room : ℕ) :
    Ret → List Byte → SerializerBase → Prop where
  | failure {out} {s' : SerializerBase} :
      s'.err.isSome →
      (s.Waits → s.need ≤ room) →
      Called n s room .failure out s'
  /-- the function stays, with bytes to store -/
  | wait {out : List Byte} {s' : SerializerBase} {n'} :
      Loaded s' n' →
      n' ≤ n →
      s'.Waits →
      out.length ≤ room →
      (room < 2 ^ 31 → (out ≠ [] ↔ s.need ≤ room)) →
      Called n s room .wait out s'
  /-- the next function comes nearer -/
  | go {ret} {out : List Byte} {s' : SerializerBase} {n'} :
      ret = .cont ∨ ret = .success →
      Loaded (s'.after ret) n' →
      n' < n →
      out.length ≤ room →
      (s.Waits → s.need ≤ room ∧
        (out ≠ [] ∨ (s'.after ret).Waits ∧ (s'.after ret).need ≤ room - out.length)) →
      Called n s room ret out s'

def Callable (n : ℕ) (s : SerializerBase) (room : ℕ) : Prop :=
  ∃ ret out s', s.step false room = some (ret, out, s') ∧ Called n s room ret out s'

section Calls
variable {n m k room : ℕ} {s s' : SerializerBase} {f : SFrame} {fs : List SFrame} {es : List SExt}
  {out : List Byte} {t : Ty} {o : Obj}

theorem Callable.of_failure (hstep : s.step false room = some (.failure, out, s'))
    (herr : s'.err.isSome) (hroom : s.Waits → s.need ≤ room) : Callable n s room :=
  ⟨_, _, _, hstep, .failure herr hroom⟩

theorem Callable.of_cont (hstep : s.step false room = some (.cont, [], s')) (h : Loaded s' m)
    (hlt : m < n) (hnot : ¬ s.Waits) : Callable n s room :=
  ⟨_, _, _, hstep, .go (.inl rfl) h hlt (zero_le _) fun hw => absurd hw hnot⟩

theorem Callable.of_pop (hstep : s.step false room = some (.success, [], s'))
    (h : Loaded (s'.after .success) m) (hlt : m < n) (hnot : ¬ s.Waits) : Callable n s room :=
  ⟨_, _, _, hstep, .go (.inr rfl) h hlt (zero_le _) fun hw => absurd hw hnot⟩

theorem Callable.of_stored (hstep : s.step false room = some (.success, out, s'))
    (h : Loaded (s'.after .success) m) (hlt : m < n) (hout : out.length ≤ room)
    (hneed : s.Waits → out ≠ []) (hone : s.need = 1) : Callable n s room := by
  refine ⟨_, _, _, hstep, .go (.inr rfl) h hlt hout fun hw => ?_⟩
  have hpos : 0 < out.length := length_pos_iff.2 (hneed hw)
  exact ⟨by omega, .inl (hneed hw)⟩

theorem Callable.of_full (hstep : s.step false room = some (.wait, out, s')) (h : Loaded s' m)
    (hle : m ≤ n) (hw : s'.Waits) (hfull : out.length = room) (hone : s.need = 1) :
    Callable n s room := by
  refine ⟨_, _, _, hstep, .wait h hle hw hfull.le fun _ => ?_⟩
  rw [hone, ← hfull, ← length_pos_iff]
  rfl

theorem loaded_below (hf : s.fstk = f :: fs) (h : Runnable n fs s.estk) :
    Loaded (s.after .success) n := by
  refine .plan ?_
  show Runnable n s.fstk.tail s.estk
  rw [hf]
  exact h

theorem callable_binary {b : BinSize} {p : List Byte} (hb : b.Holds p)
    (hstep : s.step false room = some ((storeBinary b p room).1, (storeBinary b p room).2.1,
      { s with fstk := (storeBinary b p room).2.2 :: fs }))
    (hw : s.Waits → p ≠ []) (hone : s.need = 1) (h : Runnable n fs s.estk) :
    Callable (n + 1) s room := by
  rcases hr : storeBinary b p room with ⟨ret, out, f'⟩
  rw [hr] at hstep
  rcases storeBinary_spec hb hr with ⟨rfl, rfl, hle⟩ | ⟨rfl, k', q, rfl, rfl, hq, hk', hroom⟩
  · exact .of_stored hstep (loaded_below rfl h) (lt_succ_self n) hle hw hone
  · exact .of_full hstep (.plan (.plain (.storeBinary hk') h)) le_rfl hq hroom hone

theorem callable_storeBool {b : Bool} (hf : s.fstk = .storeBool b :: fs)
    (h : Runnable n fs s.estk) : Callable (n + 1) s room := by
  have hone : s.need = 1 := by simp only [need, hf]
  by_cases hroom : 1 ≤ room
  · have hstep : s.step false room = some (.success, [if b then 1 else 0], s) := by
      simp [step, hf, hroom]
    exact .of_stored hstep (loaded_below hf h) (lt_succ_self n) hroom (fun _ => by simp) hone
  · have hstep : s.step false room = some (.wait, [], s) := by
      simp [step, hf, hroom]
    have hself : Loaded s (n + 1) := .plan (by rw [hf]; exact .plain (.storeBool b) h)
    have hw : s.Waits := by simp only [Waits, hf]
    exact .of_full hstep hself le_rfl hw (by simp; omega) hone

/-- A function that checks a limit and announces a size, over its continuation. -/
theorem callable_announce (size limit : ℕ) (e1 e2 : SerError) {g : SFrame} (hnot : ¬ s.Waits)
    (hstep : s.step false room = if limit < size then s.fail e1
      else (computeValueWithCrc .w64 size).elim (s.fail e2) fun crcsz => s.announce g fs crcsz es)
    (h : Runnable m (g :: fs) es) (hlt : m + 2 < n) : Callable n s room := by
  by_cases hlimit : limit < size
  · rw [if_pos hlimit] at hstep
    exact .of_failure hstep rfl fun hw => absurd hw hnot
  · rw [if_neg hlimit] at hstep
    cases hcrc : computeValueWithCrc .w64 size with
    | none =>
      rw [hcrc] at hstep
      exact .of_failure hstep rfl fun hw => absurd hw hnot
    | some crcsz =>
      rw [hcrc] at hstep
      have hcross : Runnable (m + 1 + 1) (.storeCross .w64 crcsz :: .popExtStack :: g :: fs)
          (.val crcsz :: es) := .plain (.storeCross (computeValueWithCrc_lt hcrc))
          (.popExtStack _ h)
      exact .of_cont hstep (.plan hcross) hlt hnot

theorem callable_storeUtf8 {p : List Byte} (hf : s.fstk = .storeUtf8 p :: fs)
    (h : Runnable n fs s.estk) : Callable (n + 2) s room := by
  have hnot : ¬ s.Waits := by simp [Waits, hf]
  have hstep : s.step false room = if s.lmts.stringlimit < p.length - 1 then s.fail .utf8Limit
      else if maxValueWithoutCrc .w32 < p.length - 1 then s.fail .utf8MaxLimit
      else some (.cont, [], { s with fstk := .storeBinary .b0 p :: fs }) := by
    simp only [step, hf]
  split_ifs at hstep
  · exact .of_failure hstep rfl fun hw => absurd hw hnot
  · exact .of_failure hstep rfl fun hw => absurd hw hnot
  · exact .of_cont hstep (.plan (.plain (.storeBinary trivial) h)) (by omega) hnot

theorem callable_storeCross {w : Width} {v : ℕ} (hf : s.fstk = .storeCross w v :: fs)
    (hv : v < w.bound) (h : Runnable n fs s.estk) : Callable (n + 1) s room := by
  have hone : s.need = 1 := by simp only [need, hf]
  have hsize : 0 < crossSize w v := succ_pos _
  by_cases hroom : crossSize w v ≤ room
  · have hstep : s.step false room = some (.success, crossBytes w v, s) := by
      simp [step, hf, hroom, crossStore_eq hv]
    refine .of_stored hstep (loaded_below hf h) (lt_succ_self n) (by simpa using hroom) ?_ hone
    intro _
    rw [← length_pos_iff, crossBytes_length]
    exact hsize
  · have hstep : s.step false room = some (.wait, (crossBytes w v).take room,
        { s with fstk := .storeCrossContinue room :: fs, tmpstr := crossBytes w v }) := by
      simp [step, hf, hroom, crossStore_eq hv]
    have hlt : room < (crossBytes w v).length := by simpa using hroom
    refine .of_full hstep (.cross rfl hlt h) le_rfl hlt ?_ hone
    rw [length_take]
    omega

theorem callable_storeCrossContinue (hf : s.fstk = .storeCrossContinue k :: fs)
    (hk : k < s.tmpstr.length) (h : Runnable n fs s.estk) : Callable (n + 1) s room := by
  have hone : s.need = 1 := by simp only [need, hf]
  by_cases hroom : s.tmpstr.length - k ≤ room
  · have hstep : s.step false room = some (.success, s.tmpstr.drop k, { s with tmpstr := [] }) := by
      simp only [step, hf, Nat.min_eq_left hroom, Bool.false_eq_true, if_false]
      rw [if_pos (by omega), take_of_length_le (by rw [length_drop])]
    refine .of_stored hstep (loaded_below hf h) (Nat.lt_succ_self n) ?_ (fun _ => ?_) hone
    · rw [length_drop]
      exact hroom
    · rw [Ne, drop_eq_nil_iff]
      omega
  · have hstep : s.step false room = some (.wait, (s.tmpstr.drop k).take room,
        { s with fstk := .storeCrossContinue (k + room) :: fs }) := by
      simp only [step, hf, Nat.min_eq_right (Nat.le_of_not_le hroom), Bool.false_eq_true, if_false]
      rw [if_neg (by omega)]
    have hlt : k + room < s.tmpstr.length := by omega
    refine .of_full hstep (.cross rfl hlt h) le_rfl hlt ?_ hone
    rw [length_take, length_drop]
    omega

theorem callable_storeBitsContinue {bs : List Bool} (hf : s.fstk = .storeBitsContinue bs k :: fs)
    (h : Runnable n fs s.estk) : Callable (n + 1) s room := by
  have hone : s.need = 1 := by simp only [need, hf]
  obtain ⟨hacc, hle, hfull, hsuf⟩ := storeBitsLoop_spec (bs.drop k) room 0 0 (fun _ => rfl)
  set r := storeBitsLoop (bs.drop k) room 0 0 with hr
  have hstep : s.step false room = some (if r.2 = [] then .success else .wait, r.1,
      { s with fstk := .storeBitsContinue bs (bs.length - r.2.length) :: fs }) := by
    simp [step, hf, ← hr]
  have hbits : bitsBytes (bs.drop k) = r.1 ++ bitsBytes r.2 := hacc
  by_cases hnil : r.2 = []
  · rw [if_pos hnil] at hstep
    refine .of_stored hstep (loaded_below rfl h) (lt_succ_self n) hle (fun hw => ?_) hone
    rw [hnil, show bitsBytes [] = [] from rfl, append_nil] at hbits
    rw [← hbits]
    have hne : bs.drop k ≠ [] := by simpa only [Waits, hf] using hw
    obtain ⟨b, bs', hcons⟩ := exists_cons_of_ne_nil hne
    rw [hcons]
    exact bitsAcc_ne_nil _ _ _ _
  · rw [if_neg hnil] at hstep
    have hdrop : bs.drop (bs.length - r.2.length) = r.2 := by
      obtain ⟨pre, hpre⟩ := hsuf.trans (drop_suffix k bs)
      rw [← hpre, length_append, Nat.add_sub_cancel, drop_left]
    refine .of_full hstep (.plan (.plain (.storeBitsContinue _ _) h)) le_rfl ?_ (hfull hnil) hone
    show bs.drop _ ≠ []
    rw [hdrop]
    exact hnil

theorem Callable.of_small (hstep : s.step false room = some (.wait, [], s)) (h : Loaded s n)
    (hw : s.Waits) (hsmall : room < 2 ^ 31 → room < s.need) : Callable n s room := by
  refine ⟨_, _, _, hstep, .wait h le_rfl hw (zero_le _) fun hbuf => ?_⟩
  exact iff_of_false (fun hne => hne rfl) (not_le.2 (hsmall hbuf))

theorem Callable.of_mark {v : ℕ} (hstep : s.step false room = some (.success, store16 v, s'))
    (h : Loaded (s'.after .success) m) (hlt : m < n) (hneed : s.need ≤ room) (htwo : 2 ≤ room) :
    Callable n s room := by
  refine ⟨_, _, _, hstep, .go (.inr rfl) h hlt ?_ fun _ => ⟨hneed, .inl ?_⟩⟩
  · rw [store16_length]
    exact htwo
  · rw [← length_pos_iff, store16_length]
    exact two_pos

theorem callable_storeStreamBegin {np : Bool} {off len : ℕ} {ris : IStream}
    (hf : s.fstk = .storeStreamBegin np off :: .storeStream ris len :: fs)
    (h : Runnable n fs s.estk) : Callable (n + (ris.content.length + 2)) s room := by
  have hneed : s.need = minStreamBufferSize := by simp only [SerializerBase.need, hf]
  have hself : Loaded s (n + (ris.content.length + 2)) :=
    .plan (by rw [hf]; exact .storeStreamBegin np off len ris h)
  have hstep : s.step false room = s.storeStreamBegin np off (.storeStream ris len :: fs) room := by
    simp [SerializerBase.step, hf]
  unfold SerializerBase.storeStreamBegin at hstep
  by_cases hsmall : toInt32 room < minStreamBufferSize
  · rw [if_pos hsmall] at hstep
    have hw : s.Waits := by simp only [SerializerBase.Waits, hf]
    refine .of_small hstep hself hw fun hbuf => ?_
    rw [toInt32_of_lt hbuf] at hsmall
    rw [hneed]
    exact_mod_cast hsmall
  rw [if_neg hsmall] at hstep
  have henough : minStreamBufferSize ≤ room := by
    by_contra hlt
    have hlt := Nat.lt_of_not_le hlt
    rw [toInt32_of_lt (hlt.trans (by decide))] at hsmall
    exact hsmall (by exact_mod_cast hlt)
  have hroom : s.need ≤ room := hneed ▸ henough
  have htwo : 2 ≤ room := le_trans (by decide) henough
  -- the stream itself is next
  have hstream : ∀ (ris' : IStream) (s' : SerializerBase), ris'.content = ris.content →
      s.step false room = some (.success, [], s') →
      s'.fstk.tail = .storeStream ris' len :: fs → s'.estk = s.estk →
      Callable (n + (ris.content.length + 2)) s room := by
    intro ris' s' hcontent hstep htail hestk
    have hnext : Loaded (s'.after .success) (n + (ris'.content.length - ris'.pos + 1)) := by
      refine .plan ?_
      show Runnable _ s'.fstk.tail s'.estk
      rw [htail, hestk]
      exact .storeStream ris' len h
    have hwaits : (s'.after .success).Waits ∧ (s'.after .success).need ≤ room := by
      simp only [SerializerBase.Waits, SerializerBase.need, SerializerBase.after, htail]
      exact ⟨trivial, henough⟩
    refine ⟨_, _, _, hstep, .go (.inr rfl) hnext ?_ (zero_le _) fun _ => ⟨hroom, .inr hwaits⟩⟩
    rw [hcontent]
    omega
  cases np with
  | true =>
    simp only [if_true] at hstep
    exact .of_mark hstep (.plan h) (by omega) hroom htwo
  | false =>
    simp only [Bool.false_eq_true, if_false] at hstep
    by_cases hoff : off = invalidSize
    · rw [if_pos hoff] at hstep
      exact hstream ris _ rfl hstep (by simp [hf]) rfl
    · rw [if_neg hoff] at hstep
      have hcontent : (ris.seekg off).content = ris.content := by
        unfold IStream.seekg
        split_ifs <;> rfl
      by_cases htell : (ris.seekg off).tellg = some off
      · rw [if_pos htell] at hstep
        exact hstream _ _ hcontent hstep rfl rfl
      · rw [if_neg htell] at hstep
        exact .of_mark hstep (.plan h) (by omega) hroom htwo

theorem callable_storeStream {ris : IStream} {len : ℕ} (hf : s.fstk = .storeStream ris len :: fs)
    (h : Runnable n fs s.estk) :
    Callable (n + (ris.content.length - ris.pos + 1)) s room := by
  have hneed : s.need = minStreamBufferSize := by simp only [need, hf]
  have hstep : s.step false room = s.storeStream ris len fs room := by
    simp [step, hf]
  unfold storeStream at hstep
  by_cases hsmall : room < minStreamBufferSize
  · rw [if_pos hsmall] at hstep
    have hself : Loaded s (n + (ris.content.length - ris.pos + 1)) :=
      .plan (by rw [hf]; exact .storeStream ris len h)
    have hw : s.Waits := by simp only [Waits, hf]
    exact .of_small hstep hself hw fun _ => hneed ▸ hsmall
  rw [if_neg hsmall] at hstep
  have hroom : s.need ≤ room := hneed ▸ Nat.le_of_not_lt hsmall
  have htwo : 2 ≤ room := le_trans (by decide) (Nat.le_of_not_lt hsmall)
  set toread := min (min (room - 2) len) (maxValueWithoutCrc .w16) with htoread
  by_cases hzero : toread = 0
  · rw [if_pos hzero] at hstep
    exact .of_mark hstep (loaded_below hf h) (by omega) hroom htwo
  rw [if_neg hzero] at hstep
  set r := if ris.fail then ([], ris) else ris.read toread with hr
  by_cases hnil : r.1 = []
  · rw [if_pos hnil] at hstep
    exact .of_mark hstep (.plan h) (by omega) hroom htwo
  rw [if_neg hnil] at hstep
  have hok : ris.fail = false := by
    by_contra hfail
    rw [hr, if_pos (by simpa using hfail)] at hnil
    exact hnil rfl
  have hread : r = ris.read toread := by rw [hr, if_neg (by simp [hok])]
  have hlen : r.1.length ≤ toread := by
    rw [hread]
    exact ris.read_length_le _
  have hpos : 0 < r.1.length := length_pos_iff.2 hnil
  by_cases hlimit : s.lmts.streamlimit < (s.streamsz + r.1.length) % 2 ^ 64
  · rw [if_pos hlimit] at hstep
    exact .of_failure hstep rfl fun _ => hroom
  rw [if_neg hlimit] at hstep
  -- the position has moved on
  have hmoved : r.2.content.length - r.2.pos < ris.content.length - ris.pos := by
    have hinside : r.1.length ≤ ris.content.length - ris.pos := by
      rw [hread]
      simp only [IStream.read, length_take, length_drop]
      omega
    have hcontent : r.2.content = ris.content := by rw [hread]; rfl
    have hplace : r.2.pos = ris.pos + r.1.length := by rw [hread]; rfl
    rw [hcontent, hplace]
    omega
  refine ⟨_, _, _, hstep, .go (.inl rfl) (.plan (.storeStream r.2 _ h)) (by omega) ?_
    fun _ => ⟨hroom, .inl ?_⟩⟩
  · rw [streamChunk_length]
    omega
  · rw [← length_pos_iff, streamChunk_length]
    omega

theorem callable_storeContainerContinue {rest : List Obj} {k : Obj → ℕ}
    (hf : s.fstk = .storeContainerContinue t :: fs) (he : s.estk = .iter rest :: es)
    (hos : ∀ o ∈ rest, StoredIn (k o) t o) (h : Runnable n fs es) :
    Callable (n + (elementCalls k rest + 1)) s room := by
  have hnot : ¬ s.Waits := by simp [Waits, hf]
  cases rest with
  | nil =>
    have hstep : s.step false room = some (.success, [], { s with estk := es }) := by
      simp only [step, hf, he]
    exact .of_pop hstep (loaded_below hf h) (by omega) hnot
  | cons o rest =>
    obtain ⟨ho, hrest⟩ := forall_mem_cons.1 hos
    have hstep : s.step false room =
        some (.cont, [], { s with estk := .iter rest :: es }.push t o) := by
      simp [step, hf, he]
    obtain ⟨m, hm, hpush⟩ := (Runnable.storeContainerContinue k hrest h).push ho
    rw [← hf] at hpush
    exact .of_cont hstep (.plan hpush) (by rw [elementCalls_cons]; omega) hnot

theorem callable_storeArray {c : List Obj} {k : Obj → ℕ}
    (hf : s.fstk = .storeArray t (some c) :: fs)
    (he : s.estk = .vals m 0 :: es) (hm : m ≤ c.length) (hos : ∀ o ∈ c.take m, StoredIn (k o) t o)
    (h : Runnable n fs es) : Callable (n + (elementCalls k (c.take m) + 4)) s room := by
  have hnot : ¬ s.Waits := by simp [Waits, hf]
  by_cases hinvalid : m = invalidSize
  · have hstep : s.step false room = some (.cont, [], { s with
        fstk := .storeCross .w64 invalidSize :: .popExtStack :: fs }) := by
      simp [step, hf, he, if_pos hinvalid]
    have hcross : Runnable (n + 1 + 1) (.storeCross .w64 invalidSize :: .popExtStack :: fs)
        s.estk := by
      rw [he]
      exact .plain (.storeCross (by decide)) (.popExtStack _ h)
    exact .of_cont hstep (.plan hcross) (by omega) hnot
  · have hcontinue : Runnable (n + (elementCalls k (c.take m) + 1))
        (.storeArrayContinue t c :: fs) (.vals m 0 :: es) := .storeArrayContinue (i := 0) k hm hos h
    refine callable_announce m s.lmts.containerlimit .arrayLimit .arrayMaxLimit hnot ?_ hcontinue
      (by omega)
    simp only [step, hf, he, Bool.false_eq_true, if_false, if_neg hinvalid]
    cases computeValueWithCrc .w64 m <;> rfl

theorem callable_storeArrayNull {c : Option (List Obj)} {i : ℕ}
    (hf : s.fstk = .storeArray t c :: fs)
    (he : s.estk = .vals m i :: es) (hnull : c = none ∨ m = invalidSize) (h : Runnable n fs es) :
    Callable (n + 3) s room := by
  have hnot : ¬ s.Waits := by simp [Waits, hf]
  have hcross : ∀ e, Runnable (n + 1 + 1) (.storeCross .w64 invalidSize :: .popExtStack :: fs)
      (e :: es) := fun e => .plain (.storeCross (by decide)) (.popExtStack e h)
  cases c with
  | none =>
    have hstep : s.step false room = some (.cont, [], { s with
        fstk := .storeCross .w64 invalidSize :: .popExtStack :: fs,
        estk := .vals invalidSize i :: es }) := by
      simp [step, hf, he]
    exact .of_cont hstep (.plan (hcross _)) (by omega) hnot
  | some c =>
    obtain rfl : m = invalidSize := hnull.resolve_left (Option.some_ne_none c)
    have hstep : s.step false room = some (.cont, [], { s with
        fstk := .storeCross .w64 invalidSize :: .popExtStack :: fs }) := by
      simp [step, hf, he]
    have hcross := hcross (.vals invalidSize i)
    rw [← he] at hcross
    exact .of_cont hstep (.plan hcross) (by omega) hnot

theorem callable_storeArrayContinue {os : List Obj} {k : Obj → ℕ} {i : ℕ}
    (hf : s.fstk = .storeArrayContinue t os :: fs) (he : s.estk = .vals m i :: es)
    (hm : m ≤ os.length) (hos : ∀ o ∈ (os.take m).drop i, StoredIn (k o) t o)
    (h : Runnable n fs es) : Callable (n + (elementCalls k ((os.take m).drop i) + 1)) s room := by
  have hnot : ¬ s.Waits := by simp [Waits, hf]
  by_cases hi : i < m
  · have hlt : i < (os.take m).length := by rw [length_take]; omega
    have hdrop : (os.take m).drop i = (os.take m)[i] :: (os.take m).drop (i + 1) :=
      drop_eq_getElem_cons hlt
    have hget : os[i]? = some (os.take m)[i] := by
      rw [getElem_take, getElem?_eq_getElem]
    rw [hdrop] at hos ⊢
    obtain ⟨ho, hrest⟩ := forall_mem_cons.1 hos
    have hstep : s.step false room =
        some (.cont, [], { s with estk := .vals m (i + 1) :: es }.push t (os.take m)[i]) := by
      simp [step, hf, he, hi, hget]
    obtain ⟨m', hm', hpush⟩ := (Runnable.storeArrayContinue k hm hrest h).push ho
    rw [← hf] at hpush
    exact .of_cont hstep (.plan hpush) (by rw [elementCalls_cons]; omega) hnot
  · have hstep : s.step false room = some (.success, [], { s with estk := es }) := by
      simp [step, hf, he, hi]
    exact .of_pop hstep (loaded_below hf h) (by omega) hnot

theorem callable_store (hf : s.fstk = .store t o :: fs) (ho : StoredIn k t o)
    (h : Runnable n fs s.estk) : Callable (n + (k + 1)) s room := by
  have hnot : ¬ s.Waits := by simp [Waits, hf]
  have hstep : s.step false room = some (.cont, [], { s with fstk := fs }.push t o) := by
    simp [step, hf]
  obtain ⟨m, hm, hpush⟩ := h.push ho
  exact .of_cont hstep (.plan hpush) (by omega) hnot

theorem callable_storeCall {ctx : Bool} {err : Option SerError} {e : SExt}
    (hf : s.fstk = .storeCall ctx t o err :: fs) (he : s.estk = e :: es) (ho : StoredIn k t o)
    (h : Runnable n fs es) : Callable (n + (k + 2)) s room := by
  have hnot : ¬ s.Waits := by simp [Waits, hf]
  -- the function that returns what the call reported
  obtain ⟨ret, hret, hstep⟩ : ∃ ret : SFrame, ret.Plain 1 ∧ s.step false room =
      some (.cont, [], { s with fstk := ret :: fs, estk := es, err := err.or s.err }.push t o) := by
    simp only [step, hf, he, Bool.false_eq_true, if_false]
    cases err.or s.err with
    | none => exact ⟨_, .storeReturnSuccess, rfl⟩
    | some e => exact ⟨_, .storeReturnError e, rfl⟩
  obtain ⟨m, hm, hpush⟩ := (Runnable.plain hret h).push ho
  exact .of_cont hstep (.plan hpush) (by omega) hnot

theorem callable_plain (hf : s.fstk = f :: fs) (hplain : f.Plain k) (h : Runnable n fs s.estk) :
    Callable (n + k) s room := by
  cases hplain with
  | setStringLimit | setStreamLimit | setContainerLimit =>
    have hnot : ¬ s.Waits := by simp [Waits, hf]
    refine .of_pop (by simp only [step, hf]; rfl) ?_ (lt_succ_self n) hnot
    exact loaded_below rfl h
  | storeReturnSuccess =>
    have hnot : ¬ s.Waits := by simp [Waits, hf]
    have hstep : s.step false room = some (.success, [], s) := by simp only [step, hf]
    exact .of_pop hstep (loaded_below hf h) (lt_succ_self n) hnot
  | storeBinary hb =>
    refine callable_binary hb (by simp [step, hf]) (fun hw => ?_) ?_ h
    · simpa only [Waits, hf] using hw
    · simp only [need, hf]
  | storeBool => exact callable_storeBool hf h
  | storeInt hw =>
    refine callable_binary (Width.binSize_holds hw) (by simp [step, hf]) (fun hw => ?_) ?_ h
    · simp only [Waits, hf] at hw
    · simp only [need, hf]
  | storeString c =>
    have hcontinue : Runnable (n + 1) (.storeBinary .b0 c :: fs) s.estk :=
      .plain (.storeBinary trivial) h
    refine callable_announce c.length s.lmts.stringlimit .stringLimit .stringMaxLimit ?_ ?_
      hcontinue (by omega)
    · simp [Waits, hf]
    · simp only [step, hf, Bool.false_eq_true, if_false]
      cases computeValueWithCrc .w64 c.length <;> rfl
  | storeStreamCheck v =>
    have hnot : ¬ s.Waits := by simp [Waits, hf]
    by_cases hlimit : s.lmts.streamlimit < v
    · have hstep : s.step false room = some (.failure, [], { s with
          streamerr := some .streamLimit, err := some .streamLimit }) := by
        simp [step, hf, if_pos hlimit]
      exact .of_failure hstep rfl fun hw => absurd hw hnot
    · have hstep : s.step false room = some (.success, [], s) := by
        simp [step, hf, if_neg hlimit]
      exact .of_pop hstep (loaded_below hf h) (lt_succ_self n) hnot
  | storeUtf8 => exact callable_storeUtf8 hf h
  | storeCross hv => exact callable_storeCross hf hv h
  | storeBits bs =>
    refine callable_announce bs.length s.lmts.containerlimit .containerLimit
      .containerMaxLimit ?_ ?_ (.plain (.storeBitsContinue bs 0) h) (by omega)
    · simp [Waits, hf]
    · simp only [step, hf, Bool.false_eq_true, if_false]
      cases computeValueWithCrc .w64 bs.length <;> rfl
  | storeBitsContinue => exact callable_storeBitsContinue hf h
  | storeContainerNull t =>
    have hnot : ¬ s.Waits := by simp [Waits, hf]
    have hcross : Runnable (n + 1 + 1) (.storeCross .w64 invalidSize :: .popExtStack :: fs)
        (.val invalidSize :: s.estk) := .plain (.storeCross (by decide)) (.popExtStack _ h)
    have hstep : s.step false room = some (.cont, [], { s with
        fstk := .storeCross .w64 invalidSize :: .popExtStack :: fs,
        estk := .val invalidSize :: s.estk }) := by
      simp [step, hf]
    exact .of_cont hstep (.plan hcross) (by omega) hnot
  | storeReturnError e =>
    have hnot : ¬ s.Waits := by simp [Waits, hf]
    have hstep : s.step false room = some (.failure, [], { s with err := s.err.or (some e) }) := by
      simp only [step, hf]
    exact .of_failure hstep (by simp) fun hw => absurd hw hnot

/-- **A function of such a run can be called.** -/
theorem Loaded.step (h : Loaded s n) (hne : s.fstk ≠ []) (room : ℕ) : Callable n s room := by
  cases h with
  | cross hf hk h => exact callable_storeCrossContinue hf hk h
  | plan h =>
    generalize hf : s.fstk = fstk at h
    generalize he : s.estk = estk at h
    cases h with
    | nil => exact absurd hf hne
    | plain hplain h => exact callable_plain hf hplain (he ▸ h)
    | @popExtStack _ fs es e h =>
      have hnot : ¬ s.Waits := by simp [Waits, hf]
      have hstep : s.step false room = some (.success, [], { s with estk := es }) := by
        simp only [step, hf, he]
      exact .of_pop hstep (loaded_below hf h) (lt_succ_self _) hnot
    | storeStreamBegin np off len ris h => exact callable_storeStreamBegin hf (he ▸ h)
    | storeStream ris len h => exact callable_storeStream hf (he ▸ h)
    | @storeContainer _ _ _ t c k hos h =>
      have hcontinue := Runnable.storeContainerContinue k hos h
      rw [← he] at hcontinue
      refine callable_announce c.length s.lmts.containerlimit .containerLimit
        .containerMaxLimit ?_ ?_ hcontinue (by omega)
      · simp [Waits, hf]
      · simp only [step, hf, Bool.false_eq_true, if_false]
        cases computeValueWithCrc .w64 c.length <;> rfl
    | storeContainerContinue k hos h => exact callable_storeContainerContinue hf he hos h
    | storeArray k hm hos h => exact callable_storeArray hf he hm hos h
    | storeArrayNull t hnull h => exact callable_storeArrayNull hf he hnull h
    | storeArrayContinue k hm hos h => exact callable_storeArrayContinue hf he hm hos h
    | store ho h => exact callable_store hf ho (he ▸ h)
    | storeCall ctx err e ho h => exact callable_storeCall hf he ho h

end Calls

/-! ## A call of `run` -/

/-- How a call of `run` ends: with an error, or with bytes stored and the stack empty or a
    function waiting. -/
inductive RunEnds (n : ℕ) (s : SerializerBase) (room : ℕ) (stored : List Byte) : SRun → Prop where
  | failure {s' : SerializerBase} : s'.err.isSome → RunEnds n s room stored (.failure s')
  | done {out : List Byte} {s' : SerializerBase} {n'} :
      Loaded s' n' →
      n' ≤ n →
      s'.fstk = [] ∨ s'.Waits →
      out.length ≤ room →
      (s.Waits → room < 2 ^ 31 → (out ≠ [] ↔ s.need ≤ room)) →
      RunEnds n s room stored (.done (stored ++ out) s')

/-- **Every call of `run` returns**, and from a function that waits it stores a byte iff
    there is the room which that function needs. -/
theorem Loaded.run {n fuel room : ℕ} {s : SerializerBase} (h : Loaded s n) (hfuel : n < fuel)
    (stored : List Byte) :
    ∃ r, s.runLoop false fuel room stored = some r ∧ RunEnds n s room stored r := by
  induction fuel generalizing n s room stored with
  | zero => exact absurd hfuel (not_lt_zero n)
  | succ fuel ih =>
    rw [runLoop]
    by_cases hnil : s.fstk = []
    · rw [if_pos hnil]
      have hreset : Loaded s.resetLimits n := by
        cases h with
        | plan h => exact .plan h
        | cross hf _ _ => rw [hnil] at hf; cases hf
      refine ⟨_, rfl, ?_⟩
      have hdone : RunEnds n s room stored (.done (stored ++ []) s.resetLimits) := by
        refine .done hreset le_rfl (.inl hnil) (zero_le _) fun hw => ?_
        simp only [Waits, hnil] at hw
      rwa [append_nil] at hdone
    · rw [if_neg hnil]
      obtain ⟨ret, out, s', hstep, hcalled⟩ := h.step hnil room
      rw [hstep]
      cases hcalled with
      | failure herr => exact ⟨_, rfl, .failure herr⟩
      | wait h' hle hw hout hiff => exact ⟨_, rfl, .done h' hle (.inr hw) hout fun _ => hiff⟩
      | go hret h' hlt hout hmove =>
        have hfuel' := lt_of_lt_of_le hlt (le_of_lt_succ hfuel)
        obtain ⟨r, hr, hends⟩ : ∃ r, (s'.after ret).runLoop false fuel (room - out.length)
            (stored ++ out) = some r ∧ RunEnds _ _ (room - out.length) (stored ++ out) r :=
          ih h' hfuel' (stored ++ out)
        refine ⟨r, ?_, ?_⟩
        · rcases hret with rfl | rfl <;> exact hr
        · cases hends with
          | failure herr => exact .failure herr
          | @done rest s'' n'' h'' hle hlast hrest hiff =>
            rw [append_assoc]
            refine .done h'' (hle.trans hlt.le) hlast ?_ fun hw hbuf => ?_
            · rw [length_append]
              omega
            · obtain ⟨hroom, hne | ⟨hnext, hneed⟩⟩ := hmove hw
              · exact iff_of_true (append_ne_nil_of_left_ne_nil hne _) hroom
              · have hrest := (hiff hnext (by omega)).2 hneed
                exact iff_of_true (append_ne_nil_of_right_ne_nil _ hrest) hroom

end SolidFrame
