/-
  SolidFrame formalization — what the scheduled functions of a deserializer do.

  `Loads tm Q fs es m pl`: from the stacks `fs` and `es` and the memory `m`, all
  of `pl` is taken and the memory ends in `Q`.  One rule for each function: what
  is left for the functions below it once it has loaded its part.
-/
import SolidFrame.Serialization.DeserializerPlan

namespace SolidFrame

open DeserializerBase List Nat Option

/-! ## The functions one by one -/

theorem DClean.update {L : Limits} {d : DeserializerBase} (hc : DClean L d) {fs : List DFrame}
    {es : List DExt} {m : Mem} {tmp : List Byte} {sz : ℕ} :
    DClean L { d with fstk := fs, estk := es, mem := m, tmpstr := tmp, streamsz := sz } :=
  ⟨hc.lmts, hc.rdefaultlmts, hc.err, hc.streamerr⟩

/-- From the given stacks and memory, whatever else the state holds, all of `pl`
    is taken. -/
def Loads (tm : TypeMap) (Q : Goal) (fs : List DFrame) (es : List DExt) (m : Mem)
    (pl : List Wire) : Prop :=
  ∀ d : DeserializerBase, DClean Q.lmts d →
    Receives tm Q { d with fstk := fs, estk := es, mem := m } pl

section Loads
variable {tm : TypeMap} {Q : Goal} {fs : List DFrame} {es : List DExt} {m : Mem}
  {pl : List Wire} {l : Loc}

theorem Loads.nil (hmet : Q.met) (h : Q.post m) : Loads tm Q [] [] m [] :=
  fun _ hc => .done hmet rfl rfl hc.update h

variable {off : ℕ} {f : DFrame} {bs : List Byte} {cur n : ℕ}

theorem Loads.refused (hmet : ¬ Q.met) (h : ∀ d : DeserializerBase, DClean Q.lmts d → ∀ avail,
      Refused tm { d with fstk := f :: fs, estk := es, mem := m } avail) :
    Loads tm Q (f :: fs) es m pl :=
  fun d hc => .refused (by simp) hc.update hmet (h d hc)

variable {es' : List DExt} {m' : Mem} {w : Width}

theorem Loads.of_cont {fs' : List DFrame}
    (hstep : ∀ d : DeserializerBase, DClean Q.lmts d → ∀ avail,
      step { d with fstk := f :: fs, estk := es, mem := m } tm false 0 avail =
        some (.cont, 0, { d with fstk := fs', estk := es', mem := m' }))
    (h : Loads tm Q fs' es' m' pl) : Loads tm Q (f :: fs) es m pl :=
  fun d hc => .silent _ (by simp) hc.update (hstep d hc) (.inr rfl) (h d hc)

theorem Loads.of_success (f' : DFrame)
    (hstep : ∀ d : DeserializerBase, DClean Q.lmts d → ∀ avail,
      step { d with fstk := f :: fs, estk := es, mem := m } tm false 0 avail =
        some (.success, 0, { d with fstk := f' :: fs, estk := es', mem := m' }))
    (h : Loads tm Q fs es' m' pl) : Loads tm Q (f :: fs) es m pl :=
  fun d hc => .silent _ (by simp) hc.update (hstep d hc) (.inl rfl) (h d hc)

theorem Loads.of_bytes (f' : DFrame)
    (hfull : ∀ d : DeserializerBase, DClean Q.lmts d → ∀ rest,
      step { d with fstk := f :: fs, estk := es, mem := m } tm false 0 (bs ++ rest) =
        some (.success, bs.length, { d with fstk := f' :: fs, estk := es', mem := m' }))
    (h : Loads tm Q fs es' m' pl)
    (hpart : ∀ d : DeserializerBase, DClean Q.lmts d → ∀ p bs', bs = p ++ bs' → bs' ≠ [] →
      ∃ fs1 es1 m1, step { d with fstk := f :: fs, estk := es, mem := m } tm
          false 0 p = some (.wait, p.length, { d with fstk := fs1, estk := es1, mem := m1 }) ∧
        (p = [] ∧ fs1 = f :: fs ∧ es1 = es ∧ m1 = m ∨ Loads tm Q fs1 es1 m1 (bytes bs' ++ pl))) :
    Loads tm Q (f :: fs) es m (bytes bs ++ pl) := by
  intro d hc
  refine .of_bytes _ (by simp) hc.update (hfull d hc) (h d hc) fun p bs' hbs hne => ?_
  obtain ⟨fs1, es1, m1, hstep, ⟨rfl, rfl, rfl, rfl⟩ | hload⟩ := hpart d hc p bs' hbs hne
  · exact .inl ⟨rfl, hstep⟩
  · exact .inr (.inl ⟨_, hstep, hload d hc⟩)

theorem upd_writeRaw_append (m : Mem) (l : Loc) (off : ℕ) (p q : List Byte) :
    (m.upd l (Obj.writeRaw off p)).upd l (Obj.writeRaw (off + p.length) q) =
      m.upd l (Obj.writeRaw off (p ++ q)) := by
  rw [Mem.upd_upd]
  congr 1
  funext o
  cases o with
  | raw bs => simp only [Function.comp, Obj.writeRaw, overwrite_append]
  | _ => rfl

theorem Loads.loadBinary {k s : ℕ} (hk : k ≠ 0) (hlen : bs.length = k)
    (h : Loads tm Q fs es (m.upd l (Obj.writeRaw off bs)) pl) :
    Loads tm Q (.loadBinary k l off s :: fs) es m (bytes bs ++ pl) := by
  induction k using Nat.strongRecOn generalizing bs off m with
  | ind k ih =>
    refine .of_bytes (.loadBinary k l off s) (fun d hc rest => ?_) h fun d hc p bs' hbs hne => ?_
    · have hle : k ≤ (bs ++ rest).length := by rw [length_append]; omega
      simp [step, reads, loadBinary, if_neg hk, take_left' hlen, hlen]
    · subst hbs
      rw [length_append] at hlen
      have hpos : 0 < bs'.length := length_pos_iff.2 hne
      by_cases hp : p = []
      · refine ⟨_, _, _, ?_, .inl ⟨hp, rfl, rfl, rfl⟩⟩
        subst hp
        simp [step, loadBinary, hk]
      · have hp0 : 0 < p.length := length_pos_iff.2 hp
        refine ⟨.loadBinary (k - p.length) l (off + p.length) s :: fs, es,
          m.upd l (Obj.writeRaw off p), ?_, .inr
          (ih (k - p.length) (by omega) (by omega) (by omega) ?_)⟩
        · simp [step, reads, loadBinary, if_neg hk, if_neg (show ¬ k ≤ p.length by omega),
            if_pos (show 1 ≤ p.length from hp0), take_length]
        · rw [upd_writeRaw_append]
          exact h

theorem Loads.loadBool {b : Bool} (h : Loads tm Q fs es (m.set l (.bool b)) pl) :
    Loads tm Q (.loadBool l :: fs) es m (bytes [if b then 1 else 0] ++ pl) := by
  refine .of_bytes (.loadBool l) (fun d hc rest => ?_) h fun d hc p bs' hbs hne => ?_
  · have hb : ((if b then 1 else 0 : Byte) == 1) = b := by cases b <;> rfl
    simp [step, reads, hb]
  · obtain rfl : p = [] := by
      have := congrArg List.length hbs
      have hpos : 0 < bs'.length := length_pos_iff.2 hne
      simp only [length_append, length_singleton] at this
      exact length_eq_zero_iff.1 (by omega)
    refine ⟨_, _, _, ?_, .inl ⟨rfl, rfl, rfl, rfl⟩⟩
    simp [step]

theorem Loads.loadInt (hlen : bs.length = w.bytes)
    (h : Loads tm Q fs es (m.upd l (Obj.writeRaw 0 bs)) pl) :
    Loads tm Q (.loadInt w l :: fs) es m (bytes bs ++ pl) := by
  have hw : w.bytes ≠ 0 := by cases w <;> decide
  refine .of_bytes (.loadBinary w.bytes l 0 w.bytes) (fun d hc rest => ?_) h
    fun d hc p bs' hbs hne => ?_
  · have hle : w.bytes ≤ (bs ++ rest).length := by rw [length_append]; omega
    simp [DeserializerBase.step, DeserializerBase.reads, DeserializerBase.loadBinary, if_neg hw,
      take_left' hlen, hlen]
  · subst hbs
    rw [length_append] at hlen
    have hpos : 0 < bs'.length := length_pos_iff.2 hne
    by_cases hp : p = []
    · subst hp
      refine ⟨.loadBinary w.bytes l 0 w.bytes :: fs, es, m, ?_, .inr (.loadBinary hw ?_ ?_)⟩
      · simp [DeserializerBase.step, DeserializerBase.loadBinary, hw]
      · simpa using hlen
      · simpa using h
    · have hp0 : 0 < p.length := length_pos_iff.2 hp
      refine ⟨.loadBinary (w.bytes - p.length) l (0 + p.length) w.bytes :: fs, es,
        m.upd l (Obj.writeRaw 0 p), ?_, .inr (.loadBinary (by omega) (by omega) ?_)⟩
      · simp [DeserializerBase.step, DeserializerBase.reads, DeserializerBase.loadBinary, if_neg hw,
          if_neg (show ¬ w.bytes ≤ p.length by omega), if_pos (show 1 ≤ p.length from hp0),
          take_length]
      · rw [upd_writeRaw_append]
        exact h

theorem writeRaw_nil (off : ℕ) : Obj.writeRaw off [] = id := by
  funext o
  cases o with
  | raw bs => simp only [Obj.writeRaw, overwrite_nil, id]
  | _ => rfl

theorem Loads.loadBinary0 (h : Loads tm Q fs es (m.upd l (Obj.writeRaw off bs)) pl) :
    Loads tm Q (.loadBinary 0 l off bs.length :: fs) es m (bytes bs ++ pl) := by
  induction hs : bs.length using Nat.strongRecOn generalizing bs off m with
  | ind s ih =>
    refine .of_bytes (.loadBinary 0 l (off + s) 0) (fun d hc rest => ?_) h
      fun d hc p bs' hbs hne => ?_
    · have hmin : min (bs ++ rest).length s = s := by rw [List.length_append]; omega
      simp [DeserializerBase.step, DeserializerBase.reads, DeserializerBase.loadBinary,
        List.take_left' hs, hs]
    · subst hbs
      rw [List.length_append] at hs
      have hpos : 0 < bs'.length := List.length_pos_iff.2 hne
      have hmin : min p.length s = p.length := by omega
      have hne' : s - p.length ≠ 0 := by omega
      refine ⟨.loadBinary 0 l (off + p.length) (s - p.length) :: fs, es,
        m.upd l (Obj.writeRaw off p), ?_, ?_⟩
      · simp [DeserializerBase.step, DeserializerBase.reads, DeserializerBase.loadBinary, hmin,
          hne', List.take_length]
      · by_cases hp : p = []
        · subst hp
          exact .inl ⟨rfl, rfl, rfl, by rw [writeRaw_nil, Mem.upd_id]⟩
        · have hp0 : 0 < p.length := List.length_pos_iff.2 hp
          refine .inr (ih (s - p.length) (by omega) ?_ (by omega))
          rw [upd_writeRaw_append]
          exact h

/-! ## Cross integers -/

/-- Storing the value `v` at `dst` takes the top of the stack and the memory to
    `es'` and `m'`. -/
def StoresCross (w : Width) (v : ℕ) (dst : Dst) (es es' : List DExt) (m m' : Mem) : Prop :=
  ∀ (d : DeserializerBase) (fs : List DFrame) (tmp : List Byte),
    storeCrossValue { d with fstk := fs, estk := es, mem := m, tmpstr := tmp } w v
      dst = some { d with fstk := fs, estk := es', mem := m', tmpstr := tmp }

theorem Receives.loadCrossContinue {v k : ℕ} {dst : Dst}
    {tmp : List Byte} {d : DeserializerBase} (hc : DClean Q.lmts d) (hv : v < w.bound)
    (hst : StoresCross w v dst es es' m m') (h : Loads tm Q fs es' m' pl) (hk : k ≤ crossSize w v)
    (hlen : tmp.length = crossSize w v) (htake : tmp.take k = (crossBytes w v).take k) :
    Receives tm Q { d with
      fstk := .loadCrossContinue k :: .loadCrossDone w dst :: fs, estk := es, mem := m,
      tmpstr := tmp } (bytes ((crossBytes w v).drop k) ++ pl) := by
  induction hj : crossSize w v - k using Nat.strongRecOn generalizing k tmp with
  | ind j ih =>
    have hbs : (crossBytes w v).length = crossSize w v := crossBytes_length w v
    have hlen' : ((crossBytes w v).drop k).length = crossSize w v - k := by
      rw [length_drop, hbs]
    refine .of_bytes { d with
      fstk := .loadCrossContinue (k + (crossSize w v - k)) :: .loadCrossDone w dst :: fs,
      estk := es, mem := m, tmpstr := crossBytes w v } (by simp) hc.update (fun rest => ?_) ?_
      fun p bs' hp hne => ?_
    · have hmin : min (crossSize w v - k) ((crossBytes w v).drop k ++ rest).length =
          crossSize w v - k := by
        rw [length_append, hlen']; omega
      have hover : overwrite tmp k ((crossBytes w v).drop k) = crossBytes w v := by
        rw [overwrite, htake, take_append_drop, hlen', drop_eq_nil_of_le (by omega), append_nil]
      simp [DeserializerBase.step, DeserializerBase.reads, DeserializerBase.loadCrossContinue, hlen,
        if_neg (not_lt.2 hk), hlen', take_left' hlen', hover, if_neg
        (show ¬ k + (crossSize w v - k) < crossSize w v by omega)]
    · -- the value is complete
      refine .silent { d with
        fstk := .loadCrossDone w dst :: fs, estk := es', mem := m', tmpstr := crossBytes w v }
        (by simp) hc.update (fun avail => ?_) (.inl rfl) (h _ hc.update)
      have hload := crossLoad_crossBytes hv (maxPaddedByteCout_le hv) []
      rw [append_nil] at hload
      have hstore := hst d (.loadCrossDone w dst :: fs) (crossBytes w v)
      simp [DeserializerBase.step, DeserializerBase.reads, hload, hstore]
    · have hpos : 0 < bs'.length := length_pos_iff.2 hne
      have hplen : p.length + bs'.length = crossSize w v - k := by
        rw [← hlen', hp, length_append]
      have hstep : DeserializerBase.step { d with
          fstk := .loadCrossContinue k :: .loadCrossDone w dst :: fs, estk := es, mem := m,
          tmpstr := tmp } tm false 0 p = some (.wait, p.length, { d with
            fstk := .loadCrossContinue (k + p.length) :: .loadCrossDone w dst :: fs,
            estk := es, mem := m, tmpstr := overwrite tmp k p }) := by
        have hmin : min (crossSize w v - k) p.length = p.length := by omega
        simp [DeserializerBase.step, DeserializerBase.reads, DeserializerBase.loadCrossContinue,
          hlen, if_neg (not_lt.2 hk), hmin, take_length, if_pos
          (show k + p.length < crossSize w v by omega)]
      by_cases hnil : p = []
      · subst hnil
        rw [overwrite_nil] at hstep
        exact .inl ⟨rfl, hstep⟩
      · have hp0 : 0 < p.length := length_pos_iff.2 hnil
        have hbs' : bs' = (crossBytes w v).drop (k + p.length) := by
          rw [← drop_drop, hp, drop_left]
        refine .inr (.inl ⟨_, hstep, ?_⟩)
        rw [hbs']
        refine ih (crossSize w v - (k + p.length)) (by omega) (by omega) ?_ ?_ rfl
        · rw [overwrite_length (by omega), hlen]
        · rw [overwrite_take tmp p (by omega), htake, take_add, hp, take_left]

theorem Loads.loadCross {v : ℕ} {dst : Dst}
    (hv : v < w.bound) (hst : StoresCross w v dst es es' m m') (h : Loads tm Q fs es' m' pl) :
    Loads tm Q (.loadCross w dst :: fs) es m (bytes (crossBytes w v) ++ pl) := by
  intro d hc
  have hbs : (crossBytes w v).length = crossSize w v := crossBytes_length w v
  have hsize : announcedSize w (crossHead (maxPaddedByteCout w v)) = crossSize w v := by
    rw [announcedSize, crossSizePtr_crossHead hv]
  have h9 : crossSize w v ≤ 9 := by
    have := maxPaddedByteCout_le hv
    have := w.bytes_le
    rw [crossSize]; omega
  refine .of_bytes { d with fstk := .loadCross w dst :: fs, estk := es', mem := m' } (by simp)
    hc.update (fun rest => ?_) (h d hc) fun p bs' hp hne => ?_
  · -- all bytes are there
    have hload := crossLoad_crossBytes hv (maxPaddedByteCout_le hv) rest
    have hle : crossSize w v ≤ (crossBytes w v ++ rest).length := by
      rw [length_append, hbs]; omega
    have hstore := hst d (.loadCross w dst :: fs) d.tmpstr
    rw [hbs]
    rw [crossBytes, cons_append] at hload hle ⊢
    simp only [DeserializerBase.step, DeserializerBase.reads, DeserializerBase.loadCross, hsize,
      if_pos hle, hload, lt_irrefl, false_and, if_false, Bool.false_eq_true]
    rw [hstore]
    rfl
  · cases p with
    | nil => exact .inl ⟨rfl, rfl⟩
    | cons b p =>
      -- the first bytes go to `tmpstr`
      have hpos : 0 < bs'.length := length_pos_iff.2 hne
      obtain ⟨rfl, htail⟩ : crossHead (maxPaddedByteCout w v) = b ∧ _ := List.cons.inj hp
      have hplen : p.length + 1 + bs'.length = crossSize w v := by
        rw [← hbs, hp]; simp; omega
      set len := if w = .w8 then 1 else p.length + 1 with hlendef
      have hlen : 1 ≤ len ∧ len ≤ p.length + 1 := by
        rw [hlendef]; split <;> omega
      refine .inr (.inr ⟨len, { d with
        fstk := .loadCrossContinue len :: .loadCrossDone w dst :: fs, estk := es, mem := m,
        tmpstr := overwrite (resize d.tmpstr (crossSize w v) 0) 0
          ((crossHead (maxPaddedByteCout w v) :: p).take len) }, ?_, ?_, ?_⟩)
      · exact hlen.2
      · simp only [DeserializerBase.step, DeserializerBase.reads, DeserializerBase.loadCross, hsize,
          length_cons, if_neg (show ¬ crossSize w v ≤ p.length + 1 by omega),
          if_neg (show ¬ crossSize w v = 2 ^ 64 - 1 by omega), ← hlendef, lt_irrefl, false_and,
          if_false, Bool.false_eq_true]
      · have hres : (resize d.tmpstr (crossSize w v) (0 : Byte)).length = crossSize w v := by
          simp only [resize, length_append, length_take, length_replicate]
          omega
        have hplen' : ((crossHead (maxPaddedByteCout w v) :: p).take len).length = len := by
          rw [length_take, length_cons]; omega
        refine Receives.loadCrossContinue hc hv hst h (by omega) ?_ ?_
        · rw [overwrite_length (by omega), hres]
        · have htake := overwrite_take (resize d.tmpstr (crossSize w v) (0 : Byte))
            ((crossHead (maxPaddedByteCout w v) :: p).take len) (zero_le _)
          rw [zero_add, hplen', take_zero, nil_append] at htake
          rw [htake, hp, take_append_of_le_length hlen.2]

theorem storesCross_loc (w : Width) (v : ℕ) (l : Loc) (es : List DExt) (m : Mem) :
    StoresCross w v (.loc l) es es m (m.set l (.raw (leBytes w.bytes v))) :=
  fun _ _ _ => rfl

def IsValue (mk : ℕ → DExt) : Prop :=
  ∀ (x v : ℕ) (es : List DExt) (m : Mem), StoresCross .w64 v .top (mk x :: es) (mk v :: es) m m

theorem isValue_val : IsValue (.val · none) := fun _ _ _ _ _ _ _ => rfl

theorem isValue_vals (i : ℕ) : IsValue (.vals · i) := fun _ _ _ _ _ _ _ => rfl

/-! ## Sizes -/

theorem checkValueWithCrc_invalidSize : checkValueWithCrc .w64 invalidSize = none := by
  decide +kernel

theorem checkValueWithCrc_ffff : checkValueWithCrc .w16 0xffff = none := by decide +kernel

theorem checkSize_compute {crcsz : ℕ} (h : computeValueWithCrc .w64 n = some crcsz)
    (e : SerError) : checkSize crcsz e = .ok n := by
  have hcheck := checkValueWithCrc_compute h
  have hne : crcsz ≠ invalidSize := by
    intro heq
    rw [heq, checkValueWithCrc_invalidSize] at hcheck
    cases hcheck
  rw [checkSize, if_neg hne, hcheck]

theorem lt_invalidSize (h : n ≤ maxValueWithoutCrc .w64) : n < invalidSize := by
  have := maxValueWithoutCrc_lt_invalidSize .w64
  omega

theorem Loads.announced {mk : ℕ → DExt} {x : ℕ} (hmk : IsValue mk)
    (hn : n ≤ maxValueWithoutCrc .w64)
    (h : ∀ crcsz, computeValueWithCrc .w64 n = some crcsz → Loads tm Q fs (mk crcsz :: es) m pl) :
    Loads tm Q (.loadCross .w64 .top :: fs) (mk x :: es) m (bytes (sizeBytes n) ++ pl) := by
  obtain ⟨crcsz, hcrc⟩ := exists_crc hn
  have hsz : SolidFrame.sizeBytes n = crossBytes .w64 crcsz := by
    rw [SolidFrame.sizeBytes, hcrc]; rfl
  rw [hsz]
  exact .loadCross (computeValueWithCrc_lt hcrc) (hmk x crcsz es m) (h crcsz hcrc)

/-! ## Strings -/

theorem upd_appendStr_append (m : Mem) (l : Loc) (p q : List Byte) :
    (m.upd l (Obj.appendStr p)).upd l (Obj.appendStr q) = m.upd l (Obj.appendStr (p ++ q)) := by
  rw [Mem.upd_upd]
  congr 1
  funext o
  cases o with
  | str c => simp only [Function.comp, Obj.appendStr, append_assoc]
  | _ => rfl

theorem appendStr_nil : Obj.appendStr [] = id := by
  funext o
  cases o with
  | str c => simp only [Obj.appendStr, append_nil, id]
  | _ => rfl

theorem Loads.loadBinaryString {c : List Byte}
    (h : Loads tm Q fs es (m.upd l (Obj.appendStr c)) pl) :
    Loads tm Q (.loadBinaryString l :: fs) (.val c.length none :: es) m (bytes c ++ pl) := by
  induction hs : c.length using Nat.strongRecOn generalizing c m with
  | ind ul ih =>
    refine .of_bytes (.loadBinaryString l) (fun d hc rest => ?_) h fun d hc p c' hcp hne => ?_
    · have hmin : min (c ++ rest).length ul = ul := by rw [length_append]; omega
      simp [step, reads, loadBinaryString, popSuccess, popExt, take_left' hs, hs]
    · subst hcp
      rw [length_append] at hs
      have hpos : 0 < c'.length := length_pos_iff.2 hne
      refine ⟨.loadBinaryString l :: fs, .val (ul - p.length) none :: es,
        m.upd l (Obj.appendStr p), ?_, ?_⟩
      · have hmin : min p.length ul = p.length := by omega
        simp [step, reads, loadBinaryString, hmin, take_length,
          if_neg (show ¬ ul - p.length = 0 by omega)]
      · by_cases hp : p = []
        · subst hp
          exact .inl ⟨rfl, rfl, rfl, by rw [appendStr_nil, Mem.upd_id]⟩
        · have hp0 : 0 < p.length := length_pos_iff.2 hp
          refine .inr (ih (ul - p.length) (by omega) ?_ (by omega))
          rw [upd_appendStr_append]
          exact h

theorem Loads.loadString {c : List Byte} (hlen : c.length ≤ maxValueWithoutCrc .w64)
    (hlim : Q.met → c.length < Q.lmts.stringlimit)
    (h : c.length < Q.lmts.stringlimit → Loads tm Q fs es (m.upd l (Obj.appendStr c)) pl) :
    Loads tm Q (.loadString l :: fs) es m (bytes (sizeBytes c.length) ++ (bytes c ++ pl)) := by
  refine .of_cont (fun d hc avail => rfl) (.announced isValue_val hlen fun crcsz hcrc => ?_)
  by_cases hlt : c.length < Q.lmts.stringlimit
  · refine .of_success (.loadBinaryStringCheck l) (fun d hc avail => ?_) (.loadBinaryString (h hlt))
    simp [step, reads, loadBinaryStringCheck, checkSize_compute hcrc, hc.lmts,
      if_neg (not_le.2 hlt)]
  · refine .refused (fun hmet => hlt (hlim hmet)) fun d hc avail => ?_
    simp only [Refused, step, reads, loadBinaryStringCheck, checkSize_compute hcrc, hc.lmts,
      if_pos (not_lt.1 hlt), fail, lt_irrefl, false_and, if_false,
      Bool.false_eq_true]
    exact .inr ⟨_, _, rfl⟩

theorem beforeNul_append {c : List Byte} (h : 0 ∉ c) (rest : List Byte) :
    beforeNul (c ++ rest) = c ++ beforeNul rest := by
  refine takeWhile_append_of_pos fun b hb => ?_
  simp only [decide_eq_true_eq]
  rintro rfl
  exact h hb

theorem beforeNul_self {c : List Byte} (h : 0 ∉ c) : beforeNul c = c := by
  have happ := beforeNul_append h []
  rwa [append_nil, show beforeNul [] = [] from rfl, append_nil] at happ

theorem utf8_part {c p c' : List Byte} (hcp : c ++ [0] = p ++ c') (hne : c' ≠ []) (hnul : 0 ∉ c) :
    p ++ c.drop p.length = c ∧ c' = c.drop p.length ++ [0] ∧ 0 ∉ p := by
  have hpos : 0 < c'.length := length_pos_iff.2 hne
  have hplen : p.length ≤ c.length := by
    have := congrArg List.length hcp
    simp only [length_append, length_singleton] at this
    omega
  have hp : p = c.take p.length := by
    have := congrArg (List.take p.length) hcp
    rwa [take_left' rfl, take_append_of_le_length hplen, eq_comm] at this
  have hc' : c' = c.drop p.length ++ [0] := by
    have := congrArg (List.drop p.length) hcp
    rwa [drop_left' rfl, drop_append_of_le_length hplen, eq_comm] at this
  refine ⟨?_, hc', fun h0 => hnul (mem_of_mem_take (hp ▸ h0))⟩
  nth_rewrite 1 [hp]
  exact take_append_drop _ _

section Utf8
variable {c₀ c p : List Byte} {d : DeserializerBase}

/-- The text that was loaded and the one that is there are longer than the limit. -/
theorem refused_loadUtf8 (hc : DClean Q.lmts d) (hget : m.get l = some (.str c₀))
    {avail : List Byte} (hlim : Q.lmts.stringlimit < c₀.length + (beforeNul avail).length) :
    Refused tm { d with fstk := .loadUtf8 l :: fs, estk := es, mem := m } avail := by
  refine .inr ⟨0, { d with
    fstk := .loadUtf8 l :: fs, estk := es, mem := m, err := some .utf8Limit }, ?_⟩
  simp [step, reads, loadUtf8, hget, Obj.strLength, hc.lmts, if_pos hlim, fail]

theorem step_loadUtf8_part (hc : DClean Q.lmts d) (hget : m.get l = some (.str c₀)) (hnul : 0 ∉ p)
    (hlim : c₀.length + p.length ≤ Q.lmts.stringlimit)
    (hmax : c₀.length + p.length ≤ maxValueWithoutCrc .w32) :
    step { d with fstk := .loadUtf8 l :: fs, estk := es, mem := m } tm false 0 p =
      some (.wait, p.length, { d with
        fstk := .loadUtf8 l :: fs, estk := es, mem := m.set l (.str (c₀ ++ p)) }) := by
  have hupd : m.upd l (Obj.appendStr p) = m.set l (.str (c₀ ++ p)) := Mem.upd_eq_set hget
  simp [step, reads, loadUtf8, beforeNul_self hnul, hget, Obj.strLength, hc.lmts,
    if_neg (not_lt.2 hlim), if_neg (not_lt.2 hmax), hupd]

theorem set_append_nil (hget : m.get l = some (.str c₀)) : m.set l (.str (c₀ ++ [])) = m := by
  have hupd : m.upd l (Obj.appendStr []) = m.set l (.str (c₀ ++ [])) := Mem.upd_eq_set hget
  rw [← hupd, appendStr_nil, Mem.upd_id]

theorem Loads.loadUtf8_refused (hmet : ¬ Q.met) (hget : m.get l = some (.str c₀)) (hnul : 0 ∉ c)
    (hlen : c₀.length + c.length ≤ maxValueWithoutCrc .w32)
    (hlim : Q.lmts.stringlimit < c₀.length + c.length) :
    Loads tm Q (.loadUtf8 l :: fs) es m (bytes (c ++ [0]) ++ pl) := by
  induction hs : c.length using Nat.strongRecOn generalizing c c₀ m with
  | ind k ih =>
    intro d hc
    refine .of_run (by simp) hc.update (fun q ext pl' _ _ => ?_) fun p c' hcp hne => ?_
    · refine .inr ⟨hmet, refused_loadUtf8 hc hget ?_⟩
      rwa [append_assoc, append_assoc, beforeNul_append hnul,
        show beforeNul ([0] ++ (q ++ ext)) = [] from rfl, append_nil]
    · obtain ⟨hp, rfl, hnulp⟩ := utf8_part hcp hne hnul
      have hplen : p.length + (c.drop p.length).length = c.length := by
        rw [← length_append, hp]
      by_cases hfit : c₀.length + p.length ≤ Q.lmts.stringlimit
      · have hstep : step { d with
            fstk := .loadUtf8 l :: fs, estk := es, mem := m } tm false 0 p = some (.wait, p.length,
              { d with fstk := .loadUtf8 l :: fs, estk := es, mem := m.set l (.str (c₀ ++ p)) }) :=
          step_loadUtf8_part hc hget hnulp hfit (by omega)
        by_cases hnil : p = []
        · subst hnil
          rw [set_append_nil hget] at hstep
          exact Handles.idle hstep (bytes_append_ne_nil hne pl)
        · have hp0 : 0 < p.length := length_pos_iff.2 hnil
          refine Handles.rest hstep (bytes_append_ne_nil hne pl) ?_
          refine ih (c.drop p.length).length (by omega) (Mem.get_set hget)
            (fun h0 => hnul (mem_of_mem_drop h0)) ?_ ?_ rfl d hc
          · rw [length_append]; omega
          · rw [length_append]; omega
      · refine .inr ⟨hmet, refused_loadUtf8 hc hget ?_⟩
        rw [append_nil, beforeNul_self hnulp]
        omega

theorem Loads.loadUtf8 (hget : m.get l = some (.str c₀)) (hnul : 0 ∉ c)
    (hlen : c₀.length + c.length ≤ maxValueWithoutCrc .w32)
    (hlim : c₀.length + c.length ≤ Q.lmts.stringlimit)
    (h : Loads tm Q fs es (m.set l (.str (c₀ ++ c))) pl) :
    Loads tm Q (.loadUtf8 l :: fs) es m (bytes (c ++ [0]) ++ pl) := by
  induction hs : c.length using Nat.strongRecOn generalizing c c₀ m with
  | ind k ih =>
    have hupd : ∀ p, m.upd l (Obj.appendStr p) = m.set l (.str (c₀ ++ p)) :=
      fun p => Mem.upd_eq_set hget
    refine .of_bytes (.loadUtf8 l) (fun d hc rest => ?_) h fun d hc p c' hcp hne => ?_
    · have hnul' : beforeNul ((c ++ [0]) ++ rest) = c := by
        rw [append_assoc, beforeNul_append hnul]
        exact append_nil c
      have hlen1 : (c ++ [0]).length = c.length + 1 := by simp
      have hne : ¬ c.length = ((c ++ [0]) ++ rest).length := by rw [length_append, hlen1]; omega
      simp only [step, reads, loadUtf8, hnul',
        hget, elim_some, Obj.strLength, hc.lmts, if_neg (not_lt.2 hlim),
        if_neg (not_lt.2 hlen), if_neg hne, hupd, hlen1, lt_irrefl, false_and, if_false]
    · -- the zero is not there yet
      obtain ⟨hp, rfl, hnulp⟩ := utf8_part hcp hne hnul
      have hplen : p.length + (c.drop p.length).length = c.length := by
        rw [← length_append, hp]
      refine ⟨.loadUtf8 l :: fs, es, m.set l (.str (c₀ ++ p)),
        step_loadUtf8_part hc hget hnulp (by omega) (by omega), ?_⟩
      by_cases hnil : p = []
      · subst hnil
        exact .inl ⟨rfl, rfl, rfl, set_append_nil hget⟩
      · have hp0 : 0 < p.length := length_pos_iff.2 hnil
        refine .inr (ih (c.drop p.length).length (by omega) (Mem.get_set hget)
          (fun h0 => hnul (mem_of_mem_drop h0)) ?_ ?_ ?_ rfl)
        · rw [length_append]; omega
        · rw [length_append]; omega
        · rw [Mem.set_set, append_assoc, hp]
          exact h

end Utf8

/-! ## Bits -/

theorem bitsAcc_append (as bs : List Bool) (hoff : off < 8)
    (h : (off + as.length) % 8 = 0) (hcur : off = 0 → cur = 0) :
    bitsAcc (as ++ bs) off cur = bitsAcc as off cur ++ bitsAcc bs 0 0 := by
  induction as generalizing off cur with
  | nil =>
    obtain rfl : off = 0 := by simpa [mod_eq_of_lt hoff] using h
    rw [hcur rfl]
    rfl
  | cons a as ih =>
    simp only [cons_append, bitsAcc, length_cons] at h ⊢
    by_cases h8 : off + 1 = 8
    · rw [if_pos h8, if_pos h8, ih (by omega) (by omega) (fun _ => rfl)]
      rfl
    · rw [if_neg h8, if_neg h8, ih (by omega) (by omega) (by omega)]

theorem bitsAcc_length (bs : List Bool) (cur : ℕ) (hoff : off < 8) :
    (bitsAcc bs off cur).length = (off + bs.length + 7) / 8 := by
  induction bs generalizing off cur with
  | nil =>
    simp only [bitsAcc, length_nil]
    split
    · next h0 => subst h0; rfl
    · rw [length_singleton]; omega
  | cons b bs ih =>
    simp only [bitsAcc, length_cons]
    by_cases h8 : off + 1 = 8
    · rw [if_pos h8, length_cons, ih _ (by omega)]; omega
    · rw [if_neg h8, ih _ (by omega)]; congr 1; omega

theorem or_bit_lt (b : Bool) (h : cur < 2 ^ off) :
    (cur ||| if b then 1 <<< off else 0) < 2 ^ (off + 1) := by
  have hlt : (2 : ℕ) ^ off < 2 ^ (off + 1) := Nat.pow_lt_pow_right (by omega) (by omega)
  refine Nat.or_lt_two_pow (h.trans hlt) ?_
  rw [Nat.one_shiftLeft]
  split
  · exact hlt
  · exact Nat.two_pow_pos _

theorem bitsAcc_head (bs : List Bool) (hoff : 0 < off) (hoff' : off < 8)
    (hcur : cur < 2 ^ off) : ∃ x tl, bitsAcc bs off cur = x :: tl ∧
      ∀ i < off, x.toNat.testBit i = cur.testBit i := by
  have h256 : ∀ {n : ℕ}, n ≤ 8 → 2 ^ n ≤ 256 := fun hn => Nat.pow_le_pow_right (by omega) hn
  induction bs generalizing off cur with
  | nil =>
    refine ⟨UInt8.ofNat cur, [], if_neg (by omega), fun i _ => ?_⟩
    have := h256 (show off ≤ 8 by omega)
    rw [toNat_ofNat_byte, Nat.mod_eq_of_lt (by omega)]
  | cons b bs ih =>
    have hlt := or_bit_lt b hcur
    have hbit : ∀ i < off, (cur ||| if b then 1 <<< off else 0).testBit i = cur.testBit i := by
      intro i hi
      rw [Nat.testBit_or, Nat.one_shiftLeft]
      split
      · rw [Nat.testBit_two_pow_of_ne (by omega), Bool.or_false]
      · rw [Nat.zero_testBit, Bool.or_false]
    simp only [bitsAcc]
    by_cases h8 : off + 1 = 8
    · rw [if_pos h8]
      refine ⟨_, _, rfl, fun i hi => ?_⟩
      have := h256 (show off + 1 ≤ 8 by omega)
      rw [toNat_ofNat_byte, Nat.mod_eq_of_lt (by omega), hbit i hi]
    · rw [if_neg h8]
      obtain ⟨x, tl, heq, hx⟩ := ih (by omega) (by omega) hlt
      exact ⟨x, tl, heq, fun i hi => by rw [hx i (by omega), hbit i hi]⟩

/-- Reading `bs.length + j` bits of stored bits: all that were stored, when they
    are followed by other bytes, or end at a byte and nothing follows. -/
theorem loadBitsLoop_bitsAcc {bs : List Bool} {j : ℕ} {rest : List Byte} (hoff : off < 8)
    (hcur : cur < 2 ^ off) (hj : j = 0 ∨ rest = [] ∧ (off + bs.length) % 8 = 0) :
    loadBitsLoop (bs.length + j) (bitsAcc bs off cur ++ rest) off =
      (bs, (bitsAcc bs off cur).length) := by
  induction bs generalizing off cur with
  | nil =>
    rcases hj with rfl | ⟨rfl, h8⟩
    · by_cases h0 : off = 0 <;> simp [bitsAcc, loadBitsLoop, h0]
    · obtain rfl : off = 0 := by simpa [mod_eq_of_lt hoff] using h8
      cases j <;> simp [bitsAcc, loadBitsLoop]
  | cons b bs ih =>
    have hlt := or_bit_lt b hcur
    have hbit : (cur ||| if b then 1 <<< off else 0).testBit off = b := by
      rw [testBit_or, testBit_lt_two_pow hcur, Bool.false_or, one_shiftLeft]
      cases b
      · simp
      · simp [testBit_two_pow_self]
    have hk : (b :: bs).length + j = bs.length + j + 1 := by rw [length_cons]; omega
    have hj' : ∀ o, o % 8 = (off + 1) % 8 → j = 0 ∨ rest = [] ∧ (o + bs.length) % 8 = 0 := by
      intro o ho
      refine hj.imp_right fun h => ⟨h.1, ?_⟩
      have := h.2
      rw [length_cons] at this
      omega
    rw [hk]
    simp only [bitsAcc]
    by_cases h8 : off + 1 = 8
    · have h256 : (cur ||| if b then 1 <<< off else 0) < 256 := by
        rw [h8] at hlt; exact hlt
      rw [if_pos h8, cons_append, loadBitsLoop, if_pos h8, toNat_ofNat_byte,
        mod_eq_of_lt h256, hbit, ih (by omega) (by simp) (hj' 0 (by omega))]
      rfl
    · obtain ⟨x, tl, heq, hx⟩ := bitsAcc_head bs (show 0 < off + 1 by omega) (by omega) hlt
      have hrec := ih (show off + 1 < 8 by omega) hlt (hj' _ rfl)
      rw [if_neg h8, heq, cons_append] at *
      rw [loadBitsLoop, if_neg h8, hrec, hx off (by omega), hbit]

theorem upd_writeBits_append (m : Mem) (l : Loc) (s : ℕ) (p q : List Bool) :
    (m.upd l (Obj.writeBits s p)).upd l (Obj.writeBits (s + p.length) q) =
      m.upd l (Obj.writeBits s (p ++ q)) := by
  rw [Mem.upd_upd]
  congr 1
  funext o
  cases o with
  | bits bs => simp only [Function.comp, Obj.writeBits, overwrite_append]
  | _ => rfl

theorem writeBits_nil (s : ℕ) : Obj.writeBits s [] = id := by
  funext o
  cases o with
  | bits bs => simp only [Obj.writeBits, overwrite_nil, id]
  | _ => rfl

theorem Loads.loadBitsContinue {bs : List Bool} {s len : ℕ} (hlen : s + bs.length = len)
    (h : Loads tm Q fs es (m.upd l (Obj.writeBits s bs)) pl) :
    Loads tm Q (.loadBitsContinue l s :: fs) (.val len none :: es) m
      (bytes (bitsBytes bs) ++ pl) := by
  induction hs : bs.length using Nat.strongRecOn generalizing bs s m with
  | ind k ih =>
    have hsub : len - s = bs.length := by omega
    refine .of_bytes (.loadBitsContinue l (s + bs.length)) (fun d hc rest => ?_) h
      fun d hc p q hpq hne => ?_
    · have hloop : loadBitsLoop bs.length (bitsBytes bs ++ rest) 0 = (bs, (bitsBytes bs).length) :=
        loadBitsLoop_bitsAcc (by omega) (by simp) (.inl rfl)
      simp [step, reads, loadBitsContinue, popSuccess, popExt, hsub, hloop, hlen]
    · -- the piece ends at a byte, after `8 * p.length` bits
      have hq0 : 0 < q.length := length_pos_iff.2 hne
      have hcount : p.length + q.length = (bs.length + 7) / 8 := by
        rw [← length_append, ← hpq, bitsBytes, bitsAcc_length bs 0 (by omega), Nat.zero_add]
      have hlt : 8 * p.length < bs.length := by omega
      have htake : (bs.take (8 * p.length)).length = 8 * p.length := by
        rw [length_take]; omega
      have hsplit : bitsBytes bs =
          bitsBytes (bs.take (8 * p.length)) ++ bitsBytes (bs.drop (8 * p.length)) := by
        have happ : bitsAcc (bs.take (8 * p.length) ++ bs.drop (8 * p.length)) 0 0 = _ :=
          bitsAcc_append _ _ (by omega) (by omega) (fun _ => rfl)
        rwa [take_append_drop] at happ
      have hplen : (bitsBytes (bs.take (8 * p.length))).length = p.length := by
        rw [bitsBytes, bitsAcc_length _ 0 (by omega), htake]; omega
      obtain ⟨hp, hq⟩ := append_inj (hpq.symm.trans hsplit) hplen.symm
      have hloop : loadBitsLoop bs.length p 0 = (bs.take (8 * p.length), p.length) := by
        have hread : loadBitsLoop ((bs.take (8 * p.length)).length + (bs.length - 8 * p.length))
            (bitsBytes (bs.take (8 * p.length)) ++ []) 0 =
            (_, (bitsBytes (bs.take (8 * p.length))).length) :=
          loadBitsLoop_bitsAcc (by omega) (by simp) (.inr ⟨rfl, by omega⟩)
        rwa [htake, append_nil, Nat.add_sub_cancel' hlt.le, hplen, ← hp] at hread
      refine ⟨.loadBitsContinue l (s + 8 * p.length) :: fs, .val len none :: es,
        m.upd l (Obj.writeBits s (bs.take (8 * p.length))), ?_, ?_⟩
      · simp [step, reads, loadBitsContinue, hsub, hloop, htake,
          if_pos (show s + 8 * p.length < len by omega)]
      · by_cases hnil : p = []
        · subst hnil
          refine .inl ⟨rfl, rfl, rfl, ?_⟩
          rw [length_nil, Nat.mul_zero, take_zero, writeBits_nil, Mem.upd_id]
        · have hp0 : 0 < p.length := length_pos_iff.2 hnil
          have hdrop : (bs.drop (8 * p.length)).length = k - 8 * p.length := by
            rw [length_drop, hs]
          rw [hq]
          refine .inr (ih (k - 8 * p.length) (by omega) (by omega) ?_ hdrop)
          have happ := upd_writeBits_append m l s (bs.take (8 * p.length)) (bs.drop (8 * p.length))
          rw [htake, take_append_drop] at happ
          rw [happ]
          exact h

/-- `loadBitset<V>`, `loadBitvec`: bits whose number is the limit are refused. -/
theorem Loads.loadBits {fixed : Option ℕ} {bs cur : List Bool}
    (hlen : bs.length ≤ maxValueWithoutCrc .w64) (hget : m.get l = some (.bits cur))
    (hfix : ∀ n, fixed = some n → bs.length = n ∧ cur.length = n)
    (hlim : Q.met → bs.length < Q.lmts.containerlimit)
    (h : bs.length < Q.lmts.containerlimit → Loads tm Q fs es (m.set l (.bits bs)) pl) :
    Loads tm Q (.loadBits fixed l :: fs) es m
      (bytes (sizeBytes bs.length) ++ (bytes (bitsBytes bs) ++ pl)) := by
  refine .of_cont (fun d hc avail => rfl) (.announced isValue_val hlen fun crcsz hcrc => ?_)
  by_cases hlt : bs.length < Q.lmts.containerlimit
  · have hlim' := not_le.2 hlt
    have h := h hlt
    cases fixed with
    | some n =>
      obtain ⟨hn, hcur⟩ := hfix n rfl
      rw [← overwrite_all (show cur.length = bs.length by omega), ← Obj.writeBits,
        ← Mem.upd_eq_set hget] at h
      refine .of_cont (fun d hc avail => ?_) (Loads.loadBitsContinue (zero_add _) h)
      simp [step, reads, loadBitsBegin, checkSize_compute hcrc, hc.lmts, if_neg hlim',
        if_neg (show ¬ n < bs.length by omega)]
    | none =>
      rw [← overwrite_all (resize_length cur bs.length false), ← Obj.writeBits, ← Obj.resizeBits,
        ← Mem.upd_set, ← Mem.upd_eq_set hget] at h
      refine .of_cont (fun d hc avail => ?_) (Loads.loadBitsContinue (zero_add _) h)
      simp [step, reads, loadBitsBegin, checkSize_compute hcrc, hc.lmts, if_neg hlim']
  · refine .refused (fun hmet => hlt (hlim hmet)) fun d hc avail => ?_
    simp only [Refused, step, reads,
      loadBitsBegin, checkSize_compute hcrc, hc.lmts, if_pos (not_lt.1 hlt),
      fail, lt_irrefl, false_and, if_false, Bool.false_eq_true]
    exact .inr ⟨_, _, rfl⟩

/-! ## Streams -/

theorem OStream.write_received (acc c : List Byte) :
    (OStream.received acc).write c = .received (acc ++ c) := by
  simp [OStream.received, OStream.write, overwrite]

theorem load16_streamChunk {c : List Byte} (h : Sendable c) (rest : List Byte) :
    ∃ crcsz, load16 (streamChunk c ++ rest) = crcsz ∧ crcsz ≠ 0xffff ∧
      checkValueWithCrc .w16 crcsz = some c.length := by
  obtain ⟨crcsz, hcrc⟩ := isSome_iff_exists.1 (computeValueWithCrc_isSome.2 h.2)
  have hlt : crcsz < 2 ^ 16 := computeValueWithCrc_lt hcrc
  refine ⟨crcsz, ?_, ?_, checkValueWithCrc_compute hcrc⟩
  · rw [streamChunk, hcrc, append_assoc]
    exact load16_store16 hlt _
  · intro heq
    have hcheck := checkValueWithCrc_compute hcrc
    rw [heq, checkValueWithCrc_ffff] at hcheck
    cases hcheck

theorem Loads.loadStream {acc rest : List Byte} {o : Obj}
    (hunlim : Q.lmts.streamlimit = invalidSize) (hget : m.get l = some o)
    (h : Loads tm Q fs es (m.set l (.ostream (.received (acc ++ rest)))) pl) :
    Loads tm Q (.loadStream l invalidSize :: fs) es (m.set l (.ostream (.received acc)))
      (.chunks rest :: pl) := by
  induction hk : rest.length using Nat.strongRecOn generalizing acc rest with
  | ind k ih =>
    intro d hc
    refine .of_step (by simp) hc.update fun p ext pl' hcut hext => ?_
    rcases hcut.chunks_cases with ⟨rfl, rfl⟩ | ⟨c, e, q, rfl, hc', rfl, hq⟩ | ⟨q, rfl, rfl, hq⟩
    · obtain rfl : ext = [] := by
        by_contra he
        cases hext he
      exact Handles.idle rfl (by simp)
    · -- a chunk
      obtain ⟨crcsz, hload, hne, hcheck⟩ := load16_streamChunk hc' (q ++ ext)
      have hclen : 0 < c.length := length_pos_iff.2 hc'.1
      have hcmax : c.length ≤ invalidSize := by
        have := maxValueWithoutCrc_lt_invalidSize .w16
        exact le_trans hc'.2 this.le
      have hlen : (streamChunk c ++ (q ++ ext)).length = c.length + 2 + (q ++ ext).length := by
        rw [length_append, streamChunk_length]
      have hmin : min (min ((streamChunk c ++ (q ++ ext)).length - 2) invalidSize) c.length =
          c.length := by omega
      have hdata : ((streamChunk c ++ (q ++ ext)).drop 2).take c.length = c := by
        rw [streamChunk, append_assoc, drop_left' (store16_length _), take_left' rfl]
      have hmem : (m.set l (.ostream (.received acc))).upd l
          (Obj.mapStream fun s => s.write c) = m.set l (.ostream (.received (acc ++ c))) := by
        rw [Mem.upd_set, Obj.mapStream, OStream.write_received]
      have hstep : DeserializerBase.step { d with
          fstk := .loadStream l invalidSize :: fs, estk := es,
          mem := m.set l (.ostream (.received acc)) } tm false 0 (streamChunk c ++ (q ++ ext)) =
          some (.cont, 2 + c.length, { d with
            fstk := .loadStream l invalidSize :: fs, estk := es,
            mem := m.set l (.ostream (.received (acc ++ c))),
            streamsz := (d.streamsz + c.length) % 2 ^ 64 }) := by
        have hlim : ¬ invalidSize < (d.streamsz + c.length) % 2 ^ 64 := by
          simp only [invalidSize]; omega
        have hfail : (Obj.stream? (some (.ostream (.received (acc ++ c))))).fail = false := rfl
        simp only [DeserializerBase.step, DeserializerBase.reads, DeserializerBase.loadStream,
          if_neg (show ¬ (streamChunk c ++ (q ++ ext)).length < 2 by omega), hload, if_neg hne,
          hcheck, hmin, if_neg (show ¬ c.length = 0 by omega), hc.lmts, hunlim,
          if_neg hlim, hdata, hmem, Mem.get_set hget, hfail, lt_irrefl, false_and,
          if_false, if_true, Bool.false_eq_true]
      have hchunk : (streamChunk c).length = 2 + c.length := by rw [streamChunk_length]; omega
      have hcut1 : Sent (.chunks (c ++ e) :: pl) (streamChunk c ++ []) (.chunks e :: pl) :=
        .chunk hc' (.nil _)
      rw [← append_assoc] at h hstep
      rw [append_nil] at hcut1
      rw [length_append] at hk
      have hrec := ih e.length (by omega) h rfl
        { d with streamsz := (d.streamsz + c.length) % 2 ^ 64 } hc.update
      refine Handles.go hstep (.inr rfl) (by rw [length_append]; omega) ?_ ?_ hrec
      · rwa [take_left' hchunk]
      · rwa [drop_left' hchunk]
    · -- the stop mark
      have hstep : DeserializerBase.step { d with
          fstk := .loadStream l invalidSize :: fs, estk := es,
          mem := m.set l (.ostream (.received acc)) } tm false 0 (store16 0 ++ (q ++ ext)) =
          some (.success, 2, { d with
            fstk := .loadStream l invalidSize :: fs, estk := es,
            mem := m.set l (.ostream (.received acc)) }) := by
        have hload : load16 (store16 0 ++ (q ++ ext)) = 0 := load16_store16 (by omega) _
        have hlen : ¬ (store16 0 ++ (q ++ ext)).length < 2 := by
          rw [length_append, store16_length]; omega
        have hcheck : checkValueWithCrc .w16 0 = some 0 := by decide +kernel
        simp only [DeserializerBase.step, DeserializerBase.reads, DeserializerBase.loadStream,
          if_neg hlen, hload, hcheck, min_zero, lt_irrefl, false_and, if_false, if_true,
          Bool.false_eq_true, show ¬ (0 : ℕ) = 0xffff by omega]
      have hcut1 : Sent (.chunks [] :: pl) (store16 0 ++ []) pl := .stop (.nil pl)
      rw [append_nil] at h hcut1
      rw [← append_assoc] at hstep
      refine Handles.go hstep (.inl rfl) (by simp) ?_ ?_ (h d hc)
      · rwa [take_left' (store16_length 0)]
      · rwa [drop_left' (store16_length 0)]

end Loads

end SolidFrame
