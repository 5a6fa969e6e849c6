/-
  SolidFrame formalization — clearing a deserializer
  (`DeserializerBase::clear` in `solid/serialization/src/binary.cpp`).

  `clear()` calls `run` with a null buffer: every function that is still scheduled
  must see the null buffer, drop its data from `estk` and succeed.
-/
import SolidFrame.Lib.OwnedStack
import SolidFrame.Serialization.DeserializerBounds

namespace SolidFrame

open DeserializerBase List Option

/-! ## The owners of the data -/

/-- The functions that pop an entry of `estk`, and those that give up the function
    below them. -/
def DFrame.kind : DFrame → FrameKind
  | .popExtStack | .loadBinaryString _ | .loadBitsBegin .. | .loadBitsContinue ..
  | .loadContainerBegin .. | .loadContainerContinue .. | .loadArray .. | .loadArrayContinue ..
  | .loadCall .. => .owner
  | .loadStreamBegin .. => .pair
  | _ => .free

/-- The entry of `estk` that a function needs. -/
def DFrame.Owns : DFrame → DExt → Prop
  | .loadContainerContinue .., .val _ (some _) => True
  | .loadArray .., .vals .. | .loadArrayContinue .., .vals .. => True
  | .loadCall .., .call => True
  | .popExtStack, .val _ none | .loadBinaryString _, .val _ none | .loadBitsBegin .., .val _ none
  | .loadBitsContinue .., .val _ none | .loadContainerBegin .., .val _ none => True
  | _, _ => False

/-- The owners of the data of a deserializer. -/
def loadRules : StackRules DFrame DExt := ⟨DFrame.kind, DFrame.Owns⟩

/-- The stacks of a deserializer fit together. -/
abbrev DeserializerBase.Owned (d : DeserializerBase) : Prop :=
  SolidFrame.Owned loadRules d.fstk d.estk

/-- An element of a container lies in the buffer of its `ExtendedData`. -/
def DExt.Small : DExt → Prop
  | .val _ (some size) => size ≤ maxGenericSize
  | _ => True

variable {f : DFrame}

theorem DFrame.Owns.setFirst {e : DExt} (h : f.Owns e) (v : ℕ) :
    f.Owns (e.setFirst v) := by
  cases e with
  | val u g => cases f <;> cases g <;> exact h
  | vals u i => cases f <;> exact h
  | call => exact h

section
variable {d d' : DeserializerBase} {fs : List DFrame} {e : DExt} {es : List DExt}
    {ret : Ret} {k : ℕ}

theorem owned_setFirst (h : Owned loadRules fs (e :: es)) (v : ℕ) :
    Owned loadRules fs (e.setFirst v :: es) :=
  h.map_top fun _ ho => ho.setFirst v

/-- **Scheduling a target** pushes its functions with their data. -/
theorem owned_push (h : Owned loadRules fs es) (m : Mem) (t : Ty) (l : Loc) :
    Owned loadRules ((DFrame.ofTy m t l).1 ++ fs) ((DFrame.ofTy m t l).2 ++ es) := by
  induction t generalizing fs es l with
  | pair t u iht ihu =>
    simp only [DFrame.ofTy, append_assoc]
    exact iht (ihu h (l.sub 1)) (l.sub 0)
  | array b cap t ih => exact .free rfl (.owner rfl trivial h)
  | stream src dst =>
    cases dst with
    | none =>
      simp only [DFrame.ofTy]
      split <;> exact .pair rfl rfl h
    | some arg =>
      simp only [DFrame.ofTy]
      split <;> exact .free rfl (.pair rfl rfl h)
  | ptr sh base => exact .free rfl (.owner rfl trivial h)
  | call ctx t err ih => exact .owner rfl trivial h
  | unit => exact h
  | _ => exact .free rfl h

variable {v : ℕ} {t : Ty} {s used : ℕ} {w : Width} {dst : Dst}

/-- The function on top stays, or becomes another one without data, and `SuccessE`
    pops it. -/
theorem owned_after (hf : d.fstk = f :: fs) (hk : loadRules.kind f = .free)
    (h : Owned loadRules fs d.estk) : (d.after ret).Owned := by
  cases ret with
  | success =>
    show Owned loadRules d.fstk.tail d.estk
    rw [hf]
    exact h
  | _ =>
    show Owned loadRules d.fstk d.estk
    rw [hf]
    exact .free hk h

theorem popSuccess_inv (h : d.popSuccess used = some (ret, k, d')) :
    ret = .success ∧ k = used ∧ d'.fstk = d.fstk ∧ d'.err = d.err ∧
      ∃ e, d.estk = e :: d'.estk ∧ e.Small := by
  unfold popSuccess popExt at h
  cases hes : d.estk with
  | nil => simp [hes] at h
  | cons e es =>
    rcases e with ⟨v, _ | size⟩ | ⟨v, i⟩ | _
    · simp only [hes, map_some] at h
      cases h
      exact ⟨rfl, rfl, rfl, rfl, _, rfl, trivial⟩
    · simp only [hes] at h
      split_ifs at h with hsize
      · simp only [map_some] at h
        cases h
        exact ⟨rfl, rfl, rfl, rfl, _, rfl, hsize⟩
      · cases h
    · simp only [hes, map_some] at h
      cases h
      exact ⟨rfl, rfl, rfl, rfl, _, rfl, trivial⟩
    · simp only [hes, map_some] at h
      cases h
      exact ⟨rfl, rfl, rfl, rfl, _, rfl, trivial⟩

theorem owned_popSuccess (hpop : d.popSuccess used = some (ret, k, d'))
    (hf : d.fstk = f :: fs) (he : d.estk = e :: es) (h : Owned loadRules fs es) :
    (d'.after ret).Owned := by
  obtain ⟨rfl, -, hf', -, e', he', -⟩ := popSuccess_inv hpop
  obtain ⟨-, rfl⟩ := cons.inj (he.symm.trans he')
  show Owned loadRules d'.fstk.tail d'.estk
  rw [hf', hf]
  exact h

/-! ## One call of a function -/

variable {avail : List Byte} {l : Loc}

theorem owned_loadBinary {j off : ℕ} (h : Owned loadRules fs d.estk)
    (hstep : d.loadBinary j l off s fs avail = some (ret, k, d')) : (d'.after ret).Owned := by
  unfold loadBinary at hstep
  simp only at hstep
  split_ifs at hstep <;> cases hstep <;> exact owned_after rfl rfl h

theorem owned_storeCrossValue (h : Owned loadRules fs d.estk)
    (hst : d.storeCrossValue w v dst = some d') :
    d'.fstk = d.fstk ∧ Owned loadRules fs d'.estk := by
  cases dst with
  | loc l =>
    cases hst
    exact ⟨rfl, h⟩
  | top =>
    unfold storeCrossValue at hst
    rcases he : d.estk with _ | ⟨⟨u, g⟩ | ⟨u, i⟩ | _, es⟩
    · simp [he] at hst
    · simp only [he] at hst
      cases hst
      rw [he] at h
      exact ⟨rfl, owned_setFirst h v⟩
    · simp only [he] at hst
      cases hst
      rw [he] at h
      exact ⟨rfl, owned_setFirst h v⟩
    · simp [he] at hst

theorem owned_crossStored {n : ℕ} (hf : d.fstk = f :: fs)
    (hk : loadRules.kind f = .free) (h : Owned loadRules fs d.estk)
    (hstep : ((d.storeCrossValue w v dst).map fun d => (Ret.success, n, d)) = some (ret, k, d')) :
    (d'.after ret).Owned := by
  obtain ⟨d1, hst, heq⟩ := map_eq_some_iff.1 hstep
  cases heq
  obtain ⟨hf1, h1⟩ := owned_storeCrossValue h hst
  exact owned_after (hf1.trans hf) hk h1

theorem owned_loadCross (hf : d.fstk = .loadCross w dst :: fs)
    (h : Owned loadRules fs d.estk) (hstep : d.loadCross w dst fs avail = some (ret, k, d')) :
    (d'.after ret).Owned := by
  unfold loadCross at hstep
  cases avail with
  | nil =>
    cases hstep
    exact owned_after hf rfl h
  | cons b rest =>
    simp only at hstep
    split_ifs at hstep
    · cases hload : crossLoad w (b :: rest) with
      | none =>
        simp only [hload] at hstep
        cases hstep
        exact owned_after hf rfl h
      | some r =>
        simp only [hload] at hstep
        exact owned_crossStored hf rfl h hstep
    · cases hstep
      exact .free rfl (.free rfl h)
    · cases hstep
      exact .free rfl (.free rfl h)

theorem owned_loadUtf8 (hf : d.fstk = .loadUtf8 l :: fs) (h : Owned loadRules fs d.estk)
    (hstep : d.loadUtf8 l avail = some (ret, k, d')) : (d'.after ret).Owned := by
  unfold loadUtf8 at hstep
  simp only at hstep
  split_ifs at hstep <;> cases hstep <;> exact owned_after hf rfl h

/-- The function below a stream that cannot be used is given up: it has no data. -/
theorem owned_loadStreamBegin {p : Option Loc} {a : ℕ} {g : DFrame}
    (hf : d.fstk = .loadStreamBegin p a :: g :: fs) (hg : loadRules.kind g = .free)
    (h : Owned loadRules fs d.estk)
    (hstep : d.loadStreamBegin p a (g :: fs) = some (ret, k, d')) : (d'.after ret).Owned := by
  unfold loadStreamBegin at hstep
  have hbelow : Owned loadRules d.fstk.tail d.estk := by
    rw [hf]
    exact .free hg h
  cases p with
  | none =>
    cases hstep
    exact .free rfl h
  | some l =>
    simp only at hstep
    split_ifs at hstep
    · cases hstep
      exact hbelow
    · cases hstep
      exact hbelow
    · cases hstep
      exact .free rfl h

theorem owned_loadStream (hf : d.fstk = .loadStream l s :: fs)
    (h : Owned loadRules fs d.estk) (hstep : d.loadStream l s fs avail = some (ret, k, d')) :
    (d'.after ret).Owned := by
  unfold loadStream at hstep
  cases hcrc : checkValueWithCrc .w16 (load16 avail) with
  | none =>
    simp only [hcrc] at hstep
    split_ifs at hstep <;> cases hstep <;> exact owned_after hf rfl h
  | some sz =>
    simp only [hcrc] at hstep
    split_ifs at hstep <;> cases hstep <;> first | exact owned_after hf rfl h | exact .free rfl h

theorem owned_loadDummyStream {len : ℤ} (hf : d.fstk = .loadDummyStream s :: fs)
    (h : Owned loadRules fs d.estk)
    (hstep : d.loadDummyStream s fs len avail = some (ret, k, d')) : (d'.after ret).Owned := by
  unfold loadDummyStream at hstep
  cases hcrc : checkValueWithCrc .w16 (load16 avail) with
  | none =>
    simp only [hcrc] at hstep
    split_ifs at hstep <;> cases hstep <;> exact owned_after hf rfl h
  | some sz =>
    simp only [hcrc] at hstep
    split_ifs at hstep <;> cases hstep <;> first | exact owned_after hf rfl h | exact .free rfl h

theorem owned_loadBinaryStringCheck (hf : d.fstk = .loadBinaryStringCheck l :: fs)
    (h : Owned loadRules fs d.estk) (hstep : d.loadBinaryStringCheck = some (ret, k, d')) :
    (d'.after ret).Owned := by
  unfold loadBinaryStringCheck at hstep
  rcases he : d.estk with _ | ⟨⟨v, g⟩ | ⟨v, i⟩ | _, es⟩
  · simp [he] at hstep
  · cases hsize : checkSize v .stringMaxLimit with
    | error e =>
      simp only [he, hsize] at hstep
      cases hstep
      exact owned_after hf rfl h
    | ok ul =>
      simp only [he, hsize] at hstep
      rw [he] at h
      have hul := owned_setFirst h ul
      split_ifs at hstep <;> cases hstep <;> exact owned_after hf rfl hul
  · simp [he] at hstep
  · simp [he] at hstep

theorem owned_loadPointer {tm : TypeMap} {sh : Bool} {base : ℕ} (h : Owned loadRules fs d.estk)
    (hstep : d.loadPointer tm sh base l fs = some (ret, k, d')) : (d'.after ret).Owned := by
  unfold loadPointer at hstep
  rcases he : d.estk with _ | ⟨⟨v, g⟩ | ⟨v, i⟩ | _, es⟩
  · simp [he] at hstep
  · cases hload : tm sh base v with
    | undefined => simp [he, hload] at hstep
    | error e =>
      simp only [he, hload] at hstep
      cases hstep
      rwa [← he]
    | null =>
      simp only [he, hload] at hstep
      cases hstep
      rwa [← he]
    | object t =>
      simp only [he, hload] at hstep
      cases hstep
      rw [← he]
      exact .free rfl h
  · simp [he] at hstep
  · simp [he] at hstep

/-! ### The owners -/

theorem owned_loadBinaryString (hf : d.fstk = .loadBinaryString l :: fs)
    (he : d.estk = .val v none :: es) (h : Owned loadRules fs es)
    (hstep : d.loadBinaryString l avail = some (ret, k, d')) : (d'.after ret).Owned := by
  unfold loadBinaryString at hstep
  simp only [he] at hstep
  split_ifs at hstep
  · exact owned_popSuccess hstep hf rfl h
  · cases hstep
    show Owned loadRules d.fstk _
    rw [hf]
    exact .owner rfl trivial h

theorem owned_loadBitsBegin {fixed : Option ℕ} (hf : d.fstk = .loadBitsBegin fixed l :: fs)
    (he : d.estk = .val v none :: es) (h : Owned loadRules fs es)
    (hstep : d.loadBitsBegin fixed l fs = some (ret, k, d')) : (d'.after ret).Owned := by
  unfold loadBitsBegin at hstep
  have hself : ∀ u, Owned loadRules d.fstk (.val u none :: es) := fun u => by
    rw [hf]
    exact .owner rfl trivial h
  cases hsize : checkSize v .stringMaxLimit with
  | error e =>
    simp only [he, hsize] at hstep
    cases hstep
    exact he ▸ hself v
  | ok len =>
    simp only [he, hsize] at hstep
    split_ifs at hstep
    · cases hstep
      exact hself len
    cases fixed with
    | none =>
      cases hstep
      exact .owner rfl trivial h
    | some n =>
      simp only at hstep
      split_ifs at hstep
      · cases hstep
        exact hself len
      · cases hstep
        exact .owner rfl trivial h

theorem owned_loadBitsContinue (he : d.estk = .val v none :: es) (h : Owned loadRules fs es)
    (hstep : d.loadBitsContinue l s fs avail = some (ret, k, d')) : (d'.after ret).Owned := by
  unfold loadBitsContinue at hstep
  simp only [he] at hstep
  split_ifs at hstep
  · cases hstep
    exact .owner rfl trivial h
  · exact owned_popSuccess hstep rfl rfl h

theorem owned_loadContainerBegin {b : Bool} {size : ℕ}
    (hf : d.fstk = .loadContainerBegin b size t l :: fs) (he : d.estk = .val v none :: es)
    (h : Owned loadRules fs es)
    (hstep : d.loadContainerBegin b size t l fs = some (ret, k, d')) : (d'.after ret).Owned := by
  unfold loadContainerBegin at hstep
  have hself : ∀ u, Owned loadRules d.fstk (.val u none :: es) := fun u => by
    rw [hf]
    exact .owner rfl trivial h
  cases hsize : checkSize v .containerMaxLimit with
  | error e =>
    simp only [he, hsize] at hstep
    cases hstep
    exact he ▸ hself v
  | ok i =>
    simp only [he, hsize] at hstep
    split_ifs at hstep
    · exact owned_popSuccess hstep hf rfl h
    · cases hstep
      exact hself i
    · exact owned_popSuccess hstep hf rfl h
    · exact owned_popSuccess hstep hf rfl h
    all_goals
      have hcont : Owned loadRules (.loadContainerContinue t l :: fs) (.val i (some size) :: es) :=
        .owner rfl trivial h
      cases hstep
      exact owned_push hcont _ t _

theorem owned_loadContainerContinue {null : Bool} {size : ℕ}
    (hf : d.fstk = .loadContainerContinue t l :: fs) (he : d.estk = .val v (some size) :: es)
    (h : Owned loadRules fs es)
    (hstep : d.loadContainerContinue null t l = some (ret, k, d')) : (d'.after ret).Owned := by
  unfold loadContainerContinue at hstep
  simp only [he] at hstep
  split_ifs at hstep
  · cases hstep
    refine owned_push ?_ _ t _
    simp only [hf]
    exact .owner rfl trivial h
  · exact owned_popSuccess hstep hf rfl h

theorem owned_loadArray {b : Bool} {i : ℕ} (hf : d.fstk = .loadArray b t l :: fs)
    (he : d.estk = .vals v i :: es) (h : Owned loadRules fs es)
    (hstep : d.loadArray b t l fs = some (ret, k, d')) : (d'.after ret).Owned := by
  unfold loadArray at hstep
  have hself : ∀ u, Owned loadRules d.fstk (.vals u i :: es) := fun u => by
    rw [hf]
    exact .owner rfl trivial h
  cases hsize : checkSize v .arrayMaxLimit with
  | error e =>
    simp only [he, hsize] at hstep
    cases hstep
    exact he ▸ hself v
  | ok rsz =>
    simp only [he, hsize] at hstep
    split_ifs at hstep
    · exact owned_popSuccess hstep hf rfl h
    · cases hstep
      exact hself rsz
    · cases hstep
      exact .owner rfl trivial h
    · cases hstep
      exact .owner rfl trivial h

theorem owned_loadArrayContinue {i : ℕ} (hf : d.fstk = .loadArrayContinue t l :: fs)
    (he : d.estk = .vals v i :: es) (h : Owned loadRules fs es)
    (hstep : d.loadArrayContinue t l = some (ret, k, d')) : (d'.after ret).Owned := by
  unfold loadArrayContinue at hstep
  simp only [he] at hstep
  split_ifs at hstep
  · cases hstep
    refine owned_push ?_ _ t _
    simp only [hf]
    exact .owner rfl trivial h
  · exact owned_popSuccess hstep hf he h

theorem owned_loadCall {err : Option SerError} (he : d.estk = .call :: es)
    (h : Owned loadRules fs es)
    (hstep : d.loadCall t l err fs = some (ret, k, d')) : (d'.after ret).Owned := by
  unfold loadCall popExt at hstep
  simp only [he, map_some] at hstep
  cases hstep
  refine owned_push ?_ _ t _
  cases err.or d.err <;> exact .free rfl h

/-- **One call keeps every entry of `estk` with its owner**, whatever bytes arrive. -/
theorem DeserializerBase.Owned.step {tm : TypeMap} {past : ℕ} (h : d.Owned)
    (hstep : d.step tm false past avail = some (ret, k, d')) : (d'.after ret).Owned := by
  unfold DeserializerBase.step at hstep
  unfold DeserializerBase.Owned at h
  cases hf : d.fstk with
  | nil => simp [hf] at hstep
  | cons f fs =>
    rw [hf] at h
    simp only [hf] at hstep
    by_cases hpast : 0 < past ∧ DeserializerBase.reads f
    · rw [if_pos hpast] at hstep
      cases hstep
    rw [if_neg hpast] at hstep
    cases f with
    | popExtStack =>
      obtain ⟨e, es, he, -, h⟩ := h.entry rfl
      exact owned_popSuccess hstep hf he h
    | loadBinary j l off s => exact owned_loadBinary (h.rest rfl) hstep
    | loadBool l =>
      cases avail with
      | nil =>
        cases hstep
        exact owned_after hf rfl (h.rest rfl)
      | cons b rest =>
        cases hstep
        exact owned_after rfl rfl (h.rest rfl)
    | loadInt w l => exact owned_loadBinary (h.rest rfl) hstep
    | loadString l =>
      cases hstep
      exact .free rfl (.free rfl (.owner rfl trivial (h.rest rfl)))
    | loadBinaryStringCheck l => exact owned_loadBinaryStringCheck hf (h.rest rfl) hstep
    | loadBinaryString l =>
      obtain ⟨⟨v, _ | g⟩ | _ | _, es, he, ho, h⟩ := h.entry rfl
      · exact owned_loadBinaryString hf he h hstep
      all_goals exact ho.elim
    | loadStreamCheck v =>
      simp only [Bool.false_eq_true, if_false] at hstep
      split_ifs at hstep <;> cases hstep <;> exact owned_after hf rfl (h.rest rfl)
    | loadStreamBegin p a =>
      obtain ⟨g, gs, rfl, hg, h⟩ := h.pairBelow rfl
      exact owned_loadStreamBegin hf hg h hstep
    | loadStream l s => exact owned_loadStream hf (h.rest rfl) hstep
    | loadDummyStream s => exact owned_loadDummyStream hf (h.rest rfl) hstep
    | loadUtf8 l => exact owned_loadUtf8 hf (h.rest rfl) hstep
    | loadCross w dst => exact owned_loadCross hf (h.rest rfl) hstep
    | loadCrossContinue s =>
      simp only [Bool.false_eq_true, if_false] at hstep
      unfold DeserializerBase.loadCrossContinue at hstep
      split_ifs at hstep
      all_goals cases hstep
      all_goals exact owned_after rfl rfl (h.rest rfl)
    | loadCrossDone w dst =>
      simp only [Bool.false_eq_true, if_false] at hstep
      cases hload : crossLoad w d.tmpstr with
      | none =>
        simp only [hload] at hstep
        cases hstep
        exact owned_after hf rfl (h.rest rfl)
      | some r =>
        simp only [hload] at hstep
        exact owned_crossStored hf rfl (h.rest rfl) hstep
    | loadBits fixed l =>
      cases hstep
      exact .free rfl (.owner rfl trivial (h.rest rfl))
    | loadBitsBegin fixed l =>
      obtain ⟨⟨v, _ | g⟩ | _ | _, es, he, ho, h⟩ := h.entry rfl
      · exact owned_loadBitsBegin hf he h hstep
      all_goals exact ho.elim
    | loadBitsContinue l s =>
      obtain ⟨⟨v, _ | g⟩ | _ | _, es, he, ho, h⟩ := h.entry rfl
      · exact owned_loadBitsContinue he h hstep
      all_goals exact ho.elim
    | loadContainer b size t l =>
      cases hstep
      exact .free rfl (.owner rfl trivial (h.rest rfl))
    | loadContainerBegin b size t l =>
      obtain ⟨⟨v, _ | g⟩ | _ | _, es, he, ho, h⟩ := h.entry rfl
      · exact owned_loadContainerBegin hf he h hstep
      all_goals exact ho.elim
    | loadContainerContinue t l =>
      obtain ⟨⟨v, _ | g⟩ | _ | _, es, he, ho, h⟩ := h.entry rfl
      on_goal 2 => exact owned_loadContainerContinue hf he h hstep
      all_goals exact ho.elim
    | loadArray b t l =>
      obtain ⟨_ | ⟨v, i⟩ | _, es, he, ho, h⟩ := h.entry rfl
      on_goal 2 => exact owned_loadArray hf he h hstep
      all_goals exact ho.elim
    | loadArrayContinue t l =>
      obtain ⟨_ | ⟨v, i⟩ | _, es, he, ho, h⟩ := h.entry rfl
      on_goal 2 => exact owned_loadArrayContinue hf he h hstep
      all_goals exact ho.elim
    | load t l =>
      cases hstep
      exact owned_push (h.rest rfl) _ t l
    | loadPointerPrepare sh base l =>
      cases hstep
      exact .free rfl (.free rfl (h.rest rfl))
    | loadPointer sh base l => exact owned_loadPointer (h.rest rfl) hstep
    | loadCall ctx t l err =>
      obtain ⟨_ | _ | _, es, he, ho, h⟩ := h.entry rfl
      on_goal 3 => exact owned_loadCall he h hstep
      all_goals exact ho.elim
    | loadReturnSuccess =>
      cases hstep
      exact owned_after hf rfl (h.rest rfl)
    | _ =>
      cases hstep
      exact owned_after rfl rfl (h.rest rfl)

/-! ## One call with a null buffer -/

/-- The functions that do not succeed on a null buffer: `loadUtf8` does not look for
    one. -/
def DFrame.stops : DFrame → Bool
  | .loadUtf8 _ | .loadReturnError _ => true
  | _ => false

/-- The functions that leave their entry on `estk`: calls with a context. -/
def DFrame.forgets : DFrame → Bool
  | .loadCall true .. => true
  | _ => false

/-- The functions that drop an entry of `estk` on a null buffer. -/
def DFrame.pops (f : DFrame) : Bool := f.kind = .owner && !f.forgets

/-- What a function does on a null buffer. -/
def NullStep (f : DFrame) (d : DeserializerBase) (ret : Ret) (k : ℕ)
    (d' : DeserializerBase) : Prop :=
  d'.fstk = d.fstk ∧ (f.stops = true ∧ (ret = .wait ∨ ret = .failure) ∧ d'.estk = d.estk ∨
      f.stops = false ∧ ret = .success ∧ k = 0 ∧ d'.err = d.err ∧
        (f.pops = true ∧ (∃ e, d.estk = e :: d'.estk ∧ e.Small) ∨
          f.pops = false ∧ d'.estk = d.estk))

theorem NullStep.pop (hs : f.stops = false) (hp : f.pops)
    (h : d.popSuccess 0 = some (ret, k, d')) : NullStep f d ret k d' := by
  obtain ⟨rfl, rfl, hf, herr, he⟩ := popSuccess_inv h
  exact ⟨hf, .inr ⟨hs, rfl, rfl, herr, .inl ⟨hp, he⟩⟩⟩

theorem NullStep.keep (hs : f.stops = false) (hp : f.pops = false) (hf : d'.fstk = d.fstk)
    (he : d'.estk = d.estk) (herr : d'.err = d.err) : NullStep f d .success 0 d' :=
  ⟨hf, .inr ⟨hs, rfl, rfl, herr, .inr ⟨hp, he⟩⟩⟩

/-- **One call with a null buffer.** -/
theorem nullStep {tm : TypeMap} (hf : d.fstk = f :: fs)
    (hstep : d.step tm true 0 [] = some (ret, k, d')) : NullStep f d ret k d' := by
  unfold step at hstep
  simp only [hf, Nat.lt_irrefl, false_and, if_false, if_true] at hstep
  cases f with
  | popExtStack => exact .pop rfl rfl hstep
  | loadBinaryString l => exact .pop rfl rfl hstep
  | loadBitsBegin fixed l => exact .pop rfl rfl hstep
  | loadBitsContinue l s => exact .pop rfl rfl hstep
  | loadContainerBegin b size t l => exact .pop rfl rfl hstep
  | loadArray b t l => exact .pop rfl rfl hstep
  | loadArrayContinue t l => exact .pop rfl rfl hstep
  | loadContainerContinue t l =>
    unfold loadContainerContinue at hstep
    rcases he : d.estk with _ | ⟨⟨v, _ | size⟩ | _ | _, es⟩
    on_goal 3 =>
      simp only [he, Bool.true_eq_false, false_and, if_false] at hstep
      obtain ⟨rfl, rfl, hf', herr, e, he', hsmall⟩ := popSuccess_inv hstep
      obtain ⟨rfl, rfl⟩ := cons.inj he'
      exact ⟨hf', .inr ⟨rfl, rfl, rfl, herr, .inl ⟨rfl, _, he, hsmall⟩⟩⟩
    all_goals simp [he] at hstep
  | loadCall ctx t l err =>
    cases ctx with
    | false => exact .pop rfl rfl hstep
    | true =>
      cases hstep
      exact .keep rfl rfl rfl rfl rfl
  | loadUtf8 l =>
    unfold loadUtf8 at hstep
    simp only at hstep
    split_ifs at hstep with hlim hmax hall
    · cases hstep
      exact ⟨rfl, .inl ⟨rfl, .inr rfl, rfl⟩⟩
    · cases hstep
      exact ⟨rfl, .inl ⟨rfl, .inr rfl, rfl⟩⟩
    · cases hstep
      exact ⟨rfl, .inl ⟨rfl, .inl rfl, rfl⟩⟩
    · exact absurd rfl hall
  | loadReturnError e =>
    cases hstep
    exact ⟨hf.symm, .inl ⟨rfl, .inr rfl, rfl⟩⟩
  | setStringLimit v =>
    cases hstep
    exact .keep rfl rfl hf.symm rfl rfl
  | setStreamLimit v =>
    cases hstep
    exact .keep rfl rfl hf.symm rfl rfl
  | setContainerLimit v =>
    cases hstep
    exact .keep rfl rfl hf.symm rfl rfl
  | _ =>
    cases hstep
    exact .keep rfl rfl rfl rfl rfl

theorem popSuccess_of_small (he : d.estk = e :: es) (hsmall : e.Small) :
    ∃ d', d.popSuccess used = some (.success, used, d') := by
  unfold popSuccess popExt
  rcases e with ⟨v, _ | size⟩ | ⟨v, i⟩ | _
  · simp only [he, map_some]
    exact ⟨_, rfl⟩
  · simp only [he, if_pos (show size ≤ maxGenericSize from hsmall), map_some]
    exact ⟨_, rfl⟩
  · simp only [he, map_some]
    exact ⟨_, rfl⟩
  · simp only [he, map_some]
    exact ⟨_, rfl⟩

theorem exists_nullStep (tm : TypeMap) (h : d.Owned) (hf : d.fstk = f :: fs)
    (hs : f.stops = false) (hsmall : ∀ e ∈ d.estk, e.Small) :
    ∃ d', d.step tm true 0 [] = some (.success, 0, d') := by
  unfold DeserializerBase.Owned at h
  rw [hf] at h
  -- an owner has an entry to pop
  have hpop : loadRules.kind f = .owner → ∃ d', d.popSuccess 0 = some (.success, 0, d') := by
    intro hk
    obtain ⟨e, es, he, -, -⟩ := h.entry hk
    exact popSuccess_of_small he (hsmall e (by simp [he]))
  unfold DeserializerBase.step
  simp only [hf, Nat.lt_irrefl, false_and, if_false, if_true]
  cases f with
  | popExtStack => exact hpop rfl
  | loadBinaryString l => exact hpop rfl
  | loadBitsBegin fixed l => exact hpop rfl
  | loadBitsContinue l s => exact hpop rfl
  | loadContainerBegin b size t l => exact hpop rfl
  | loadArray b t l => exact hpop rfl
  | loadArrayContinue t l => exact hpop rfl
  | loadContainerContinue t l =>
    obtain ⟨⟨v, _ | size⟩ | _ | _, es, he, ho, -⟩ := h.entry rfl
    on_goal 2 =>
      have hsize : DExt.Small (.val (v - 1) (some size)) := hsmall (.val v (some size))
        (by simp [he])
      simp only [DeserializerBase.loadContainerContinue, he, Bool.true_eq_false, false_and,
        if_false]
      exact popSuccess_of_small rfl hsize
    all_goals exact ho.elim
  | loadCall ctx t l err =>
    cases ctx with
    | false => exact hpop rfl
    | true => exact ⟨_, rfl⟩
  | loadUtf8 l => cases hs
  | loadReturnError e => cases hs
  | _ => exact ⟨_, rfl⟩

theorem DeserializerBase.Owned.nullStep (h : d.Owned) (hf : d.fstk = f :: fs)
    (hnot : f.forgets = false) (hstep : NullStep f d ret k d') : (d'.after ret).Owned := by
  obtain ⟨hf', ⟨-, hret, he⟩ | ⟨-, rfl, -, -, hpop⟩⟩ := hstep
  · have hself : d'.Owned := by
      show SolidFrame.Owned loadRules d'.fstk d'.estk
      rw [hf', he]
      exact h
    rcases hret with rfl | rfl <;> exact hself
  · unfold Owned at h
    show SolidFrame.Owned loadRules d'.fstk.tail d'.estk
    rw [hf] at h
    rw [hf', hf]
    rcases hpop with ⟨hp, e, he, -⟩ | ⟨hp, he⟩
    · have hk : loadRules.kind f = .owner := by
        simp only [DFrame.pops, Bool.and_eq_true, decide_eq_true_eq] at hp
        exact hp.1
      obtain ⟨e', es, he', -, h⟩ := h.entry hk
      obtain ⟨-, rfl⟩ := cons.inj (he.symm.trans he')
      exact h
    · rw [he]
      cases hk : loadRules.kind f with
      | free => exact h.rest hk
      | pair =>
        obtain ⟨g, gs, rfl, hg, h⟩ := h.pairBelow hk
        exact .free hg h
      | owner =>
        have hk : f.kind = .owner := hk
        simp [DFrame.pops, hk, hnot] at hp

/-! ## `clear()` -/

/-- `clear()` empties both stacks, and there is no error. -/
def DeserializerBase.Clears (tm : TypeMap) (d : DeserializerBase) : Prop :=
  ∃ fuel n d', d.runLoop tm true [] fuel 0 = some (.done n d') ∧ d'.fstk = [] ∧ d'.estk = [] ∧
    d'.err = none

/-- No UTF-8 string, no call with a context and no error of a call is scheduled, no element
    of a container lies outside of its `ExtendedData`, and there was no error before: nothing
    resets one. -/
structure DeserializerBase.Droppable (d : DeserializerBase) : Prop where
  frames : ∀ f ∈ d.fstk, f.stops = false ∧ f.forgets = false
  small : ∀ e ∈ d.estk, e.Small
  err : d.err = none

/-- **`clear()` drops everything** that can be dropped. -/
theorem DeserializerBase.Droppable.clears {tm : TypeMap} (hd : d.Droppable) (h : d.Owned) :
    d.Clears tm := by
  -- every call takes one function off `fstk`
  induction hfs : d.fstk generalizing d with
  | nil =>
    have hes : d.estk = [] := by
      have hlen := h.length_eq
      rw [hfs, countP_nil] at hlen
      exact length_eq_zero_iff.1 hlen
    exact ⟨1, 0, d.resetLimits, by rw [runLoop, hfs]; rfl, hfs, hes, hd.err⟩
  | cons f fs ih =>
    obtain ⟨hstops, hforgets⟩ := hd.frames f (by simp [hfs])
    obtain ⟨d', hstep⟩ := exists_nullStep tm h hfs hstops hd.small
    have hnull := SolidFrame.nullStep hfs hstep
    have h' := h.nullStep hfs hforgets hnull
    obtain ⟨hf', ⟨hst, -⟩ | ⟨-, -, -, herr, hpop⟩⟩ := hnull
    · rw [hstops] at hst
      cases hst
    have hsub : ∀ e ∈ d'.estk, e ∈ d.estk := by
      rcases hpop with ⟨-, e, he, -⟩ | ⟨-, he⟩
      · rw [he]
        exact fun e' => mem_cons_of_mem e
      · rw [he]
        exact fun _ => id
    have hd' : (d'.after .success).Droppable := by
      refine ⟨fun g hg => hd.frames g ?_, fun e he => hd.small e (hsub e he), herr.trans hd.err⟩
      rw [← hf']
      exact mem_of_mem_tail hg
    have hfs' : (d'.after .success).fstk = fs := by
      show d'.fstk.tail = fs
      rw [hf', hfs, tail_cons]
    obtain ⟨fuel, n, d'', hrun, hf'', he'', herr''⟩ := ih hd' h' hfs'
    have hne : d.fstk ≠ [] := by simp [hfs]
    exact ⟨fuel + 1, n, d'', (runLoop_go hne hstep (.inr rfl) fuel).trans hrun, hf'', he'', herr''⟩

theorem clear_inv {tm : TypeMap} {fuel n : ℕ}
    (hrun : d.runLoop tm true [] fuel 0 = some (.done n d')) (hempty : d'.fstk = []) :
    (∀ f ∈ d.fstk, f.stops = false) ∧ d.estk.length = d'.estk.length + d.fstk.countP DFrame.pops ∧
      (∀ e ∈ d.estk, e ∈ d'.estk ∨ e.Small) ∧ d'.err = d.err := by
  induction fuel generalizing d with
  | zero => cases hrun
  | succ fuel ih =>
    cases hfs : d.fstk with
    | nil =>
      rw [runLoop, hfs] at hrun
      cases hrun
      exact ⟨by simp, by simp [resetLimits], fun e he => .inl he, rfl⟩
    | cons f fs =>
      have hne : d.fstk ≠ [] := by simp [hfs]
      have hloop := hrun
      rw [runLoop, hfs] at hrun
      simp only [isEmpty_cons, Bool.false_eq_true, if_false] at hrun
      cases hstep : d.step tm true (0 - ([] : List Byte).length) (([] : List Byte).drop 0) with
      | none =>
        rw [hstep] at hrun
        cases hrun
      | some r =>
        obtain ⟨ret, k, d1⟩ := r
        rw [hstep] at hrun
        obtain ⟨hf1, ⟨-, hret, -⟩ | ⟨hstops, rfl, rfl, herr1, hpop⟩⟩ :=
          SolidFrame.nullStep hfs hstep
        · -- the loop ends with the function still there
          rcases hret with rfl | rfl
          · cases hrun
            rw [hf1] at hempty
            exact absurd hempty hne
          · cases hrun
        · have hfs1 : (d1.after .success).fstk = fs := by
            show d1.fstk.tail = fs
            rw [hf1, hfs, tail_cons]
          have hnext := ih (d := d1.after .success) hrun
          rw [hfs1] at hnext
          obtain ⟨hframes, hlen, hsmall, herr⟩ := hnext
          have hlen : d1.estk.length = d'.estk.length + fs.countP DFrame.pops := hlen
          have hsmall : ∀ e ∈ d1.estk, e ∈ d'.estk ∨ e.Small := hsmall
          refine ⟨?_, ?_, ?_, herr.trans herr1⟩
          · simpa [hstops] using hframes
          · rcases hpop with ⟨hp, e, he, -⟩ | ⟨hp, he⟩
            · simp [he, hp, hlen, Nat.add_assoc]
            · rw [← he]
              simp [hp, hlen]
          · rcases hpop with ⟨-, e, he, hs⟩ | ⟨-, he⟩
            · rw [he]
              rintro e' (_ | ⟨_, he'⟩)
              · exact .inr hs
              · exact hsmall e' he'
            · rw [← he]
              exact hsmall

theorem DFrame.owner_split (f : DFrame) : (if loadRules.kind f = .owner then 1 else 0) =
    (if f.pops then 1 else 0) + if f.forgets then 1 else 0 := by
  cases f with
  | loadCall ctx t l err => cases ctx <;> rfl
  | _ => rfl

/-- **When `clear()` works.** -/
theorem DeserializerBase.Owned.clears_iff {tm : TypeMap} (h : d.Owned) :
    d.Clears tm ↔ d.Droppable := by
  constructor
  · rintro ⟨fuel, n, d', hrun, hf, he, hnone⟩
    obtain ⟨hframes, hlen, hsmall, herr⟩ := clear_inv hrun hf
    rw [he, length_nil, Nat.zero_add] at hlen
    have hforgets := h.countP_left_eq_zero DFrame.owner_split hlen
    refine ⟨fun f hmem => ⟨hframes f hmem, ?_⟩, fun e hmem => ?_, herr.symm.trans hnone⟩
    · simpa using countP_eq_zero.1 hforgets f hmem
    · rcases hsmall e hmem with hin | hs
      · rw [he] at hin
        cases hin
      · exact hs
  · intro hd
    exact hd.clears h

end

/-! ## Reachable states -/

/-- The states that a deserializer gets to by pushes of any targets, calls of `run` on
    any bytes, whatever they return, and calls of `clear()` with no call with a context
    scheduled. -/
inductive DeserializerBase.Reached (tm : TypeMap) : DeserializerBase → Prop where
  | new (lmts : Limits) (targets : List Obj) : Reached tm (.new lmts targets)
  | push {d : DeserializerBase} (t : Ty) (l : Loc) : Reached tm d → Reached tm (d.push t l)
  | run {d d' : DeserializerBase} {input fuel} {r : DRun} :
      Reached tm d →
      d.runLoop tm false input fuel 0 = some r →
      r.state = some d' →
      Reached tm d'
  | clear {d d' : DeserializerBase} {fuel} {r : DRun} :
      Reached tm d →
      (∀ f ∈ d.fstk, f.forgets = false) →
      d.runLoop tm true [] fuel 0 = some r →
      r.state = some d' →
      Reached tm d'

section
variable {tm : TypeMap} {d d' : DeserializerBase} {input : List Byte} {fuel pos : ℕ} {r : DRun}

/-- **A call of `run`** keeps every entry with its owner. -/
theorem DeserializerBase.Owned.run (h : d.Owned)
    (hrun : d.runLoop tm false input fuel pos = some r) (hd : r.state = some d') : d'.Owned := by
  induction fuel generalizing d pos with
  | zero => cases hrun
  | succ fuel ih =>
    by_cases hne : d.fstk = []
    · rw [runLoop, hne] at hrun
      cases hrun
      cases hd
      exact h
    cases hstep : d.step tm false (pos - input.length) (input.drop pos) with
    | none =>
      rw [runLoop, hstep, if_neg (by simpa using hne)] at hrun
      cases hrun
      cases hd
    | some res =>
      obtain ⟨ret, k, d1⟩ := res
      have h1 := h.step hstep
      by_cases hret : ret = .cont ∨ ret = .success
      · rw [runLoop_go hne hstep hret] at hrun
        exact ih h1 hrun
      · -- the loop ends here
        rw [runLoop, hstep, if_neg (by simpa using hne)] at hrun
        cases ret with
        | cont => exact absurd (.inl rfl) hret
        | success => exact absurd (.inr rfl) hret
        | wait =>
          cases hrun
          cases hd
          exact h1
        | failure =>
          cases hrun
          cases hd
          exact h1

/-- **A call of `clear()`** that finds no call with a context does so, too. -/
theorem DeserializerBase.Owned.clear (h : d.Owned) (hnot : ∀ f ∈ d.fstk, f.forgets = false)
    (hrun : d.runLoop tm true [] fuel 0 = some r) (hd : r.state = some d') : d'.Owned := by
  induction fuel generalizing d with
  | zero => cases hrun
  | succ fuel ih =>
    cases hfs : d.fstk with
    | nil =>
      rw [runLoop, hfs] at hrun
      cases hrun
      cases hd
      exact h
    | cons f fs =>
      rw [runLoop, hfs] at hrun
      simp only [isEmpty_cons, Bool.false_eq_true, if_false] at hrun
      cases hstep : d.step tm true (0 - ([] : List Byte).length) (([] : List Byte).drop 0) with
      | none =>
        rw [hstep] at hrun
        cases hrun
        cases hd
      | some res =>
        obtain ⟨ret, k, d1⟩ := res
        have hnull := SolidFrame.nullStep hfs hstep
        have h1 := h.nullStep hfs (hnot f (by simp [hfs])) hnull
        rw [hstep] at hrun
        obtain ⟨hf1, ⟨-, hret, -⟩ | ⟨-, rfl, rfl, -⟩⟩ := hnull
        · rcases hret with rfl | rfl
          · cases hrun
            cases hd
            exact h1
          · cases hrun
            cases hd
            exact h1
        · refine ih (d := d1.after .success) h1 (fun g hg => hnot g ?_) hrun
          rw [← hf1]
          exact mem_of_mem_tail hg

/-- **In every state reached the stacks fit together.** -/
theorem DeserializerBase.Reached.owned (h : Reached tm d) : d.Owned := by
  induction h with
  | new lmts targets => exact .nil
  | push t l _ ih => exact owned_push ih _ t l
  | run _ hrun hstate ih => exact ih.run hrun hstate
  | clear _ hnot hrun hstate ih => exact ih.clear hnot hrun hstate

end

end SolidFrame
