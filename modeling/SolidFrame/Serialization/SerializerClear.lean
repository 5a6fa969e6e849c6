/-
  SolidFrame formalization — clearing a serializer
  (`SerializerBase::clear` in `solid/serialization/src/binary.cpp`).

  As for the deserializer, `clear()` calls `run` with a null buffer.  `storeUtf8`
  does not look for a null buffer: it checks the limit of strings, which functions
  above it may have set.
-/
import SolidFrame.Serialization.SerializerPlan
import SolidFrame.Serialization.DeserializerClear

namespace SolidFrame

open List SerializerBase

/-! ## The owners of the data -/

/-- The functions that pop an entry of `estk`, and those that give up the function
    below them. -/
def SFrame.kind : SFrame → FrameKind
  | .popExtStack | .storeContainerContinue _ | .storeArray .. | .storeArrayContinue ..
  | .storeCall .. => .owner
  | .storeStreamBegin .. => .pair
  | _ => .free

/-- The entry of `estk` that a function needs. -/
def SFrame.Owns : SFrame → SExt → Prop
  | .popExtStack, .val _ | .popExtStack, .vals .. => True
  | .storeContainerContinue _, .iter _ => True
  | .storeArray .., .vals .. | .storeArrayContinue .., .vals .. => True
  | .storeCall .., .call => True
  | _, _ => False

/-- The owners of the data of a serializer. -/
def storeRules : StackRules SFrame SExt := ⟨SFrame.kind, SFrame.Owns⟩

/-- The stacks of a serializer fit together. -/
abbrev SerializerBase.Owned (s : SerializerBase) : Prop :=
  SolidFrame.Owned storeRules s.fstk s.estk

variable {f : SFrame}

section
variable {s s' : SerializerBase} {fs : List SFrame} {es : List SExt} {ret : Ret} {out : List Byte}
  {room : ℕ}

/-- **Scheduling an object** pushes its functions with their data. -/
theorem owned_ofTy (h : Owned storeRules fs es) (t : Ty) (o : Obj) :
    Owned storeRules ((SFrame.ofTy t o).1 ++ fs) ((SFrame.ofTy t o).2 ++ es) := by
  fun_induction SFrame.ofTy t o generalizing fs es with
  | case13 t u a b iht ihu =>
    simp only [append_assoc]
    exact iht (ihu h)
  | _ =>
    first
    | exact .free rfl h
    | exact .owner rfl trivial h
    | exact .free rfl (.owner rfl trivial h)
    | exact .pair rfl rfl h
    | exact .free rfl (.pair rfl rfl h)
    | exact .free rfl (.free rfl h)
    | exact h

/-- The function on top stays, or becomes another one without data, and `SuccessE`
    pops it. -/
theorem ownedAfter (hf : s.fstk = f :: fs) (hk : storeRules.kind f = .free)
    (h : Owned storeRules fs s.estk) : (s.after ret).Owned := by
  cases ret with
  | success =>
    show Owned storeRules s.fstk.tail s.estk
    rw [hf]
    exact h
  | _ =>
    show Owned storeRules s.fstk s.estk
    rw [hf]
    exact .free hk h

/-! ## One call of a function -/

theorem storeBinary_kind (k : BinSize) (p : List Byte) :
    storeRules.kind (storeBinary k p room).2.2 = .free := by
  cases k with
  | b0 => rfl
  | _ =>
    unfold storeBinary
    dsimp only
    split_ifs <;> rfl

theorem owned_announce {n : ℕ} (h : Owned storeRules (f :: fs) es)
    (hstep : s.announce f fs n es = some (ret, out, s')) : (s'.after ret).Owned := by
  cases hstep
  exact .free rfl (.owner rfl trivial h)

theorem owned_storeStreamBegin {np : Bool} {a : ℕ} {g : SFrame}
    (hf : s.fstk = .storeStreamBegin np a :: g :: fs) (hg : storeRules.kind g = .free)
    (h : Owned storeRules fs s.estk)
    (hstep : s.storeStreamBegin np a (g :: fs) room = some (ret, out, s')) :
    (s'.after ret).Owned := by
  have hself : Owned storeRules s.fstk s.estk := by
    rw [hf]
    exact .pair rfl hg h
  have hbelow : Owned storeRules s.fstk.tail s.estk := by
    rw [hf]
    exact .free hg h
  unfold storeStreamBegin at hstep
  split_ifs at hstep
  · cases hstep
    exact hself
  · cases hstep
    exact h
  · cases hstep
    exact hbelow
  · cases g with
    | storeStream ris len =>
      simp only at hstep
      split_ifs at hstep
      · cases hstep
        exact .free rfl h
      · cases hstep
        exact h
    | _ => cases hstep

theorem owned_storeStream {ris : IStream} {len : ℕ} (hf : s.fstk = .storeStream ris len :: fs)
    (h : Owned storeRules fs s.estk)
    (hstep : s.storeStream ris len fs room = some (ret, out, s')) : (s'.after ret).Owned := by
  unfold storeStream at hstep
  simp only at hstep
  split_ifs at hstep
  all_goals
    cases hstep
    first | exact ownedAfter hf rfl h | exact ownedAfter rfl rfl h

variable {t : Ty}

theorem owned_storeContainerContinue {rest : List Obj}
    (hf : s.fstk = .storeContainerContinue t :: fs) (he : s.estk = .iter rest :: es)
    (h : Owned storeRules fs es) (hstep : s.step false room = some (ret, out, s')) :
    (s'.after ret).Owned := by
  unfold step at hstep
  simp only [hf, he] at hstep
  cases rest with
  | nil =>
    cases hstep
    exact h
  | cons o rest =>
    have hcont : Owned storeRules (.storeContainerContinue t :: fs) (.iter rest :: es) :=
      .owner rfl trivial h
    cases hstep
    exact owned_ofTy hcont t o

theorem owned_storeArray {c : Option (List Obj)} {size i : ℕ}
    (hf : s.fstk = .storeArray t c :: fs) (he : s.estk = .vals size i :: es)
    (h : Owned storeRules fs es) (hstep : s.step false room = some (ret, out, s')) :
    (s'.after ret).Owned := by
  have hself : s.Owned := by
    show Owned storeRules s.fstk s.estk
    rw [hf, he]
    exact .owner rfl trivial h
  unfold step at hstep
  simp only [hf, he, Bool.false_eq_true, if_false] at hstep
  cases c with
  | none =>
    cases hstep
    exact .free rfl (.owner rfl trivial h)
  | some c =>
    simp only at hstep
    split_ifs at hstep
    · cases hstep
      exact .free rfl (.owner rfl trivial h)
    · cases hstep
      exact hself
    · have hcont : Owned storeRules (.storeArrayContinue t c :: fs) (.vals size i :: es) :=
        .owner rfl trivial h
      cases hcrc : computeValueWithCrc .w64 size with
      | none =>
        simp only [hcrc] at hstep
        cases hstep
        exact hself
      | some crcsz =>
        simp only [hcrc] at hstep
        exact owned_announce hcont hstep

theorem owned_storeArrayContinue {c : List Obj} {size i : ℕ}
    (hf : s.fstk = .storeArrayContinue t c :: fs) (he : s.estk = .vals size i :: es)
    (h : Owned storeRules fs es) (hstep : s.step false room = some (ret, out, s')) :
    (s'.after ret).Owned := by
  unfold step at hstep
  simp only [hf, he] at hstep
  split_ifs at hstep
  · obtain ⟨o, -, heq⟩ := Option.map_eq_some_iff.1 hstep
    have hcont : Owned storeRules (.storeArrayContinue t c :: fs) (.vals size (i + 1) :: es) :=
      .owner rfl trivial h
    cases heq
    exact owned_ofTy hcont t o
  · cases hstep
    exact h

theorem owned_storeCall {ctx : Bool} {o : Obj} {err : Option SerError}
    (hf : s.fstk = .storeCall ctx t o err :: fs) (he : s.estk = .call :: es)
    (h : Owned storeRules fs es) (hstep : s.step false room = some (ret, out, s')) :
    (s'.after ret).Owned := by
  unfold step at hstep
  simp only [hf, he, Bool.false_eq_true, if_false] at hstep
  cases hstep
  refine owned_ofTy ?_ t o
  cases err.or s.err <;> exact .free rfl h

/-- **One call keeps every entry of `estk` with its owner.** -/
theorem SerializerBase.Owned.step (h : s.Owned) (hstep : s.step false room = some (ret, out, s')) :
    (s'.after ret).Owned := by
  have hcall := hstep
  unfold SerializerBase.Owned at h
  unfold SerializerBase.step at hstep
  cases hf : s.fstk with
  | nil => simp [hf] at hstep
  | cons f fs =>
    rw [hf] at h
    simp only [hf, Bool.false_eq_true, if_false] at hstep
    cases f with
    | popExtStack =>
      obtain ⟨e, es, he, -, h⟩ := h.entry rfl
      simp only [he] at hstep
      cases hstep
      exact h
    | storeBinary k p =>
      cases hstep
      exact ownedAfter rfl (storeBinary_kind k p) (h.rest rfl)
    | storeBool b =>
      simp only at hstep
      split_ifs at hstep <;> cases hstep <;> exact ownedAfter hf rfl (h.rest rfl)
    | storeInt w p =>
      cases hstep
      exact ownedAfter rfl (storeBinary_kind w.binSize p) (h.rest rfl)
    | storeString c =>
      simp only at hstep
      split_ifs at hstep
      · cases hstep
        exact ownedAfter hf rfl (h.rest rfl)
      · cases hcrc : computeValueWithCrc .w64 c.length with
        | none =>
          simp only [hcrc] at hstep
          cases hstep
          exact ownedAfter hf rfl (h.rest rfl)
        | some crcsz =>
          simp only [hcrc] at hstep
          exact owned_announce (.free rfl (h.rest rfl)) hstep
    | storeStreamBegin np a =>
      obtain ⟨g, gs, rfl, hg, h⟩ := h.pairBelow rfl
      exact owned_storeStreamBegin hf hg h hstep
    | storeStreamCheck v =>
      simp only at hstep
      split_ifs at hstep
      · cases hstep
        exact ownedAfter rfl rfl (h.rest rfl)
      · cases hstep
        exact ownedAfter hf rfl (h.rest rfl)
    | storeStream ris len => exact owned_storeStream hf (h.rest rfl) hstep
    | storeUtf8 p =>
      simp only at hstep
      split_ifs at hstep
      · cases hstep
        exact ownedAfter hf rfl (h.rest rfl)
      · cases hstep
        exact ownedAfter hf rfl (h.rest rfl)
      · cases hstep
        exact ownedAfter rfl rfl (h.rest rfl)
    | storeCross w v =>
      simp only at hstep
      split_ifs at hstep
      · obtain ⟨bs, -, heq⟩ := Option.map_eq_some_iff.1 hstep
        cases heq
        exact ownedAfter hf rfl (h.rest rfl)
      · obtain ⟨bs, -, heq⟩ := Option.map_eq_some_iff.1 hstep
        cases heq
        exact ownedAfter rfl rfl (h.rest rfl)
    | storeCrossContinue k =>
      simp only at hstep
      split_ifs at hstep
      · cases hstep
        exact ownedAfter rfl rfl (h.rest rfl)
      · cases hstep
        exact ownedAfter rfl rfl (h.rest rfl)
    | storeBits bs =>
      simp only at hstep
      split_ifs at hstep
      · cases hstep
        exact ownedAfter hf rfl (h.rest rfl)
      · cases hcrc : computeValueWithCrc .w64 bs.length with
        | none =>
          simp only [hcrc] at hstep
          cases hstep
          exact ownedAfter hf rfl (h.rest rfl)
        | some crcsz =>
          simp only [hcrc] at hstep
          exact owned_announce (.free rfl (h.rest rfl)) hstep
    | storeBitsContinue bs k =>
      cases hstep
      exact ownedAfter rfl rfl (h.rest rfl)
    | storeContainer t c =>
      cases c with
      | none =>
        cases hstep
        exact .free rfl (.owner rfl trivial (h.rest rfl))
      | some c =>
        simp only at hstep
        split_ifs at hstep
        · cases hstep
          exact ownedAfter hf rfl (h.rest rfl)
        · have hcont : SolidFrame.Owned storeRules (.storeContainerContinue t :: fs)
              (.iter c :: s.estk) := .owner rfl trivial (h.rest rfl)
          cases hcrc : computeValueWithCrc .w64 c.length with
          | none =>
            simp only [hcrc] at hstep
            cases hstep
            exact ownedAfter hf rfl (h.rest rfl)
          | some crcsz =>
            simp only [hcrc] at hstep
            exact owned_announce hcont hstep
    | storeContainerContinue t =>
      obtain ⟨_ | _ | rest | _, es, he, ho, h⟩ := h.entry rfl
      on_goal 3 => exact owned_storeContainerContinue hf he h hcall
      all_goals exact ho.elim
    | storeArray t c =>
      obtain ⟨_ | ⟨size, i⟩ | _ | _, es, he, ho, h⟩ := h.entry rfl
      on_goal 2 => exact owned_storeArray hf he h hcall
      all_goals exact ho.elim
    | storeArrayContinue t c =>
      obtain ⟨_ | ⟨size, i⟩ | _ | _, es, he, ho, h⟩ := h.entry rfl
      on_goal 2 => exact owned_storeArrayContinue hf he h hcall
      all_goals exact ho.elim
    | store t o =>
      cases hstep
      exact owned_ofTy (h.rest rfl) t o
    | storeCall ctx t o err =>
      obtain ⟨_ | _ | _ | _, es, he, ho, h⟩ := h.entry rfl
      on_goal 4 => exact owned_storeCall hf he h hcall
      all_goals exact ho.elim
    | storeReturnSuccess =>
      cases hstep
      exact ownedAfter hf rfl (h.rest rfl)
    | _ =>
      cases hstep
      exact ownedAfter rfl rfl (h.rest rfl)

/-! ## One call with a null buffer -/

/-- The limit of strings after a function. -/
def SFrame.stringLimit (lim : ℕ) : SFrame → ℕ
  | .setStringLimit v => v
  | _ => lim

/-- The functions that do not succeed on a null buffer, under a limit of strings. -/
def SFrame.stops (lim : ℕ) : SFrame → Bool
  | .storeUtf8 p => lim < p.length - 1 ∨ maxValueWithoutCrc .w32 < p.length - 1
  | .storeReturnError _ => true
  | _ => false

/-- The functions that leave their entry on `estk`: calls with a context. -/
def SFrame.forgets : SFrame → Bool
  | .storeCall true .. => true
  | _ => false

/-- The functions that drop an entry of `estk` on a null buffer. -/
def SFrame.pops (f : SFrame) : Bool := f.kind = .owner && !f.forgets

/-- A function that succeeds on a null buffer. -/
structure NullStore (f : SFrame) (fs : List SFrame) (s s' : SerializerBase) (ret : Ret)
    (out : List Byte) : Prop where
  out : out = []
  limit : s'.lmts.stringlimit = f.stringLimit s.lmts.stringlimit
  err : s'.err = s.err
  /-- `storeUtf8` makes itself a function that sees the null buffer -/
  fstk : (∃ p, f = .storeUtf8 p ∧ ret = .cont ∧ s'.fstk = .storeBinary .b0 p :: fs) ∨
    ret = .success ∧ s'.fstk = s.fstk
  estk : f.pops = true ∧ (∃ e, s.estk = e :: s'.estk) ∨ f.pops = false ∧ s'.estk = s.estk

theorem NullStore.keep (hp : f.pops = false) (hf : s'.fstk = s.fstk)
    (he : s'.estk = s.estk) (herr : s'.err = s.err)
    (hlim : s'.lmts.stringlimit = f.stringLimit s.lmts.stringlimit) :
    NullStore f fs s s' .success [] :=
  ⟨rfl, hlim, herr, .inr ⟨rfl, hf⟩, .inr ⟨hp, he⟩⟩

theorem NullStore.pop {e : SExt} (hp : f.pops)
    (hlim : f.stringLimit s.lmts.stringlimit = s.lmts.stringlimit) (he : s.estk = e :: es) :
    NullStore f fs s { s with estk := es } .success [] :=
  ⟨rfl, hlim.symm, rfl, .inr ⟨rfl, rfl⟩, .inl ⟨hp, e, he⟩⟩

/-- **One call with a null buffer**: a function stops `clear()`, or it succeeds. -/
theorem nullStore (hf : s.fstk = f :: fs)
    (hstep : s.step true 0 = some (ret, out, s')) :
    f.stops s.lmts.stringlimit ∧ ret = .failure ∨
      f.stops s.lmts.stringlimit = false ∧ NullStore f fs s s' ret out := by
  obtain ⟨fstk, estk, rdefaultlmts, lmts, err, streamerr, streamsz, tmpstr⟩ := s
  subst hf
  unfold step at hstep
  simp only [if_true] at hstep
  cases f with
  | storeReturnError e =>
    cases hstep
    exact .inl ⟨rfl, rfl⟩
  | storeUtf8 p =>
    simp only at hstep
    split_ifs at hstep with hlim hmax
    · cases hstep
      exact .inl ⟨by simp [SFrame.stops, hlim], rfl⟩
    · cases hstep
      exact .inl ⟨by simp [SFrame.stops, hmax], rfl⟩
    · cases hstep
      exact .inr ⟨decide_eq_false (not_or.2 ⟨hlim, hmax⟩), rfl, rfl, rfl,
        .inl ⟨p, rfl, rfl, rfl⟩, .inr ⟨rfl, rfl⟩⟩
  | popExtStack =>
    cases estk with
    | nil => cases hstep
    | cons e es =>
      cases hstep
      exact .inr ⟨rfl, .pop rfl rfl rfl⟩
  | storeContainer t c =>
    cases c <;> cases hstep <;> exact .inr ⟨rfl, .keep rfl rfl rfl rfl rfl⟩
  | storeContainerContinue t =>
    rcases estk with _ | ⟨_ | _ | (_ | ⟨o, rest⟩) | _, es⟩
    on_goal 4 =>
      cases hstep
      exact .inr ⟨rfl, .pop rfl rfl rfl⟩
    on_goal 4 =>
      cases hstep
      exact .inr ⟨rfl, .pop rfl rfl rfl⟩
    all_goals cases hstep
  | storeArray t c =>
    rcases estk with _ | ⟨_ | _ | _ | _, es⟩
    on_goal 3 =>
      cases hstep
      exact .inr ⟨rfl, .pop rfl rfl rfl⟩
    all_goals cases hstep
  | storeArrayContinue t c =>
    rcases estk with _ | ⟨_ | _ | _ | _, es⟩
    on_goal 3 =>
      simp only [Bool.true_eq_false, false_and, if_false] at hstep
      cases hstep
      exact .inr ⟨rfl, .pop rfl rfl rfl⟩
    all_goals cases hstep
  | storeCall ctx t o err =>
    cases estk with
    | nil => cases hstep
    | cons e es =>
      cases ctx with
      | false =>
        cases hstep
        exact .inr ⟨rfl, .pop rfl rfl rfl⟩
      | true =>
        cases hstep
        exact .inr ⟨rfl, .keep rfl rfl rfl rfl rfl⟩
  | _ =>
    cases hstep
    exact .inr ⟨rfl, .keep rfl rfl rfl rfl rfl⟩

theorem exists_nullStore (h : s.Owned) (hf : s.fstk = f :: fs) :
    ∃ ret out s', s.step true 0 = some (ret, out, s') := by
  unfold SerializerBase.Owned at h
  rw [hf] at h
  unfold SerializerBase.step
  simp only [hf, if_true]
  cases f with
  | popExtStack =>
    obtain ⟨e, es, he, -, -⟩ := h.entry rfl
    simp only [he]
    exact ⟨_, _, _, rfl⟩
  | storeUtf8 p =>
    simp only
    split_ifs <;> exact ⟨_, _, _, rfl⟩
  | storeContainer t c => cases c <;> exact ⟨_, _, _, rfl⟩
  | storeContainerContinue t =>
    obtain ⟨_ | _ | (_ | ⟨o, rest⟩) | _, es, he, ho, -⟩ := h.entry rfl
    on_goal 3 =>
      simp only [he]
      exact ⟨_, _, _, rfl⟩
    on_goal 3 =>
      simp only [he]
      exact ⟨_, _, _, rfl⟩
    all_goals exact ho.elim
  | storeArray t c =>
    obtain ⟨_ | _ | _ | _, es, he, ho, -⟩ := h.entry rfl
    on_goal 2 =>
      simp only [he]
      exact ⟨_, _, _, rfl⟩
    all_goals exact ho.elim
  | storeArrayContinue t c =>
    obtain ⟨_ | _ | _ | _, es, he, ho, -⟩ := h.entry rfl
    on_goal 2 =>
      simp only [he, Bool.true_eq_false, false_and, if_false]
      exact ⟨_, _, _, rfl⟩
    all_goals exact ho.elim
  | storeCall ctx t o err =>
    obtain ⟨e, es, he, -, -⟩ := h.entry rfl
    simp only [he]
    exact ⟨_, _, _, rfl⟩
  | _ => exact ⟨_, _, _, rfl⟩

theorem NullStore.owned (hnull : NullStore f fs s s' ret out) (h : s.Owned)
    (hf : s.fstk = f :: fs) (hnot : f.forgets = false) : (s'.after ret).Owned := by
  unfold SerializerBase.Owned at h
  rw [hf] at h
  obtain ⟨-, -, -, ⟨p, rfl, rfl, hf'⟩ | ⟨rfl, hf'⟩, hpop⟩ := hnull
  · rcases hpop with ⟨hp, -⟩ | ⟨-, he⟩
    · cases hp
    · refine ownedAfter hf' rfl ?_
      rw [he]
      exact h.rest rfl
  · show SolidFrame.Owned storeRules s'.fstk.tail s'.estk
    rw [hf', hf]
    rcases hpop with ⟨hp, e, he⟩ | ⟨hp, he⟩
    · have hk : storeRules.kind f = .owner := by
        simp only [SFrame.pops, Bool.and_eq_true, decide_eq_true_eq] at hp
        exact hp.1
      obtain ⟨e', es, he', -, h⟩ := h.entry hk
      obtain ⟨-, rfl⟩ := cons.inj (he.symm.trans he')
      exact h
    · rw [he]
      cases hk : storeRules.kind f with
      | free => exact h.rest hk
      | pair =>
        obtain ⟨g, gs, rfl, hg, h⟩ := h.pairBelow hk
        exact .free hg h
      | owner =>
        have hk : f.kind = .owner := hk
        simp [SFrame.pops, hk, hnot] at hp

theorem NullStore.fstk_after (hnull : NullStore f fs s s' ret out)
    (hf : s.fstk = f :: fs) : (s'.after ret).fstk = fs ∨
      ∃ p, f = .storeUtf8 p ∧ (s'.after ret).fstk = .storeBinary .b0 p :: fs := by
  obtain ⟨-, -, -, ⟨p, rfl, rfl, hf'⟩ | ⟨rfl, hf'⟩, -⟩ := hnull
  · exact .inr ⟨p, rfl, hf'⟩
  · left
    show s'.fstk.tail = fs
    rw [hf', hf, tail_cons]

@[simp] theorem SerializerBase.after_estk (ret : Ret) : (s.after ret).estk = s.estk := by
  cases ret <;> rfl

@[simp] theorem SerializerBase.after_lmts (ret : Ret) : (s.after ret).lmts = s.lmts := by
  cases ret <;> rfl

@[simp] theorem SerializerBase.after_err (ret : Ret) : (s.after ret).err = s.err := by
  cases ret <;> rfl

/-! ## `clear()` -/

/-- `clear()` empties both stacks, and there is no error. -/
def SerializerBase.Clears (s : SerializerBase) : Prop :=
  ∃ fuel out s', s.runLoop true fuel 0 [] = some (.done out s') ∧ s'.fstk = [] ∧ s'.estk = [] ∧
    s'.err = none

/-- No error of a call is scheduled, and no UTF-8 string above the limit that holds when
    its turn comes. -/
def Unstopped : ℕ → List SFrame → Prop
  | _, [] => True
  | lim, f :: fs => f.stops lim = false ∧ Unstopped (f.stringLimit lim) fs

/-- Nothing stops `clear()`, no call with a context is scheduled, and there was no error
    before. -/
structure SerializerBase.Droppable (s : SerializerBase) : Prop where
  unstopped : Unstopped s.lmts.stringlimit s.fstk
  frames : ∀ f ∈ s.fstk, f.forgets = false
  err : s.err = none

theorem SerializerBase.runLoop_go {null : Bool} {acc : List Byte} (hne : s.fstk ≠ [])
    (hstep : s.step null room = some (ret, out, s')) (hret : ret = .cont ∨ ret = .success)
    (fuel : ℕ) : s.runLoop null (fuel + 1) room acc =
      (s'.after ret).runLoop null fuel (room - out.length) (acc ++ out) := by
  rw [runLoop, if_neg hne, hstep]
  rcases hret with rfl | rfl <;> rfl

theorem NullStore.goes_on (hnull : NullStore f fs s s' ret out) :
    ret = .cont ∨ ret = .success := by
  obtain ⟨p, -, hret, -⟩ | ⟨hret, -⟩ := hnull.fstk
  · exact .inl hret
  · exact .inr hret

theorem NullStore.runLoop (hnull : NullStore f fs s s' ret out)
    (hf : s.fstk = f :: fs) (hstep : s.step true 0 = some (ret, out, s')) (fuel : ℕ) :
    s.runLoop true (fuel + 1) 0 [] = (s'.after ret).runLoop true fuel 0 [] := by
  rw [SerializerBase.runLoop_go (by simp [hf]) hstep hnull.goes_on, hnull.out]
  rfl

/-- **`clear()` drops everything** that can be dropped. -/
theorem SerializerBase.Droppable.clears (hd : s.Droppable) (h : s.Owned) : s.Clears := by
  -- a UTF-8 string takes one call more than the others
  induction hn : s.fstk.length + s.fstk.countP (fun f => f matches .storeUtf8 _)
    using Nat.strongRecOn generalizing s with
  | ind n ih =>
  cases hf : s.fstk with
  | nil =>
    have hes : s.estk = [] := by
      have hlen := h.length_eq
      rw [hf, countP_nil] at hlen
      exact length_eq_zero_iff.1 hlen
    exact ⟨1, [], s.resetLimits, by rw [runLoop, if_pos hf], hf, hes, hd.err⟩
  | cons f fs =>
    have hun := hd.unstopped
    rw [hf] at hun
    have hnot : f.forgets = false := hd.frames f (by simp [hf])
    obtain ⟨ret, out, s', hstep⟩ := exists_nullStore h hf
    rcases nullStore hf hstep with ⟨hst, -⟩ | ⟨-, hnull⟩
    · rw [hun.1] at hst
      cases hst
    have hun' : Unstopped (s'.after ret).lmts.stringlimit fs := by
      rw [after_lmts, hnull.limit]
      exact hun.2
    have hfs : ∀ g ∈ fs, g.forgets = false := fun g hg => hd.frames g (by simp [hf, hg])
    have herr : (s'.after ret).err = none := by
      rw [after_err, hnull.err, hd.err]
    have hnext : (s'.after ret).Clears := by
      rcases hnull.fstk_after hf with hf' | ⟨p, rfl, hf'⟩
      · refine ih _ ?_ ⟨hf' ▸ hun', hf' ▸ hfs, herr⟩ (hnull.owned h hf hnot) rfl
        rw [← hn, hf', hf, countP_cons, length_cons]
        omega
      · refine ih _ ?_ ⟨?_, ?_, herr⟩ (hnull.owned h hf hnot) rfl
        · rw [← hn, hf', hf]
          simp
        · rw [hf']
          exact ⟨rfl, hun'⟩
        · rw [hf']
          rintro g (_ | ⟨_, hg⟩)
          · rfl
          · exact hfs g hg
    obtain ⟨fuel, out', s'', hrun, hf'', he'', herr''⟩ := hnext
    exact ⟨fuel + 1, out', s'', (hnull.runLoop hf hstep fuel).trans hrun, hf'', he'', herr''⟩

theorem clearStore_inv {fuel : ℕ} (hrun : s.runLoop true fuel 0 [] = some (.done out s'))
    (hempty : s'.fstk = []) :
    Unstopped s.lmts.stringlimit s.fstk ∧
      s.estk.length = s'.estk.length + s.fstk.countP SFrame.pops ∧ s'.err = s.err := by
  induction fuel generalizing s with
  | zero => cases hrun
  | succ fuel ih =>
    cases hf : s.fstk with
    | nil =>
      rw [runLoop, if_pos hf] at hrun
      cases hrun
      exact ⟨trivial, by simp [resetLimits], rfl⟩
    | cons f fs =>
      cases hstep : s.step true 0 with
      | none =>
        rw [runLoop, if_neg (by simp [hf]), hstep] at hrun
        cases hrun
      | some r =>
        obtain ⟨ret, o, s1⟩ := r
        rcases nullStore hf hstep with ⟨-, rfl⟩ | ⟨hstops, hnull⟩
        · rw [runLoop, if_neg (by simp [hf]), hstep] at hrun
          cases hrun
        · rw [hnull.runLoop hf hstep] at hrun
          have hnext := ih hrun
          rw [after_lmts, hnull.limit, after_estk, after_err, hnull.err] at hnext
          -- what `storeUtf8` becomes does not count
          have hrest : Unstopped (f.stringLimit s.lmts.stringlimit) fs ∧
              s1.estk.length = s'.estk.length + fs.countP SFrame.pops ∧ s'.err = s.err := by
            rcases hnull.fstk_after hf with hf' | ⟨p, rfl, hf'⟩
            · rwa [hf'] at hnext
            · rw [hf'] at hnext
              exact ⟨hnext.1.2, hnext.2⟩
          refine ⟨⟨hstops, hrest.1⟩, ?_, hrest.2.2⟩
          rcases hnull.estk with ⟨hp, e, he⟩ | ⟨hp, he⟩
          · simp [he, hp, hrest.2.1, Nat.add_assoc]
          · rw [← he]
            simp [hp, hrest.2.1]

theorem SFrame.owner_split (f : SFrame) : (if storeRules.kind f = .owner then 1 else 0) =
    (if f.pops then 1 else 0) + if f.forgets then 1 else 0 := by
  cases f with
  | storeCall ctx t o err => cases ctx <;> rfl
  | _ => rfl

/-- **When `clear()` works.** -/
theorem SerializerBase.Owned.clears_iff (h : s.Owned) : s.Clears ↔ s.Droppable := by
  constructor
  · rintro ⟨fuel, out, s', hrun, hf, he, hnone⟩
    obtain ⟨hun, hlen, herr⟩ := clearStore_inv hrun hf
    rw [he, length_nil, Nat.zero_add] at hlen
    have hforgets := h.countP_left_eq_zero SFrame.owner_split hlen
    refine ⟨hun, fun f hmem => ?_, herr.symm.trans hnone⟩
    simpa using countP_eq_zero.1 hforgets f hmem
  · intro hd
    exact hd.clears h

end

/-! ## Reachable states -/

def SRun.state : SRun → Option SerializerBase
  | .done _ s => some s
  | .failure s => some s
  | .undefined => none

/-- The states that a serializer gets to by pushes of any objects, calls of `run` with
    any buffer, whatever they return, and calls of `clear()` with no call with a context
    scheduled. -/
inductive SerializerBase.Reached : SerializerBase → Prop where
  | new (lmts : Limits) : Reached (.new lmts)
  | push {s : SerializerBase} (t : Ty) (o : Obj) : Reached s → Reached (s.push t o)
  | run {s s' : SerializerBase} {fuel bl} {r : SRun} :
      Reached s →
      s.runLoop false fuel bl [] = some r →
      r.state = some s' →
      Reached s'
  | clear {s s' : SerializerBase} {fuel} {r : SRun} :
      Reached s →
      (∀ f ∈ s.fstk, f.forgets = false) →
      s.runLoop true fuel 0 [] = some r →
      r.state = some s' →
      Reached s'

section
variable {s s' : SerializerBase} {fuel room : ℕ} {acc : List Byte} {r : SRun}

/-- **A call of `run`** keeps every entry with its owner. -/
theorem SerializerBase.Owned.run (h : s.Owned) (hrun : s.runLoop false fuel room acc = some r)
    (hs : r.state = some s') : s'.Owned := by
  induction fuel generalizing s room acc with
  | zero => cases hrun
  | succ fuel ih =>
    by_cases hne : s.fstk = []
    · rw [runLoop, if_pos hne] at hrun
      cases hrun
      cases hs
      exact h
    cases hstep : s.step false room with
    | none =>
      rw [runLoop, if_neg hne, hstep] at hrun
      cases hrun
      cases hs
    | some res =>
      obtain ⟨ret, out, s1⟩ := res
      have h1 := h.step hstep
      by_cases hret : ret = .cont ∨ ret = .success
      · rw [runLoop_go hne hstep hret] at hrun
        exact ih h1 hrun
      · -- the loop ends here
        rw [runLoop, if_neg hne, hstep] at hrun
        cases ret with
        | cont => exact absurd (.inl rfl) hret
        | success => exact absurd (.inr rfl) hret
        | wait =>
          cases hrun
          cases hs
          exact h1
        | failure =>
          cases hrun
          cases hs
          exact h1

theorem nullStore_failure {fs : List SFrame} {out : List Byte} (hf : s.fstk = f :: fs)
    (hstops : f.stops s.lmts.stringlimit)
    (hstep : s.step true 0 = some (.failure, out, s')) : s'.fstk = s.fstk ∧ s'.estk = s.estk := by
  unfold step at hstep
  simp only [hf, if_true] at hstep
  cases f with
  | storeReturnError e =>
    cases hstep
    exact ⟨hf.symm, rfl⟩
  | storeUtf8 p =>
    simp only at hstep
    split_ifs at hstep
    · cases hstep
      exact ⟨rfl, rfl⟩
    · cases hstep
      exact ⟨rfl, rfl⟩
    · cases hstep
  | _ => cases hstops

/-- **A call of `clear()`** that finds no call with a context does so, too. -/
theorem SerializerBase.Owned.clear (h : s.Owned) (hnot : ∀ f ∈ s.fstk, f.forgets = false)
    (hrun : s.runLoop true fuel 0 [] = some r) (hs : r.state = some s') : s'.Owned := by
  induction fuel generalizing s with
  | zero => cases hrun
  | succ fuel ih =>
    cases hf : s.fstk with
    | nil =>
      rw [runLoop, if_pos hf] at hrun
      cases hrun
      cases hs
      exact h
    | cons f fs =>
      obtain ⟨ret, out, s1, hstep⟩ := exists_nullStore h hf
      rcases nullStore hf hstep with ⟨hstops, rfl⟩ | ⟨-, hnull⟩
      · obtain ⟨hf1, he1⟩ := nullStore_failure hf hstops hstep
        rw [runLoop, if_neg (by simp [hf]), hstep] at hrun
        cases hrun
        cases hs
        show SolidFrame.Owned storeRules s1.fstk s1.estk
        rw [hf1, he1]
        exact h
      · rw [hnull.runLoop hf hstep] at hrun
        rw [hf] at hnot
        refine ih (hnull.owned h hf (hnot f mem_cons_self)) ?_ hrun
        rcases hnull.fstk_after hf with hf' | ⟨p, -, hf'⟩
        · rw [hf']
          exact fun g hg => hnot g (mem_cons_of_mem f hg)
        · rw [hf']
          rintro g (_ | ⟨_, hg⟩)
          · rfl
          · exact hnot g (mem_cons_of_mem f hg)

/-- **In every state reached the stacks fit together.** -/
theorem SerializerBase.Reached.owned (h : Reached s) : s.Owned := by
  induction h with
  | new lmts => exact .nil
  | push t o _ ih => exact owned_ofTy ih t o
  | run _ hrun hstate ih => exact ih.run hrun hstate
  | clear _ hnot hrun hstate ih => exact ih.clear hnot hrun hstate

end

/-- **Clearing.**  From every state reached, suspended or failed, of a serializer and of a
    deserializer, `clear()` empties both stacks without an error just when what is
    scheduled can be dropped. -/
theorem clear_empties_iff (tm : TypeMap) :
    (∀ s : SerializerBase, s.Reached → (s.Clears ↔ s.Droppable)) ∧
      ∀ d : DeserializerBase, d.Reached tm → (d.Clears tm ↔ d.Droppable) := by
  constructor
  · intro s hs
    exact hs.owned.clears_iff
  · intro d hd
    exact hd.owned.clears_iff

def containerStore : SerializerBase :=
  (new .unlimited).push (.container false 4 (.int .w32)) (.seq [.raw [1, 2, 3, 4]])

def containerLoad : DeserializerBase :=
  (DeserializerBase.new .unlimited [.seq []]).push (.container false 4 (.int .w32)) ⟨.user 0, []⟩

/-- A container of one integer, on both sides: the buffers end in the middle of the integer,
    with the place in the container on `estk`. -/
theorem clear_empties_suspended :
    (∃ out s, containerStore.runLoop false 9 4 [] = some (.done out s) ∧
      s.fstk.length = 2 ∧ s.estk.length = 1 ∧ s.Clears) ∧
    ∃ d, containerLoad.runLoop (fun _ _ _ => .null) false [9, 65, 1, 2] 9 0 = some (.done 4 d) ∧
      d.fstk.length = 2 ∧ d.estk.length = 1 ∧ d.Clears (fun _ _ _ => .null) := by
  obtain ⟨hstore, hload⟩ := clear_empties_iff fun _ _ _ => .null
  constructor
  · have hs {out s} (h : containerStore.runLoop false 9 4 [] = some (.done out s)) : s.Reached :=
      .run (.push _ _ (.new _)) h rfl
    refine ⟨_, _, rfl, rfl, rfl, (hstore _ (hs rfl)).2 ⟨⟨rfl, rfl, trivial⟩, ?_, rfl⟩⟩
    rintro f (_ | ⟨_, _ | ⟨_, ⟨⟩⟩⟩) <;> rfl
  · have hd {n d} (h : containerLoad.runLoop (fun _ _ _ => .null) false [9, 65, 1, 2] 9 0 =
        some (.done n d)) : d.Reached fun _ _ _ => .null :=
      .run (.push _ _ (.new _ _)) h rfl
    refine ⟨_, rfl, rfl, rfl, (hload _ (hd rfl)).2 ⟨?_, ?_, rfl⟩⟩
    · rintro f (_ | ⟨_, _ | ⟨_, ⟨⟩⟩⟩) <;> exact ⟨rfl, rfl⟩
    · rintro e (_ | ⟨_, ⟨⟩⟩)
      exact (by decide : 4 ≤ maxGenericSize)

def utf8Load : DeserializerBase :=
  (DeserializerBase.new .unlimited [.str []]).push .utf8 ⟨.user 0, []⟩

def contextLoad : DeserializerBase :=
  (DeserializerBase.new .unlimited []).push (.call true .unit none) ⟨.user 0, []⟩

def contextStore : SerializerBase :=
  (new .unlimited).push (.call true .unit none) .unit

/-- The string stops the `clear()` of a deserializer, the call leaves its entry behind. -/
theorem clear_empties_utf8_and_call :
    (utf8Load.Reached (fun _ _ _ => .null) ∧ ∃ n d, utf8Load.runLoop (fun _ _ _ => .null) true []
      1 0 = some (.done n d) ∧ d.fstk.length = 1) ∧
    (contextLoad.Reached (fun _ _ _ => .null) ∧ ∃ n d, contextLoad.runLoop (fun _ _ _ => .null)
      true [] 2 0 = some (.done n d) ∧ d.fstk = [] ∧ d.estk = [.call]) ∧
    contextStore.Reached ∧ ∃ out s, contextStore.runLoop true 2 0 [] = some (.done out s) ∧
      s.fstk = [] ∧ s.estk = [.call] :=
  ⟨⟨.push _ _ (.new _ _), _, _, rfl, rfl⟩, ⟨.push _ _ (.new _ _), _, _, rfl, rfl, rfl⟩,
    .push _ _ (.new _), _, _, rfl, rfl, rfl⟩

end SolidFrame
