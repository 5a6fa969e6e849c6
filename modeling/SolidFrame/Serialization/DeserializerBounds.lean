/-
  SolidFrame formalization — how far a deserializer advances.

  A call of `run` ends, whatever was scheduled and whatever bytes arrive; and it
  stays inside its buffer as long as every function it calls is `Contained`.
-/
import SolidFrame.Serialization.DeserializerStacks

namespace SolidFrame

open DeserializerBase

/-! ## The loop of `run` -/

/-- The loop of `run` gets from `pos` and the first state to `pos'` and the second. -/
inductive Iterates (tm : TypeMap) (null : Bool) (input : List Byte) :
    ℕ → DeserializerBase → ℕ → DeserializerBase → Prop where
  | refl (pos : ℕ) (d : DeserializerBase) : Iterates tm null input pos d pos d
  | step {pos pos' k ret} {d d₁ d' : DeserializerBase} :
      d.fstk ≠ [] →
      d.step tm null (pos - input.length) (input.drop pos) = some (ret, k, d₁) →
      ret = .cont ∨ ret = .success →
      Iterates tm null input (pos + k) (d₁.after ret) pos' d' →
      Iterates tm null input pos d pos' d'

/-- Every function that is called in a call of `run` is contained in the buffer. -/
def Meets (tm : TypeMap) (input : List Byte) (d : DeserializerBase) : Prop :=
  ∀ pos' d', Iterates tm false input 0 d pos' d' → Contained tm (input.drop pos') d'

/-- Every function that `clear()` drops can be dropped. -/
def MeetsClear (tm : TypeMap) (d : DeserializerBase) : Prop :=
  ∀ pos' d', Iterates tm true [] 0 d pos' d' → Clearable d'

def DRun.state : DRun → Option DeserializerBase
  | .done _ d => some d
  | .failure d => some d
  | .undefined => none

def DRun.retval : DRun → Option ℤ
  | .done n _ => some (toInt32 n)
  | .failure _ => some (-1)
  | .undefined => none

/-- A call that ended inside a buffer of `bl` bytes, with stacks that fit
    together. -/
def DRun.Within (tm : TypeMap) (bl : ℕ) : DRun → Prop
  | .done k d => k ≤ bl ∧ ∃ n, Resumable tm n d
  | .failure d => ∃ n, Resumable tm n d
  | .undefined => False

section Run
variable {tm : TypeMap} {null : Bool} {n pos k : ℕ} {ret : Ret} {d d₁ : DeserializerBase}
  {input : List Byte}

theorem runLoop_go (hne : d.fstk ≠ [])
    (hstep : d.step tm null (pos - input.length) (input.drop pos) = some (ret, k, d₁))
    (hret : ret = .cont ∨ ret = .success) (fuel : ℕ) :
    d.runLoop tm null input (fuel + 1) pos = (d₁.after ret).runLoop tm null input fuel
    (pos + k) := by
  have hemp : d.fstk.isEmpty = false := by simpa using hne
  rw [runLoop, hemp, hstep]
  rcases hret with rfl | rfl <;> rfl

theorem runLoop_stop (hne : d.fstk ≠ [])
    (hstep : d.step tm null (pos - input.length) (input.drop pos) = some (ret, k, d₁))
    (hret : ¬ (ret = .cont ∨ ret = .success)) :
    d.runLoop tm null input 1 pos = some (.done (pos + k) d₁) ∧ ret = .wait ∨
      d.runLoop tm null input 1 pos = some (.failure d₁.resetLimits) ∧ ret = .failure := by
  have hemp : d.fstk.isEmpty = false := by simpa using hne
  rw [runLoop, hemp, hstep]
  cases ret with
  | cont => exact absurd (.inl rfl) hret
  | success => exact absurd (.inr rfl) hret
  | wait => exact .inl ⟨rfl, rfl⟩
  | failure => exact .inr ⟨rfl, rfl⟩

/-- **The loop of `run`** ends inside the buffer, if every function it calls is
    contained. -/
theorem Resumable.run (h : Resumable tm n d) (hpos : pos ≤ input.length)
    (hlen : input.length < 2 ^ 31)
    (hok : ∀ pos' d', Iterates tm false input pos d pos' d' → Contained tm (input.drop pos') d') :
    (∃ fuel r, d.runLoop tm false input fuel pos = some r ∧ r.Within tm input.length) ∧
      ∀ pos' d', Iterates tm false input pos d pos' d' → pos' ≤ input.length := by
  -- lexicographic: a call takes a byte, or fewer calls can follow
  induction hb : input.length - pos using Nat.strongRecOn generalizing n pos d with
  | ind b ihb =>
  induction n using Nat.strongRecOn generalizing d with
  | ind n ihn =>
    by_cases hf : d.fstk = []
    · refine ⟨⟨1, .done pos d.resetLimits, ?_, hpos, n, h.congr rfl rfl rfl⟩, ?_⟩
      · simp [runLoop, hf]
      · rintro pos' d' (_ | ⟨hne, -, -, -⟩)
        · exact hpos
        · exact absurd hf hne
    have hpast : pos - input.length = 0 := Nat.sub_eq_zero_of_le hpos
    obtain ⟨ret, k, d₁, hstep, hk, n1, h1, hdec⟩ := h.moves hf (hok pos d (.refl pos d))
      (by rw [List.length_drop]; omega)
    rw [List.length_drop] at hk
    rw [← hpast] at hstep
    -- the rest of the loop, after a call that does not end it
    have hrest : ret = .cont ∨ ret = .success →
        (∃ fuel r, (d₁.after ret).runLoop tm false input fuel (pos + k) = some r ∧
          r.Within tm input.length) ∧
        ∀ pos' d', Iterates tm false input (pos + k) (d₁.after ret) pos' d' →
          pos' ≤ input.length := by
      intro hret
      have hok' : ∀ pos' d', Iterates tm false input (pos + k) (d₁.after ret) pos' d' →
          Contained tm (input.drop pos') d' :=
        fun pos' d' hit => hok pos' d' (.step hf hstep hret hit)
      rcases hdec hret with hpos' | hlt
      · exact ihb (input.length - (pos + k)) (by omega) h1 (by omega) hok' rfl
      · by_cases hk0 : k = 0
        · subst hk0
          exact ihn n1 hlt h1 hok'
        · exact ihb (input.length - (pos + k)) (by omega) h1 (by omega) hok' rfl
    constructor
    · by_cases hret : ret = .cont ∨ ret = .success
      · obtain ⟨⟨fuel, r, hrun, hr⟩, -⟩ := hrest hret
        exact ⟨fuel + 1, r, (runLoop_go hf hstep hret fuel).trans hrun, hr⟩
      · rcases runLoop_stop hf hstep hret with ⟨hrun, rfl⟩ | ⟨hrun, rfl⟩
        · exact ⟨1, _, hrun, by omega, n1, h1⟩
        · exact ⟨1, _, hrun, n1, h1.congr rfl rfl rfl⟩
    · rintro pos' d' (_ | ⟨-, hstep', hret, hit⟩)
      · exact hpos
      · rw [hstep] at hstep'
        obtain ⟨rfl, rfl, rfl⟩ := by simpa using hstep'
        exact (hrest hret).2 pos' d' hit

/-- **The loop of `clear()`** ends: every call that does not end it takes a function
    off `fstk`. -/
theorem Resumable.clear (h : Resumable tm n d) (hok : MeetsClear tm d) :
    ∃ fuel r, d.runLoop tm true [] fuel 0 = some r ∧ r.Within tm 0 := by
  induction hb : d.fstk.length using Nat.strongRecOn generalizing n d with
  | ind b ih =>
    by_cases hf : d.fstk = []
    · refine ⟨1, .done 0 d.resetLimits, ?_, Nat.le_refl 0, n, h.congr rfl rfl rfl⟩
      simp [runLoop, hf]
    obtain ⟨ret, d₁, n1, hstep, h1, hret⟩ := h.drops hf (hok 0 d (.refl 0 d))
    have hstep : d.step tm true (0 - ([] : List Byte).length) (([] : List Byte).drop 0) =
        some (ret, 0, d₁) := hstep
    rcases hret with ⟨rfl, hf1⟩ | hret
    · have hshort : (d₁.after .success).fstk.length < d.fstk.length := by
        have hpos := List.length_pos_iff.2 hf
        simp only [after, hf1, List.length_tail]
        omega
      have hok1 : MeetsClear tm (d₁.after .success) :=
        fun pos' d' hit => hok pos' d' (.step hf hstep (.inr rfl) hit)
      obtain ⟨fuel, r, hrun, hr⟩ := ih _ (hb ▸ hshort) h1 hok1 rfl
      exact ⟨fuel + 1, r, (runLoop_go hf hstep (.inr rfl) fuel).trans hrun, hr⟩
    · have hstop : ¬ (ret = .cont ∨ ret = .success) := by
        rcases hret with rfl | rfl <;> simp
      rcases runLoop_stop hf hstep hstop with ⟨hrun, rfl⟩ | ⟨hrun, rfl⟩
      · exact ⟨1, _, hrun, Nat.le_refl 0, n1, h1⟩
      · exact ⟨1, _, hrun, n1, h1.congr rfl rfl rfl⟩

theorem DeserializerBase.runLoop_mono {fuel fuel' : ℕ} {r : DRun}
    (h : d.runLoop tm null input fuel pos = some r) (hle : fuel ≤ fuel') :
    d.runLoop tm null input fuel' pos = some r := by
  induction fuel generalizing fuel' pos d with
  | zero => cases h
  | succ fuel ih =>
    obtain ⟨fuel', rfl⟩ := Nat.exists_eq_add_of_le' (Nat.le_trans (Nat.succ_pos fuel) hle)
    rw [runLoop] at h ⊢
    split_ifs at h ⊢ with hf
    · exact h
    · cases hs : d.step tm null (pos - input.length) (input.drop pos) with
      | none => simpa only [hs] using h
      | some res =>
        obtain ⟨ret, k, d'⟩ := res
        simp only [hs] at h ⊢
        cases ret with
        | cont => exact ih h (by omega)
        | success => exact ih h (by omega)
        | wait => exact h
        | failure => exact h

theorem DeserializerBase.runLoop_unique {fuel1 fuel2 : ℕ} {r1 r2 : DRun}
    (h1 : d.runLoop tm null input fuel1 pos = some r1)
    (h2 : d.runLoop tm null input fuel2 pos = some r2) : r1 = r2 := by
  have h := (runLoop_mono h1 (Nat.le_max_left fuel1 fuel2)).symm.trans
    (runLoop_mono h2 (Nat.le_max_right fuel1 fuel2))
  exact Option.some.inj h

end Run

/-! ## Reachable states -/

/-- No cross integer is half read: what is pushed now may use `tmpstr`. -/
def Pushable (d : DeserializerBase) : Prop :=
  match d.fstk with
  | .loadCrossContinue _ :: _ | .loadCrossDone .. :: _ => False
  | _ => True

/-- The states that a deserializer gets to by pushes of any targets, and by calls of
    `run` on any bytes and of `clear()`, when every step meets its condition. -/
inductive Reachable (tm : TypeMap) : DeserializerBase → Prop where
  | new (lmts : Limits) (targets : List Obj) : Reachable tm (.new lmts targets)
  | push {d : DeserializerBase} (t : Ty) (l : Loc) :
      Reachable tm d →
      Pushable d →
      Reachable tm (d.push t l)
  | run {d d' : DeserializerBase} {input : List Byte} {fuel} {r : DRun} :
      Reachable tm d →
      input.length < 2 ^ 31 →
      Meets tm input d →
      d.runLoop tm false input fuel 0 = some r →
      r.state = some d' →
      Reachable tm d'
  | clear {d d' : DeserializerBase} {fuel} {r : DRun} :
      Reachable tm d →
      MeetsClear tm d →
      d.runLoop tm true [] fuel 0 = some r →
      r.state = some d' →
      Reachable tm d'

section Reachable
variable {tm : TypeMap} {n : ℕ} {d : DeserializerBase}

theorem Resumable.push (h : Resumable tm n d) (hd : Pushable d) (t : Ty) (l : Loc) :
    Resumable tm (n + t.calls) (d.push t l) := by
  cases h with
  | scheduled h => exact .scheduled (h.push d.mem t l)
  | crossContinue k m hf => simp only [Pushable, hf] at hd
  | crossDone m hf => simp only [Pushable, hf] at hd

end Reachable

end SolidFrame
