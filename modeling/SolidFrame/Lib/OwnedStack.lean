/-
  Two stacks — one of functions to call, one of data that they own.

  A machine schedules functions on one stack and keeps on another the data that
  some of them need from one call to the next.  Each entry of the second stack
  belongs to one function of the first, in the same order.
-/
import Mathlib.Data.List.Count

namespace SolidFrame

/-- What a function is to the data: it has none, it has none and may give up the
    function below it, which has none either, or it owns an entry. -/
inductive FrameKind where
  | free
  | pair
  | owner
  deriving DecidableEq

/-- The kinds of the functions, and the data that fits each owner. -/
structure StackRules (F E : Type*) where
  kind : F → FrameKind
  owns : F → E → Prop

variable {F E : Type*}

/-- Every owner finds its data in its place, and there is no other data. -/
inductive Owned (R : StackRules F E) : List F → List E → Prop where
  | nil : Owned R [] []
  | free {f fs es} : R.kind f = .free → Owned R fs es → Owned R (f :: fs) es
  | pair {f g fs es} : R.kind f = .pair → R.kind g = .free → Owned R fs es →
    Owned R (f :: g :: fs) es
  | owner {f fs e es} : R.kind f = .owner → R.owns f e → Owned R fs es → Owned R (f :: fs) (e :: es)

namespace Owned
variable {R : StackRules F E} {f : F} {fs : List F} {e e' : E} {es : List E}

theorem rest (h : Owned R (f :: fs) es) (hf : R.kind f = .free) : Owned R fs es := by
  cases h with
  | free _ h => exact h
  | pair hp _ _ => rw [hf] at hp; cases hp
  | owner ho _ _ => rw [hf] at ho; cases ho

theorem pairBelow (h : Owned R (f :: fs) es) (hf : R.kind f = .pair) :
    ∃ g gs, fs = g :: gs ∧ R.kind g = .free ∧ Owned R gs es := by
  cases h with
  | free hp _ => rw [hf] at hp; cases hp
  | pair _ hg h => exact ⟨_, _, rfl, hg, h⟩
  | owner ho _ _ => rw [hf] at ho; cases ho

theorem entry (h : Owned R (f :: fs) es) (hf : R.kind f = .owner) :
    ∃ e es', es = e :: es' ∧ R.owns f e ∧ Owned R fs es' := by
  cases h with
  | free hp _ => rw [hf] at hp; cases hp
  | pair hp _ _ => rw [hf] at hp; cases hp
  | owner _ ho h => exact ⟨_, _, rfl, ho, h⟩

theorem map_top (h : Owned R fs (e :: es)) (he : ∀ f, R.owns f e → R.owns f e') :
    Owned R fs (e' :: es) := by
  generalize hes : e :: es = es0 at h
  induction h with
  | nil => cases hes
  | free hf _ ih => exact .free hf (ih hes)
  | pair hf hg _ ih => exact .pair hf hg (ih hes)
  | owner hf ho h _ =>
    obtain ⟨rfl, rfl⟩ := List.cons.inj hes
    exact .owner hf (he _ ho) h

theorem length_eq (h : Owned R fs es) : es.length = fs.countP (R.kind · = .owner) := by
  induction h with
  | nil => rfl
  | free hf _ ih => simp [hf, ih]
  | pair hf hg _ ih => simp [hf, hg, ih]
  | owner hf _ _ ih => simp [hf, ih]

/-- If every owner pops its entry or leaves it, and as many entries were popped as there
    are, then no owner left one. -/
theorem countP_left_eq_zero {pops left : F → Bool} (h : Owned R fs es)
    (hsplit : ∀ f, (if R.kind f = .owner then 1 else 0) =
      (if pops f then 1 else 0) + if left f then 1 else 0)
    (hlen : es.length = fs.countP pops) : fs.countP left = 0 := by
  have hcount : ∀ gs : List F, gs.countP (R.kind · = .owner) = gs.countP pops + gs.countP left := by
    intro gs
    induction gs with
    | nil => rfl
    | cons g gs ih =>
      simp only [List.countP_cons, ih, decide_eq_true_eq, hsplit g]
      omega
  have hall := h.length_eq
  rw [hcount, hlen] at hall
  omega

end Owned

end SolidFrame
