/-
  Cursors — a walk through a list that is changed by others meanwhile.

  The cursor is an element of the list, or none at the end of the walk.  Elements are
  appended and removed while it rests, but never the one that it is at.
-/
import Mathlib.Data.List.Basic
import Mathlib.Data.List.Nodup

namespace SolidFrame

open List

variable {α : Type}

/-- Of the elements `left`, those before the cursor do not satisfy `p`. -/
def Swept (p : α → Prop) (left xs : List α) : Option α → Prop
  | some x => ∃ as bs, xs = as ++ x :: bs ∧ ∀ y ∈ as, y ∈ left → ¬ p y
  | none => ∀ y ∈ left, ¬ p y

namespace Swept
variable {p : α → Prop} {left xs : List α} {cur : Option α} {x : α}

theorem start (p : α → Prop) (xs : List α) : Swept p xs xs xs.head? := by
  cases xs with
  | nil => exact fun y hy => absurd hy not_mem_nil
  | cons x xs => exact ⟨[], xs, rfl, fun y hy => absurd hy not_mem_nil⟩

theorem mem (h : Swept p left xs (some x)) : x ∈ xs := by
  obtain ⟨as, bs, rfl, -⟩ := h
  exact mem_append_right _ mem_cons_self

theorem done (h : Swept p left xs none) : ∀ y ∈ left, ¬ p y := h

theorem append (h : Swept p left xs cur) (ys : List α) : Swept p left (xs ++ ys) cur := by
  cases cur with
  | none => exact h
  | some x =>
    obtain ⟨as, bs, rfl, has⟩ := h
    exact ⟨as, bs ++ ys, by simp, has⟩

variable [DecidableEq α]

theorem erase (h : Swept p left xs cur) {y : α} (hy : cur ≠ some y) :
    Swept p (left.erase y) (xs.erase y) cur := by
  cases cur with
  | none => exact fun z hz => h z (mem_of_mem_erase hz)
  | some x =>
    obtain ⟨as, bs, rfl, has⟩ := h
    have hne : x ≠ y := fun heq => hy (congrArg some heq)
    by_cases hmem : y ∈ as
    · refine ⟨as.erase y, bs, erase_append_left _ hmem, fun z hz hleft => ?_⟩
      exact has z (mem_of_mem_erase hz) (mem_of_mem_erase hleft)
    · refine ⟨as, bs.erase y, ?_, fun z hz hleft => has z hz (mem_of_mem_erase hleft)⟩
      rw [erase_append_right _ hmem, erase_cons_tail (by simpa using hne)]

/-- **The cursor goes on** to the element behind it.  Its own element is removed, or stays
    because it does not satisfy `p`. -/
theorem advance (h : Swept p left xs (some x)) (hxs : xs.Nodup) (hsub : left.Sublist xs) :
    ∃ as bs, xs = as ++ x :: bs ∧ Swept p (left.erase x) (xs.erase x) bs.head? ∧
      ((x ∈ left → ¬ p x) → Swept p left xs bs.head?) := by
  obtain ⟨as, bs, rfl, has⟩ := h
  have hx : x ∉ as := fun hmem =>
    (disjoint_of_nodup_append hxs) hmem mem_cons_self
  have herase : (as ++ x :: bs).erase x = as ++ bs := by
    rw [erase_append_right _ hx, erase_cons_head]
  refine ⟨as, bs, rfl, ?_, fun hpx => ?_⟩
  · rw [herase]
    cases bs with
    | nil =>
      intro y hy
      obtain ⟨hne, hleft⟩ := (hxs.sublist hsub).mem_erase_iff.1 hy
      rcases mem_append.1 (hsub.subset hleft) with hmem | hmem
      · exact has y hmem hleft
      · exact absurd (mem_singleton.1 hmem) hne
    | cons z bs => exact ⟨as, bs, rfl, fun y hy hleft => has y hy (mem_of_mem_erase hleft)⟩
  · have hbefore : ∀ y ∈ as ++ [x], y ∈ left → ¬ p y := by
      intro y hy hleft
      rcases mem_append.1 hy with hy | hy
      · exact has y hy hleft
      · obtain rfl := mem_singleton.1 hy
        exact hpx hleft
    cases bs with
    | nil => exact fun y hy => hbefore y (hsub.subset hy) hy
    | cons z bs => exact ⟨as ++ [x], bs, by simp, hbefore⟩

end Swept

end SolidFrame
