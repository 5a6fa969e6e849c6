/-
  SolidFrame formalization — doubly linked lists through the nodes of a vector
  (`solid/utility/innerlist.hpp`).

  A list is a header (`size_`, `back_`, `front_`) over one link field of the
  nodes of a vector; several lists may use the same link field.  `prev` leads
  towards the back, `next` towards the front.
-/
import Mathlib.Data.List.Induction
import Mathlib.Data.List.Nodup
import Mathlib.Logic.Function.Basic

namespace SolidFrame

open Function List

/-- `InnerLink`; `none` is `InvalidIndex()`. -/
structure InnerLink where
  prev : Option ℕ
  next : Option ℕ
  deriving DecidableEq, Repr

/-- One link field of all the nodes of a vector. -/
abbrev Links := ℕ → InnerLink

def Links.setPrev (links : Links) (i : ℕ) (p : Option ℕ) : Links :=
  update links i { links i with prev := p }

def Links.setNext (links : Links) (i : ℕ) (n : Option ℕ) : Links :=
  update links i { links i with next := n }

/-- The header of a list.  `erase` on an empty list, where `size_` would wrap, is left
    at 0. -/
structure InnerList where
  size : ℕ
  back : Option ℕ
  front : Option ℕ
  deriving DecidableEq, Repr

namespace InnerList

def empty : InnerList := ⟨0, none, none⟩

variable (l : InnerList) (links : Links)

def pushBack (i : ℕ) : InnerList × Links :=
  let links₁ : Links := update links i ⟨none, l.back⟩
  match l.back with
  | some b => (⟨l.size + 1, some i, l.front⟩, Links.setPrev links₁ b (some i))
  | none => (⟨l.size + 1, some i, some i⟩, links₁)

def pushFront (i : ℕ) : InnerList × Links :=
  let links₁ : Links := update links i ⟨l.front, none⟩
  match l.front with
  | some f => (⟨l.size + 1, l.back, some i⟩, Links.setNext links₁ f (some i))
  | none => (⟨l.size + 1, some i, some i⟩, links₁)

/-- The first `if` of `erase`: the node towards the back, or else `back_`. -/
def unlinkPrev (i : ℕ) : InnerList × Links :=
  match (links i).prev with
  | some p => (l, links.setNext p (links i).next)
  | none => ({ l with back := (links i).next }, links)

/-- The second `if` of `erase`: the node towards the front, or else `front_`. -/
def unlinkNext (i : ℕ) : InnerList × Links :=
  match (links i).next with
  | some n => (l, links.setPrev n (links i).prev)
  | none => ({ l with front := (links i).prev }, links)

/-- `erase`, which knows the list by the links of the node alone.  The size of an empty list
    stays 0, where `size_` would wrap around. -/
def erase (i : ℕ) : InnerList × Links :=
  let s₁ := l.unlinkPrev links i
  let s₂ := s₁.1.unlinkNext s₁.2 i
  ({ s₂.1 with size := s₂.1.size - 1 }, update s₂.2 i ⟨none, none⟩)

/-- `popFront`; `none` when there is no front, so that a node before the first of the
    vector would be written. -/
def popFront : Option (ℕ × InnerList × Links) :=
  l.front.map fun i => (i, l.erase links i)

def previousIndex (links : Links) (i : ℕ) : Option ℕ := (links i).prev

/-- The indices that `forEach` visits in at most `n` turns, from `it` on. -/
def forEachFrom (links : Links) : ℕ → Option ℕ → List ℕ
  | 0, _ | _, none => []
  | n + 1, some i => i :: forEachFrom links n (links i).next

def forEach : List ℕ := forEachFrom links l.size l.back

def contains (i : ℕ) : Bool :=
  (links i).prev.isSome || (links i).next.isSome || l.front == some i

end InnerList

/-! ## Segments -/

/-- The links of the nodes `xs` are those of a part of a list, with `next` before its
    first node and `prev` after its last one. -/
def Seg (links : Links) : Option ℕ → Option ℕ → List ℕ → Prop
  | _, _, [] => True
  | next, prev, x :: xs => links x = ⟨xs.head?.or prev, next⟩ ∧ Seg links (some x) prev xs

section Seg
variable {links links' : Links} {next prev : Option ℕ} {xs ys : List ℕ}

theorem seg_append : Seg links next prev (xs ++ ys) ↔
      Seg links next (ys.head?.or prev) xs ∧ Seg links (xs.getLast?.or next) prev ys := by
  induction xs generalizing next with
  | nil => simp [Seg]
  | cons x xs ih =>
    rw [cons_append, Seg, Seg, ih, and_assoc]
    have hhead : (xs ++ ys).head?.or prev = xs.head?.or (ys.head?.or prev) := by
      rw [head?_append, Option.or_assoc]
    have hlast : (x :: xs).getLast?.or next = xs.getLast?.or (some x) := by
      cases xs with
      | nil => rfl
      | cons y ys => simp [getLast?_cons]
    rw [hhead, hlast]

theorem Seg.congr (h : Seg links next prev xs) (heq : ∀ x ∈ xs, links' x = links x) :
    Seg links' next prev xs := by
  induction xs generalizing next with
  | nil => trivial
  | cons x xs ih =>
    obtain ⟨hx, hxs⟩ := h
    refine ⟨(heq x mem_cons_self).trans hx, ih hxs fun y hy => ?_⟩
    exact heq y (mem_cons_of_mem x hy)

theorem Seg.setNext {x : ℕ} (h : Seg links next prev (x :: xs)) (hx : x ∉ xs) (n : Option ℕ) :
    Seg (links.setNext x n) n prev (x :: xs) := by
  obtain ⟨hlink, hxs⟩ := h
  refine ⟨by simp [Links.setNext, hlink], hxs.congr fun y hy => ?_⟩
  exact update_of_ne (fun heq : y = x => hx (heq ▸ hy)) _ _

theorem Seg.setPrev {x : ℕ} (h : Seg links next prev (xs ++ [x])) (hx : x ∉ xs) (p : Option ℕ) :
    Seg (links.setPrev x p) next p (xs ++ [x]) := by
  obtain ⟨hxs, hlink, -⟩ := seg_append.1 h
  refine seg_append.2 ⟨hxs.congr fun y hy => ?_, ?_, trivial⟩
  · exact update_of_ne (fun heq : y = x => hx (heq ▸ hy)) _ _
  · simp [Links.setPrev, hlink]

end Seg

/-! ## Lists -/

namespace InnerList

/-- The header and the links are those of the list `xs`, front first. -/
structure Repr (links : Links) (l : InnerList) (xs : List ℕ) : Prop where
  size : l.size = xs.length
  back : l.back = xs.getLast?
  front : l.front = xs.head?
  nodup : xs.Nodup
  seg : Seg links none none xs

variable {l : InnerList} {links links' : Links} {xs : List ℕ} {i : ℕ}

theorem repr_empty (links : Links) : Repr links empty [] :=
  ⟨rfl, rfl, rfl, nodup_nil, trivial⟩

theorem Repr.congr (h : Repr links l xs) (heq : ∀ x ∈ xs, links' x = links x) : Repr links' l xs :=
  ⟨h.size, h.back, h.front, h.nodup, h.seg.congr heq⟩

theorem Repr.size_pos (h : Repr links l (i :: xs)) : l.size ≠ 0 := by
  rw [h.size]
  exact Nat.succ_ne_zero _

theorem Repr.pushBack (h : Repr links l xs) (hi : i ∉ xs) :
    Repr (l.pushBack links i).2 (l.pushBack links i).1 (xs ++ [i]) ∧
    ∀ j ∉ xs, j ≠ i → (l.pushBack links i).2 j = links j := by
  have hnodup : (xs ++ [i]).Nodup := nodup_append'.2 ⟨h.nodup, nodup_singleton i, by simpa using hi⟩
  rcases eq_nil_or_concat xs with rfl | ⟨ys, b, rfl⟩
  · have hback : l.back = none := h.back
    simp only [InnerList.pushBack, hback]
    refine ⟨⟨by simp [h.size], by simp, by simp, hnodup, by simp [Seg]⟩, fun j _ hj => ?_⟩
    exact update_of_ne hj _ _
  · have hback : l.back = some b := by simpa using h.back
    have hb : b ∉ ys := by
      have hnd := h.nodup
      simp only [concat_eq_append, nodup_append, mem_singleton] at hnd
      exact fun hmem => hnd.2.2 b hmem b rfl rfl
    have hne : i ≠ b := fun heq => hi (by simp [heq])
    simp only [InnerList.pushBack, hback]
    refine ⟨⟨by simp [h.size], by simp, ?_, hnodup, ?_⟩, fun j hj hji => ?_⟩
    · rw [h.front]
      simp [head?_append]
    · rw [seg_append]
      rw [concat_eq_append] at *
      have hseg : Seg (update links i ⟨none, some b⟩) none none (ys ++ [b]) :=
        h.seg.congr fun x hx => update_of_ne (fun heq : x = i => hi (heq ▸ hx)) _ _
      refine ⟨hseg.setPrev hb (some i), ?_, trivial⟩
      rw [Links.setPrev, update_of_ne hne, update_self]
      simp
    · have hjb : j ≠ b := fun heq => hj (by simp [heq])
      rw [Links.setPrev, update_of_ne hjb, update_of_ne hji]

theorem Repr.pushFront (h : Repr links l xs) (hi : i ∉ xs) :
    Repr (l.pushFront links i).2 (l.pushFront links i).1 (i :: xs) ∧
    ∀ j ∉ xs, j ≠ i → (l.pushFront links i).2 j = links j := by
  have hnodup : (i :: xs).Nodup := nodup_cons.2 ⟨hi, h.nodup⟩
  cases xs with
  | nil =>
    have hfront : l.front = none := h.front
    simp only [InnerList.pushFront, hfront]
    refine ⟨⟨by simp [h.size], by simp, by simp, hnodup, by simp [Seg]⟩, fun j _ hj => ?_⟩
    exact update_of_ne hj _ _
  | cons f xs =>
    have hfront : l.front = some f := h.front
    have hf : f ∉ xs := (nodup_cons.1 h.nodup).1
    have hne : i ≠ f := fun heq => hi (by simp [heq])
    simp only [InnerList.pushFront, hfront]
    refine ⟨⟨by simp [h.size], ?_, by simp, hnodup, ?_, ?_⟩, fun j hj hji => ?_⟩
    · rw [h.back, getLast?_cons_cons]
    · rw [Links.setNext, update_of_ne hne, update_self]
      rfl
    · have hseg : Seg (update links i ⟨some f, none⟩) none none (f :: xs) :=
        h.seg.congr fun x hx => update_of_ne (fun heq : x = i => hi (heq ▸ hx)) _ _
      exact hseg.setNext hf (some i)
    · have hjf : j ≠ f := fun heq => hj (by simp [heq])
      rw [Links.setNext, update_of_ne hjf, update_of_ne hji]

variable {as bs : List ℕ}

theorem Repr.unlinkPrev (h : Repr links l (as ++ i :: bs)) :
    (l.unlinkPrev links i).1 = ⟨l.size, (as ++ bs).getLast?, l.front⟩ ∧
    (l.unlinkPrev links i).2 i = links i ∧
    Seg (l.unlinkPrev links i).2 none (some i) as ∧
    Seg (l.unlinkPrev links i).2 as.getLast? none bs ∧
    ∀ j ∉ bs, (l.unlinkPrev links i).2 j = links j := by
  obtain ⟨has, hi, hbs⟩ := seg_append.1 h.seg
  obtain ⟨-, hnd, hdisj⟩ := nodup_append'.1 h.nodup
  obtain ⟨hibs, hbsnd⟩ := nodup_cons.1 hnd
  have hprev : (links i).prev = bs.head? := by simp [hi]
  have hnext : (links i).next = as.getLast? := by simp [hi]
  unfold InnerList.unlinkPrev
  rw [hprev, hnext]
  cases bs with
  | nil => exact ⟨by simp, rfl, has, trivial, fun _ _ => rfl⟩
  | cons p bs =>
    have hp : p ∉ bs := (nodup_cons.1 hbsnd).1
    have hne : i ≠ p := fun heq => hibs (by simp [heq])
    refine ⟨?_, update_of_ne hne _ _, ?_, hbs.setNext hp as.getLast?, fun j hj => ?_⟩
    · obtain ⟨n, b, f⟩ := l
      have hback : b = _ := h.back
      simp [hback, getLast?_append, getLast?_cons_cons]
    · refine has.congr fun x hx => update_of_ne (fun heq : x = p => ?_) _ _
      exact disjoint_left.1 hdisj hx (by simp [heq])
    · exact update_of_ne (fun heq : j = p => hj (by simp [heq])) _ _

/-- **A node is taken out of its list**, and only its neighbours' links change. -/
theorem Repr.erase (h : Repr links l (as ++ i :: bs)) :
    Repr (l.erase links i).2 (l.erase links i).1 (as ++ bs) ∧
    ∀ j ∉ as ++ i :: bs, (l.erase links i).2 j = links j := by
  obtain ⟨hl1, hi1, has, hbs, hframe⟩ := h.unlinkPrev
  have hi : links i = ⟨bs.head?.or none, as.getLast?.or none⟩ := (seg_append.1 h.seg).2.1
  obtain ⟨hasnd, hnd, hdisj⟩ := nodup_append'.1 h.nodup
  obtain ⟨hibs, hbsnd⟩ := nodup_cons.1 hnd
  have hias : i ∉ as := fun hmem => disjoint_left.1 hdisj hmem (by simp)
  have hasbs : List.Disjoint as bs := disjoint_of_disjoint_cons_right hdisj
  have hnodup : (as ++ bs).Nodup := nodup_append'.2 ⟨hasnd, hbsnd, hasbs⟩
  have hclear : ∀ (links' : Links), Seg links' none none (as ++ bs) →
      Seg (update links' i ⟨none, none⟩) none none (as ++ bs) := by
    intro links' hseg
    refine hseg.congr fun x hx => update_of_ne (fun heq : x = i => ?_) _ _
    rw [heq, mem_append] at hx
    exact hx.elim hias hibs
  unfold InnerList.erase InnerList.unlinkNext
  simp only [hl1, hi1, hi, Option.or_none]
  rcases eq_nil_or_concat as with rfl | ⟨as, n, rfl⟩
  · refine ⟨⟨?_, rfl, rfl, hnodup, hclear _ hbs⟩, fun j hj => ?_⟩
    · simp [h.size]
    · simp only [nil_append, mem_cons, not_or] at hj
      exact (update_of_ne hj.1 _ _).trans (hframe j hj.2)
  · rw [concat_eq_append] at *
    have hn : n ∉ as := by
      have hnd := nodup_append'.1 hasnd
      exact fun hmem => disjoint_left.1 hnd.2.2 hmem (by simp)
    have hnbs : n ∉ bs := disjoint_left.1 hasbs (by simp)
    have hlast : (as ++ [n]).getLast? = some n := by simp
    simp only [hlast]
    refine ⟨⟨?_, rfl, ?_, hnodup, hclear _ (seg_append.2 ⟨?_, ?_⟩)⟩, fun j hj => ?_⟩
    · simp [h.size]
    · rw [h.front]
      simp [head?_append]
    · rw [Option.or_none]
      exact has.setPrev hn _
    · refine Seg.congr ?_ fun x hx => update_of_ne (fun heq : x = n => hnbs (heq ▸ hx)) _ _
      simpa using hbs
    · simp only [mem_append, mem_cons, not_mem_nil, not_or, or_false] at hj
      rw [update_of_ne hj.2.1, Links.setPrev, update_of_ne hj.1.2, hframe j hj.2.2]

theorem Repr.erase_mem (h : Repr links l xs) (hi : i ∈ xs) :
    Repr (l.erase links i).2 (l.erase links i).1 (xs.erase i) ∧
    ∀ j ∉ xs, (l.erase links i).2 j = links j := by
  obtain ⟨as, bs, rfl, hias⟩ := eq_append_cons_of_mem hi
  rw [erase_append_right _ hias, erase_cons_head]
  exact h.erase

theorem Repr.popFront (h : Repr links l (i :: xs)) : l.popFront links = some (i, l.erase links i) ∧
    Repr (l.erase links i).2 (l.erase links i).1 xs ∧
    ∀ j ∉ i :: xs, (l.erase links i).2 j = links j := by
  have hfront : l.front = some i := h.front
  have herase : Repr links l ([] ++ i :: xs) := h
  exact ⟨by rw [InnerList.popFront, hfront, Option.map_some], herase.erase⟩

theorem Repr.previousIndex (h : Repr links l (as ++ i :: bs)) :
    previousIndex links i = bs.head? := by
  obtain ⟨-, hi, -⟩ := seg_append.1 h.seg
  rw [InnerList.previousIndex, hi, Option.or_none]

theorem erase_links_self (l : InnerList) (links : Links) (i : ℕ) :
    (l.erase links i).2 i = ⟨none, none⟩ := update_self _ _ _

theorem Repr.contains_of_mem (h : Repr links l xs) (hi : i ∈ xs) : l.contains links i = true := by
  obtain ⟨as, bs, rfl⟩ := append_of_mem hi
  obtain ⟨-, hlink, -⟩ := seg_append.1 h.seg
  rcases eq_nil_or_concat as with rfl | ⟨as, n, rfl⟩
  · have hfront : l.front = some i := h.front
    simp [contains, hfront]
  · simp [contains, hlink]

theorem Repr.not_contains (h : Repr links l xs) (hi : i ∉ xs) (hlink : links i = ⟨none, none⟩) :
    l.contains links i = false := by
  have hfront : l.front ≠ some i := by
    rw [h.front]
    exact fun heq => hi (mem_of_mem_head? heq)
  simp [contains, hlink, hfront]

theorem Repr.forEach (h : Repr links l xs) : l.forEach links = xs.reverse := by
  have hfrom : ∀ (ys : List ℕ) (prev : Option ℕ), Seg links none prev ys →
      forEachFrom links ys.length ys.getLast? = ys.reverse := by
    intro ys
    induction ys using List.reverseRecOn with
    | nil => exact fun _ _ => rfl
    | append_singleton ys y ih =>
      intro prev hseg
      obtain ⟨hys, hy, -⟩ := seg_append.1 hseg
      have hnext : (links y).next = ys.getLast? := by rw [hy, Option.or_none]
      rw [length_append, length_singleton, getLast?_concat, forEachFrom, hnext,
        ih _ hys, reverse_concat]
  rw [InnerList.forEach, h.size, h.back]
  exact hfrom xs none h.seg

theorem Repr.unique {ys : List ℕ} (h : Repr links l xs) (h' : Repr links l ys) : xs = ys :=
  reverse_injective (h.forEach.symm.trans h'.forEach)

end InnerList

end SolidFrame
