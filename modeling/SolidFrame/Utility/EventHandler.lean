/-
  SolidFrame formalization — dispatching events (`solid/utility/event.hpp`).

  An event handler keeps the functions of its items in one vector, with a range for each
  type of categories; events are equal if they have the same category.
-/
import Mathlib.Tactic

namespace SolidFrame

open Function List Nat Option

/-- `Event`, without the value that it carries; `operator==` compares both members. -/
structure Event (C : Type) where
  category : C
  id : ℕ
  deriving DecidableEq

/-- `EventHandler`: the offset and the last id of each type of categories, and the functions.
    The function of an item is given by the place of the item in the initializer list. -/
structure EventHandler (T : Type) where
  categoryMap : T → Option (ℕ × ℕ)
  functionVec : List (Option ℕ)

namespace EventHandler
variable {C T : Type} (typeIndex : C → T)

/-- The place of an event in the vector. -/
def position (offs : T → ℕ) (e : Event C) : ℕ := (offs (typeIndex e.category) + e.id) % 2 ^ 64

/-- `handle`: the item whose function is called, `some none` for `invalid_event_fnc_`, and `none`
    when the vector is read out of range. -/
def handle (h : EventHandler T) (e : Event C) : Option (Option ℕ) :=
  match h.categoryMap (typeIndex e.category) with
  | some (off, last) => if e.id ≤ last then h.functionVec[(off + e.id) % 2 ^ 64]? else some none
  | none => some none

def extent (last : Option ℕ) : ℕ := last.elim 0 (· + 1)

theorem lt_extent {last : Option ℕ} {i : ℕ} : i < extent last ↔ ∃ k, last = some k ∧ i ≤ k := by
  cases last <;> simp [extent]

theorem handle_eq (lasts : T → Option ℕ) (offs : T → ℕ) (vec : List (Option ℕ)) (e : Event C) :
    handle typeIndex ⟨fun t => (lasts t).map (offs t, ·), vec⟩ e =
      if e.id < extent (lasts (typeIndex e.category)) then vec[position typeIndex offs e]?
      else some none := by
  unfold handle
  cases h : lasts (typeIndex e.category) <;> simp [extent, position, h]

variable [DecidableEq T]

/-- An item in the first loop of the constructor: the last id of each type, and `vec_size`. -/
def scanItem (st : (T → Option ℕ) × ℕ) (e : Event C) : (T → Option ℕ) × ℕ :=
  let t := typeIndex e.category
  match st.1 t with
  | some last =>
    if last < e.id then (update st.1 t (some e.id), (st.2 + (e.id - last)) % 2 ^ 64) else st
  | none => (update st.1 t (some e.id), (st.2 + (e.id + 1)) % 2 ^ 64)

def scan (evts : List (Event C)) : (T → Option ℕ) × ℕ :=
  evts.foldl (scanItem typeIndex) (fun _ => none, 0)

/-- The second loop: the offsets of the types, in the order of the map. -/
def offsets (lasts : T → Option ℕ) : List T → ℕ → T → ℕ
  | [], _ => fun _ => 0
  | t :: ts, off => update (offsets lasts ts ((off + extent (lasts t)) % 2 ^ 64)) t off

/-- The third loop, from the items with their places; `none` when it leaves the vector. -/
def fill (position : Event C → ℕ) : List (Event C × ℕ) → List (Option ℕ) → Option (List (Option ℕ))
  | [], vec => some vec
  | x :: xs, vec =>
    if position x.1 < vec.length then fill position xs (vec.set (position x.1) (some x.2)) else none

/-- The constructor, when the map is iterated in the given order. -/
def construct (order : List T) (evts : List (Event C)) : Option (EventHandler T) :=
  let st := scan typeIndex evts
  let offs := offsets st.1 order 0
  (fill (position typeIndex offs) evts.zipIdx (List.replicate st.2 none)).map fun vec =>
    ⟨fun t => (st.1 t).map (offs t, ·), vec⟩

def lastItem (p : Event C → Prop) [DecidablePred p] (xs : List (Event C × ℕ)) (k : Option ℕ) :
    Option ℕ :=
  xs.foldl (fun k x => if p x.1 then some x.2 else k) k

/-- Every event is handled by the last item that equals it. -/
def Exact [DecidableEq C] (order : List T) (evts : List (Event C)) : Prop :=
  ∃ h, construct typeIndex order evts = some h ∧
    ∀ e, handle typeIndex h e = some (lastItem (· = e) evts.zipIdx none)

/-- The map holds each type of the items once. -/
structure MapOrder (order : List T) (evts : List (Event C)) : Prop where
  nodup : order.Nodup
  mem : ∀ t, t ∈ order ↔ ∃ e ∈ evts, typeIndex e.category = t

/-- The places that the items need for a type: one more than the largest id. -/
def places (evts : List (Event C)) (t : T) : ℕ :=
  (evts.map fun e => if typeIndex e.category = t then e.id + 1 else 0).foldl max 0

def types (evts : List (Event C)) : Finset T := (evts.map fun e => typeIndex e.category).toFinset

/-- No two categories have the type of an item, and the places can be counted in 64 bits. -/
def Separate (evts : List (Event C)) : Prop :=
  (∀ e ∈ evts, ∀ c, typeIndex c = typeIndex e.category → c = e.category) ∧
    ∑ t ∈ types typeIndex evts, places typeIndex evts t < 2 ^ 64

/-! ## The loops -/

variable {st : (T → Option ℕ) × ℕ}

section Scan
variable {typeIndex}
variable {S : Finset T}

theorem extent_update (lasts : T → Option ℕ) {t : T} (ht : t ∈ S) (last : ℕ) :
    ∑ x ∈ S, extent (update lasts t (some last) x) + extent (lasts t) =
      ∑ x ∈ S, extent (lasts x) + (last + 1) := by
  have hother : ∑ x ∈ S.erase t, extent (update lasts t (some last) x) =
      ∑ x ∈ S.erase t, extent (lasts x) := by
    refine Finset.sum_congr rfl ?_
    intro x hx
    rw [update_of_ne (Finset.ne_of_mem_erase hx)]
  rw [← Finset.add_sum_erase S _ ht, ← Finset.add_sum_erase S
    (fun x => extent (lasts x)) ht, hother, update_self]
  simp only [extent, elim_some]
  omega

structure Scanned (typeIndex : C → T) (evts : List (Event C)) (S : Finset T)
    (st : (T → Option ℕ) × ℕ) : Prop where
  bound : ∀ e ∈ evts, ∃ last, st.1 (typeIndex e.category) = some last ∧ e.id ≤ last
  found : ∀ t, (st.1 t).isSome → ∃ e ∈ evts, typeIndex e.category = t
  size : st.2 = (∑ t ∈ S, extent (st.1 t)) % 2 ^ 64

theorem scanItem_cases (st : (T → Option ℕ) × ℕ) (e : Event C) :
    (∃ last, st.1 (typeIndex e.category) = some last ∧ e.id ≤ last ∧ scanItem typeIndex st e = st) ∨
      extent (st.1 (typeIndex e.category)) ≤ e.id ∧
      scanItem typeIndex st e = (update st.1 (typeIndex e.category) (some e.id),
        (st.2 + (e.id + 1 - extent (st.1 (typeIndex e.category)))) % 2 ^ 64) := by
  unfold scanItem
  cases hlast : st.1 (typeIndex e.category) with
  | none => simp [extent, hlast]
  | some last =>
    by_cases hlt : last < e.id
    · exact .inr ⟨hlt, by simp [extent, hlast, hlt]⟩
    · exact .inl ⟨last, rfl, not_lt.1 hlt, by simp [hlast, hlt]⟩

theorem extent_scan (evts : List (Event C)) (t : T) :
    extent ((scan typeIndex evts).1 t) = places typeIndex evts t := by
  induction evts using List.reverseRecOn with
  | nil => rfl
  | append_singleton evts e ih =>
    have hplaces : places typeIndex (evts ++ [e]) t =
        max (places typeIndex evts t) (if typeIndex e.category = t then e.id + 1 else 0) := by
      simp [places]
    rw [scan, foldl_append, hplaces, ← ih]
    rcases scanItem_cases (scan typeIndex evts) e with ⟨last, hlast, hle, heq⟩ | ⟨hle, heq⟩
    · rw [foldl_cons, foldl_nil, ← scan, heq]
      split_ifs with ht
      · rw [← ht, hlast, extent, elim_some, max_eq_left (by omega)]
      · rw [max_eq_left (Nat.zero_le _)]
    · rw [foldl_cons, foldl_nil, ← scan, heq]
      simp only
      split_ifs with ht
      · rw [← ht, update_self, extent, elim_some, max_eq_right (by omega)]
      · rw [update_of_ne (Ne.symm ht), max_eq_left (Nat.zero_le _)]

theorem Scanned.item {evts : List (Event C)}
    (h : Scanned typeIndex evts S st) {e : Event C} (ht : typeIndex e.category ∈ S) :
    Scanned typeIndex (evts ++ [e]) S (scanItem typeIndex st e) := by
  have hmem : ∀ {q : Event C → Prop}, (∀ e' ∈ evts, q e') → q e → ∀ e' ∈ evts ++ [e], q e' := by
    intro q hall he e' he'
    rcases mem_append.1 he' with he' | he'
    · exact hall e' he'
    · rwa [mem_singleton.1 he']
  rcases scanItem_cases st e with ⟨last, hlast, hle, heq⟩ | ⟨hle, heq⟩
  · rw [heq]
    refine ⟨hmem h.bound ⟨last, hlast, hle⟩, ?_, h.size⟩
    intro t hsome
    obtain ⟨e', he', rfl⟩ := h.found t hsome
    exact ⟨e', mem_append_left _ he', rfl⟩
  · rw [heq]
    refine ⟨hmem ?_ ⟨e.id, update_self _ _ _, le_refl _⟩, ?_, ?_⟩
    · intro e' he'
      obtain ⟨last, hlast, hle'⟩ := h.bound e' he'
      rcases eq_or_ne (typeIndex e'.category) (typeIndex e.category) with hsame | hne
      · rw [← hsame, hlast, extent, elim_some] at hle
        exact ⟨e.id, by simp [hsame], by omega⟩
      · exact ⟨last, (update_of_ne hne _ _).trans hlast, hle'⟩
    · intro t hsome
      rcases eq_or_ne t (typeIndex e.category) with rfl | hne
      · exact ⟨e, by simp, rfl⟩
      · obtain ⟨e', he', rfl⟩ := h.found t (by simpa [update_of_ne hne] using hsome)
        exact ⟨e', mem_append_left _ he', rfl⟩
    · have hsum := extent_update st.1 ht e.id
      rw [h.size, mod_add_mod]
      simp only at hsum ⊢
      omega

theorem scanned (evts : List (Event C)) (hS : ∀ e ∈ evts, typeIndex e.category ∈ S) :
    Scanned typeIndex evts S (scan typeIndex evts) := by
  induction evts using List.reverseRecOn with
  | nil => exact ⟨by simp, by simp [scan], by simp [scan, extent]⟩
  | append_singleton evts e ih =>
    rw [scan, foldl_append]
    exact (ih fun e' he' => hS e' (mem_append_left _ he')).item (hS e (by simp))

end Scan

section Offsets
variable {lasts : T → Option ℕ}

theorem offsets_cons_of_ne {t t' : T} (hne : t' ≠ t) (ts : List T) (off : ℕ) :
    offsets lasts (t :: ts) off t' = offsets lasts ts ((off + extent (lasts t)) % 2 ^ 64) t' :=
  update_of_ne hne _ _

/-- While nothing overflows, the ranges of the types are disjoint. -/
theorem offsets_disjoint : ∀ {order : List T} {off : ℕ}, order.Nodup →
    off + (order.map fun t => extent (lasts t)).sum < 2 ^ 64 →
    (∀ t ∈ order, off ≤ offsets lasts order off t ∧ offsets lasts order off t + extent (lasts t) ≤
      off + (order.map fun t => extent (lasts t)).sum) ∧
    ∀ t ∈ order, ∀ t' ∈ order, t ≠ t' →
      offsets lasts order off t + extent (lasts t) ≤ offsets lasts order off t' ∨
      offsets lasts order off t' + extent (lasts t') ≤ offsets lasts order off t
  | [], _, _, _ => by simp
  | t :: ts, off, hnodup, hfits => by
    rw [map_cons, sum_cons] at hfits
    obtain ⟨hnot, hnodup⟩ := nodup_cons.1 hnodup
    have hmod : (off + extent (lasts t)) % 2 ^ 64 = off + extent (lasts t) :=
      mod_eq_of_lt (by omega)
    have hself : offsets lasts (t :: ts) off t = off := update_self _ _ _
    have hrest : ∀ t' ∈ ts, offsets lasts (t :: ts) off t' =
        offsets lasts ts (off + extent (lasts t)) t' := by
      intro t' ht'
      have hne : t' ≠ t := fun heq => hnot (heq ▸ ht')
      rw [offsets_cons_of_ne hne, hmod]
    obtain ⟨hin, hdis⟩ := @offsets_disjoint ts (off + extent (lasts t)) hnodup (by omega)
    constructor
    · intro t' ht'
      rw [map_cons, sum_cons]
      rcases mem_cons.1 ht' with rfl | ht'
      · omega
      · have := hin t' ht'
        have := hrest t' ht'
        omega
    · intro t' ht' t'' ht'' hne
      rcases mem_cons.1 ht' with rfl | ht1 <;> rcases mem_cons.1 ht'' with rfl | ht2
      · exact absurd rfl hne
      · have := hin t'' ht2
        have := hrest t'' ht2
        omega
      · have := hin t' ht1
        have := hrest t' ht1
        omega
      · rw [hrest t' ht1, hrest t'' ht2]
        exact hdis t' ht1 t'' ht2 hne

/-- Each number below the sum, modulo 2^64, is the place of some event. -/
theorem offsets_cover : ∀ {order : List T} {off : ℕ} (n : ℕ), order.Nodup →
    n < (order.map fun t => extent (lasts t)).sum →
    ∃ t ∈ order, ∃ i < extent (lasts t), (offsets lasts order off t + i) % 2 ^ 64 =
      (off + n) % 2 ^ 64
  | [], _, _, _, hn => absurd hn (by simp)
  | t :: ts, off, n, hnodup, hn => by
    rw [map_cons, sum_cons] at hn
    obtain ⟨hnot, hnodup⟩ := nodup_cons.1 hnodup
    by_cases hlt : n < extent (lasts t)
    · exact ⟨t, mem_cons_self, n, hlt, by rw [offsets, update_self]⟩
    · obtain ⟨t', ht', i, hi, heq⟩ := @offsets_cover ts ((off + extent (lasts t)) % 2 ^ 64)
        (n - extent (lasts t)) hnodup (by omega)
      have hne : t' ≠ t := fun heq => hnot (heq ▸ ht')
      refine ⟨t', mem_cons_of_mem _ ht', i, hi, ?_⟩
      rw [offsets_cons_of_ne hne, heq, mod_add_mod, add_assoc,
        Nat.add_sub_cancel' (Nat.not_lt.1 hlt)]

end Offsets

section Fill
variable {p q : Event C → Prop} [DecidablePred p] [DecidablePred q] {position : Event C → ℕ}

@[simp]
theorem lastItem_cons (x : Event C × ℕ) (xs : List (Event C × ℕ)) (k : Option ℕ) :
    lastItem p (x :: xs) k = lastItem p xs (if p x.1 then some x.2 else k) := rfl

theorem lastItem_congr (k : Option ℕ) : ∀ {xs : List (Event C × ℕ)},
    (∀ x ∈ xs, p x.1 ↔ q x.1) → lastItem p xs k = lastItem q xs k
  | [], _ => rfl
  | x :: xs, h => by
    simp only [lastItem_cons, h x mem_cons_self]
    exact lastItem_congr _ fun y hy => h y (mem_cons_of_mem _ hy)

theorem lastItem_cases (k : Option ℕ) : ∀ xs : List (Event C × ℕ),
    lastItem p xs k = k ∧ (∀ x ∈ xs, ¬ p x.1) ∨ ∃ x ∈ xs, p x.1 ∧ lastItem p xs k = some x.2
  | [] => .inl ⟨rfl, by simp⟩
  | x :: xs => by
    rw [lastItem_cons]
    rcases lastItem_cases (if p x.1 then some x.2 else k) xs with ⟨heq, hnone⟩ | ⟨y, hy, hp, heq⟩
    · by_cases hx : p x.1
      · exact .inr ⟨x, by simp, hx, by rw [heq, if_pos hx]⟩
      · exact .inl ⟨by rw [heq, if_neg hx], by simpa [hx] using hnone⟩
    · exact .inr ⟨y, mem_cons_of_mem _ hy, hp, heq⟩

/-- The third loop leaves, at each place, the last item that it stores there. -/
theorem fill_eq_some : ∀ {xs : List (Event C × ℕ)} {vec : List (Option ℕ)},
    (∀ x ∈ xs, position x.1 < vec.length) →
    ∃ vec', fill position xs vec = some vec' ∧
      ∀ i, vec'[i]? = vec[i]?.map (lastItem (position · = i) xs)
  | [], vec, _ => ⟨vec, rfl, fun i => by cases vec[i]? <;> rfl⟩
  | x :: xs, vec, hin => by
    have hx := hin x mem_cons_self
    obtain ⟨vec', hfill, hget⟩ := @fill_eq_some xs (vec.set (position x.1) (some x.2))
      (by intro y hy; rw [length_set]; exact hin y (mem_cons_of_mem _ hy))
    refine ⟨vec', by rw [fill, if_pos hx, hfill], fun i => ?_⟩
    rw [hget, getElem?_set]
    by_cases hi : position x.1 = i
    · subst hi
      simp [hx]
    · cases vec[i]? <;> simp [hi]

theorem fill_length : ∀ {xs : List (Event C × ℕ)} {vec vec' : List (Option ℕ)},
    fill position xs vec = some vec' → vec'.length = vec.length
  | [], _, _, h => by cases h; rfl
  | x :: xs, vec, vec', h => by
    rw [fill] at h
    split at h
    · rw [fill_length h, length_set]
    · cases h

end Fill

/-! ## Dispatching -/

section Dispatch
variable {typeIndex} {order : List T} {evts : List (Event C)}

theorem MapOrder.scanned (horder : MapOrder typeIndex order evts) :
    Scanned typeIndex evts order.toFinset (scan typeIndex evts) :=
  EventHandler.scanned evts fun e he => mem_toFinset.2 ((horder.mem _).2 ⟨e, he, rfl⟩)

theorem MapOrder.sum_extent (horder : MapOrder typeIndex order evts) :
    (order.map fun t => extent ((scan typeIndex evts).1 t)).sum =
      ∑ t ∈ types typeIndex evts, places typeIndex evts t := by
  have htypes : order.toFinset = types typeIndex evts := by
    ext t
    simp [types, horder.mem]
  rw [← sum_toFinset _ horder.nodup, htypes]
  exact Finset.sum_congr rfl fun t _ => extent_scan evts t

/-- The events with an id up to the last one of their type have different places. -/
structure Placed (typeIndex : C → T) (order : List T) (st : (T → Option ℕ) × ℕ) : Prop where
  lt : ∀ e : Event C, e.id < extent (st.1 (typeIndex e.category)) →
    position typeIndex (offsets st.1 order 0) e < st.2
  inj : ∀ e e' : Event C, e.id < extent (st.1 (typeIndex e.category)) →
    e'.id < extent (st.1 (typeIndex e'.category)) →
    position typeIndex (offsets st.1 order 0) e = position typeIndex (offsets st.1 order 0) e' →
    typeIndex e.category = typeIndex e'.category ∧ e.id = e'.id

theorem Scanned.placed (h : Scanned typeIndex evts order.toFinset st)
    (horder : MapOrder typeIndex order evts)
    (hsum : (order.map fun t => extent (st.1 t)).sum < 2 ^ 64) : Placed typeIndex order st := by
  have hsize := h.size
  rw [sum_toFinset _ horder.nodup, mod_eq_of_lt hsum] at hsize
  obtain ⟨hin, hdis⟩ := @offsets_disjoint _ _ st.1 order 0 horder.nodup (by rwa [zero_add])
  have hmem : ∀ e : Event C, e.id < extent (st.1 (typeIndex e.category)) →
      typeIndex e.category ∈ order := by
    intro e he
    obtain ⟨k, hk, _⟩ := lt_extent.1 he
    exact (horder.mem _).2 (h.found _ (by rw [hk]; rfl))
  have hposition : ∀ e : Event C, e.id < extent (st.1 (typeIndex e.category)) →
      position typeIndex (offsets st.1 order 0) e =
        offsets st.1 order 0 (typeIndex e.category) + e.id := by
    intro e he
    have := hin _ (hmem e he)
    exact mod_eq_of_lt (by omega)
  constructor
  · intro e he
    have := hin _ (hmem e he)
    rw [hposition e he, hsize]
    omega
  · intro e e' he he' heq
    rw [hposition e he, hposition e' he'] at heq
    by_cases ht : typeIndex e.category = typeIndex e'.category
    · exact ⟨ht, by rw [ht] at heq; omega⟩
    · have := hdis _ (hmem e he) _ (hmem e' he') ht
      omega

variable [DecidableEq C]

theorem MapOrder.exact (horder : MapOrder typeIndex order evts)
    (hsep : Separate typeIndex evts) : Exact typeIndex order evts := by
  have hscan := horder.scanned
  have hplaced := hscan.placed horder (horder.sum_extent.trans_lt hsep.2)
  have hitem : ∀ x ∈ evts.zipIdx,
      x.1.id < extent ((scan typeIndex evts).1 (typeIndex x.1.category)) := by
    intro x hx
    exact lt_extent.2 (hscan.bound _ (fst_mem_of_mem_zipIdx hx))
  have hin : ∀ x ∈ evts.zipIdx, position typeIndex (offsets (scan typeIndex evts).1 order 0) x.1 <
      (List.replicate (scan typeIndex evts).2 (none : Option ℕ)).length := by
    intro x hx
    rw [length_replicate]
    exact hplaced.lt _ (hitem x hx)
  obtain ⟨vec, hfill, hget⟩ := fill_eq_some hin
  refine ⟨_, by rw [construct, hfill]; rfl, fun e => ?_⟩
  rw [handle_eq]
  split
  case isTrue he =>
    rw [hget, getElem?_replicate, if_pos (hplaced.lt e he), map_some]
    congr 1
    refine lastItem_congr _ fun x hx => ⟨fun heq => ?_, fun heq => by rw [heq]⟩
    obtain ⟨ht, hid⟩ := hplaced.inj _ _ (hitem x hx) he heq
    rw [Event.mk.injEq]
    exact ⟨(hsep.1 _ (fst_mem_of_mem_zipIdx hx) _ ht.symm).symm, hid⟩
  case isFalse he =>
    rcases lastItem_cases (p := (· = e)) none evts.zipIdx with ⟨heq, -⟩ | ⟨x, hx, rfl, -⟩
    · rw [heq]
    · exact absurd (hitem x hx) he

theorem getElem?_of_lastItem {e : Event C} {k : ℕ}
    (h : lastItem (· = e) evts.zipIdx none = some k) : evts[k]? = some e := by
  rcases lastItem_cases (p := (· = e)) none evts.zipIdx with ⟨heq, -⟩ | ⟨x, hx, rfl, heq⟩
  · rw [heq] at h
    cases h
  · rw [heq] at h
    cases h
    exact mem_zipIdx_iff_getElem?.1 hx

theorem Exact.separate (hexact : Exact typeIndex order evts)
    (horder : MapOrder typeIndex order evts) : Separate typeIndex evts := by
  obtain ⟨h, hconstruct, hhandle⟩ := hexact
  obtain ⟨vec, hfill, rfl⟩ := map_eq_some_iff.1 hconstruct
  simp only [handle_eq] at hhandle
  refine ⟨fun e he c hc => ?_, ?_⟩
  · have heq := hhandle ⟨c, e.id⟩
    simp only [position, hc] at heq
    have hsame := heq.symm.trans (hhandle e)
    rcases lastItem_cases (p := (· = e)) none evts.zipIdx with ⟨-, hnone⟩ | ⟨x, hx, rfl, hlast⟩
    · obtain ⟨i, hi, rfl⟩ := mem_iff_getElem.1 he
      exact absurd rfl (hnone _ (mk_mem_zipIdx_iff_getElem?.2 (getElem?_eq_getElem hi)))
    · rw [hlast, some_inj] at hsame
      have h1 := getElem?_of_lastItem hlast
      rw [getElem?_of_lastItem hsame] at h1
      exact congrArg Event.category (some.inj h1)
  · rw [← horder.sum_extent]
    by_contra hsum
    have hsize := horder.scanned.size
    rw [sum_toFinset _ horder.nodup] at hsize
    have hlt : (scan typeIndex evts).2 < 2 ^ 64 := hsize ▸ mod_lt _ (by decide)
    obtain ⟨t, ht, i, hi, heq⟩ := @offsets_cover _ _ (scan typeIndex evts).1 order 0
      (scan typeIndex evts).2 horder.nodup (by omega)
    obtain ⟨e, he, rfl⟩ := (horder.mem t).1 ht
    have hread := hhandle ⟨e.category, i⟩
    rw [if_pos hi, position, heq, zero_add, mod_eq_of_lt hlt,
      getElem?_eq_none (by rw [fill_length hfill, length_replicate])] at hread
    cases hread

end Dispatch

/-- A dispatch is exact if the types of the items are types of single categories, and if the
    vector has a place for every id: equality compares categories, but the map has their types. -/
theorem exact_iff_separate [DecidableEq C] (typeIndex : C → T) (order : List T)
    (evts : List (Event C)) (horder : MapOrder typeIndex order evts) :
    Exact typeIndex order evts ↔ Separate typeIndex evts :=
  ⟨fun h => h.separate horder, horder.exact⟩

/-- Three categories, one of them with two ids and with an event that is listed twice. -/
def threeCategories : List (Event (Fin 3)) := [⟨0, 2⟩, ⟨1, 0⟩, ⟨0, 2⟩, ⟨2, 1⟩, ⟨0, 0⟩]

theorem exact_three : ∃ h, construct Fin.val [2, 0, 1] threeCategories = some h ∧
    h.functionVec = [none, some 3, some 4, none, some 2, some 1] ∧
    handle Fin.val h (⟨0, 2⟩ : Event (Fin 3)) = some (some 2) ∧
    handle Fin.val h (⟨0, 1⟩ : Event (Fin 3)) = some none ∧
    ∀ e, handle Fin.val h e = some (lastItem (· = e) threeCategories.zipIdx none) := by
  have horder : MapOrder (Fin.val : Fin 3 → ℕ) [2, 0, 1] threeCategories :=
    ⟨by decide, fun t => by simp [threeCategories]; omega⟩
  have hsep : Separate (Fin.val : Fin 3 → ℕ) threeCategories :=
    ⟨fun _ _ _ h => Fin.val_injective h, by decide⟩
  obtain ⟨h, hconstruct, hhandle⟩ := (exact_iff_separate _ _ _ horder).2 hsep
  cases hconstruct
  exact ⟨_, rfl, rfl, rfl, rfl, hhandle⟩

/-- Two categories of one type: the event of the other category runs the function. -/
theorem handle_other_category : ∃ h, construct (fun _ : Bool => ()) [()] [⟨true, 0⟩] = some h ∧
    handle (fun _ => ()) h (⟨false, 0⟩ : Event Bool) = some (some 0) ∧
    lastItem (· = ⟨false, 0⟩) [(⟨true, 0⟩ : Event Bool)].zipIdx none = none :=
  ⟨_, rfl, rfl, rfl⟩

end EventHandler
end SolidFrame
