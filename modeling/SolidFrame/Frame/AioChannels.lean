/-
  SolidFrame formalization — the channels of the aio reactor
  (solid/frame/aio/src/aioreactor.cpp, solid/frame/aio/src/aiocompletion.cpp).

  A completion handler that is registered has a slot of `chdq`, and the system returns the
  number of the slot with each event of the handler's device.  `doCompleteIo` calls, for one
  event after the other, whatever handler it finds in the slot.

  * a slot that is given back has the dummy handler, which drops the event, until
    `registerCompletionHandler` takes it from `chposcache`;
  * what the handlers do while a batch is handled is up to them: registering and
    unregistering completion handlers are steps of their own, `postStop` unregisters those of
    the object, and the handler of the reactor's own event registers those of new objects.

  Left out: the kind of an event and the other fields of the context of a call.
-/
import Mathlib.Tactic

namespace SolidFrame.Aio

open Function List Option

/-! ## Data -/

/-- `pch` is `none` for the dummy handler of the reactor. -/
structure CompletionHandlerStub (H : Type) where
  pch : Option H
  objidx : ℕ
  unique : ℕ
  deriving DecidableEq, Repr

/-- `idxreactor` is the slot that a handler knows of. -/
structure Channels (H : Type) where
  chdq : List (CompletionHandlerStub H)
  chposcache : List ℕ
  idxreactor : H → Option ℕ

/-- An event as the system returns it: the number of a slot.  `source` is the handler whose
    device has the event. -/
structure IoEvent (H : Type) where
  source : H
  slot : ℕ
  deriving DecidableEq, Repr

structure Io (H : Type) where
  chans : Channels H
  pending : List (IoEvent H)

inductive IoStep (H : Type) where
  /-- the next turn of `doCompleteIo` -/
  | handle
  | register (h : H) (objidx : ℕ)
  | unregister (h : H)
  deriving DecidableEq, Repr

inductive IoOutcome (H : Type) where
  | delivered (e : IoEvent H) (pch : Option H)
  | changed
  deriving DecidableEq, Repr

namespace Channels
variable {H : Type} [DecidableEq H]

/-- `Reactor::start`: the slots of the dummy handler and of the event handler. -/
def start (eventhandler : H) : Channels H where
  chdq := [⟨none, 0, 0⟩, ⟨some eventhandler, 0, 0⟩]
  chposcache := []
  idxreactor := update (fun _ => none) eventhandler (some 1)

/-- A handler is registered only if it has no slot (`activate`). -/
def registerCompletionHandler (c : Channels H) (h : H) (objidx : ℕ) : Option (Channels H) :=
  if (c.idxreactor h).isSome then none
  else
    match c.chposcache with
    | idx :: rest => (c.chdq[idx]?).map fun stub =>
      { chdq := c.chdq.set idx { stub with pch := some h, objidx := objidx }
        chposcache := rest
        idxreactor := update c.idxreactor h (some idx) }
    | [] => some
      { chdq := c.chdq ++ [⟨some h, objidx, 0⟩]
        chposcache := []
        idxreactor := update c.idxreactor h (some c.chdq.length) }

/-- A handler is unregistered only if it has a slot (`deactivate`); the counter has 64 bits. -/
def unregisterCompletionHandler (c : Channels H) (h : H) : Option (Channels H) := do
  let idx ← c.idxreactor h
  let stub ← c.chdq[idx]?
  some
    { chdq := c.chdq.set idx ⟨none, 0, (stub.unique + 1) % 2 ^ 64⟩
      chposcache := idx :: c.chposcache
      idxreactor := update c.idxreactor h none }

end Channels

namespace Io
variable {H : Type} [DecidableEq H]

def step (io : Io H) : IoStep H → Option (Io H × IoOutcome H)
  | .handle =>
    match io.pending with
    | [] => none
    | e :: rest => (io.chans.chdq[e.slot]?).map fun stub =>
      ({ io with pending := rest }, .delivered e stub.pch)
  | .register h objidx => (io.chans.registerCompletionHandler h objidx).map fun c =>
      ({ io with chans := c }, .changed)
  | .unregister h => (io.chans.unregisterCompletionHandler h).map fun c =>
      ({ io with chans := c }, .changed)

end Io

/-! ## Runs -/

/-- The channels of a reactor after handlers were registered and unregistered. -/
inductive Channels.Reachable {H : Type} [DecidableEq H] : Channels H → Prop where
  | start (eventhandler : H) : Reachable (.start eventhandler)
  | register {c c' : Channels H} (h : Reachable c) (x : H) (objidx : ℕ) :
      c.registerCompletionHandler x objidx = some c' →
      Reachable c'
  | unregister {c c' : Channels H} (h : Reachable c) (x : H) :
      c.unregisterCompletionHandler x = some c' →
      Reachable c'

/-- The steps of one call of `doCompleteIo` with the events `evs`, all of them `ok`, the last
    one first. -/
inductive Handles {H : Type} [DecidableEq H] (ok : Io H → IoStep H → Prop) (c : Channels H)
    (evs : List (IoEvent H)) : List (IoStep H × IoOutcome H) → Io H → Prop where
  | start : Handles ok c evs [] ⟨c, evs⟩
  | step {tr} {io io' : Io H} {out} (h : Handles ok c evs tr io) (a : IoStep H) :
      ok io a →
      io.step a = some (io', out) →
      Handles ok c evs ((a, out) :: tr) io'

/-- The events that a poll returns: a device is added with the slot of its handler. -/
def Polled {H : Type} (c : Channels H) (evs : List (IoEvent H)) : Prop :=
  ∀ e ∈ evs, c.idxreactor e.source = some e.slot

/-- The next event is handled, by the handler of its device; or it is dropped, and the handler
    was unregistered since the poll. -/
def Delivers {H : Type} [DecidableEq H] (tr : List (IoStep H × IoOutcome H)) (io : Io H) : Prop :=
  ∀ (e : IoEvent H) (rest : List (IoEvent H)), io.pending = e :: rest →
    ∃ (io' : Io H) (pch : Option H), io.step .handle = some (io', .delivered e pch) ∧
      (pch = some e.source ∨ pch = none ∧ (.unregister e.source, .changed) ∈ tr)

/-- The slot that a registration takes is that of no event to come. -/
def keepsPending {H : Type} (io : Io H) : IoStep H → Prop
  | .register _ _ => ∀ idx ∈ io.chans.chposcache.head?, ∀ e ∈ io.pending, e.slot ≠ idx
  | _ => True

/-! ## Slots -/

namespace Channels
variable {H : Type} {c c' : Channels H}

def handlerAt (c : Channels H) (x : ℕ) : Option H := (c.chdq[x]?).bind CompletionHandlerStub.pch

/-- Handlers and slots know each other; the slots that are given back are free. -/
structure Wf (c : Channels H) : Prop where
  slot : ∀ (h : H) (x : ℕ), c.idxreactor h = some x ↔ c.handlerAt x = some h
  cache : ∀ x ∈ c.chposcache, x < c.chdq.length ∧ c.handlerAt x = none
  nodup : c.chposcache.Nodup

variable {h : H}

theorem lt_of_handlerAt {x : ℕ} (hx : c.handlerAt x = some h) : x < c.chdq.length := by
  obtain ⟨stub, hstub, -⟩ := bind_eq_some_iff.1 hx
  exact (List.getElem?_eq_some_iff.1 hstub).1

section
variable [DecidableEq H]

theorem Wf.start (eventhandler : H) : Wf (start eventhandler) where
  slot := by
    intro h x
    show update (fun _ => none) eventhandler (some 1) h = some x ↔ _
    rcases eq_or_ne h eventhandler with rfl | hne
    · rw [update_self]
      match x with
      | 0 => simp [handlerAt, Channels.start]
      | 1 => simp [handlerAt, Channels.start]
      | x + 2 => simp [handlerAt, Channels.start]
    · rw [update_of_ne hne]
      match x with
      | 0 => simp [handlerAt, Channels.start]
      | 1 => simp [handlerAt, Channels.start, hne.symm]
      | x + 2 => simp [handlerAt, Channels.start]
  cache := fun x hx => absurd hx not_mem_nil
  nodup := nodup_nil

/-- A registration puts the handler in a slot that was free: the one on top of the stack, or
    a new one. -/
theorem registerCompletionHandler_eq (hc : Wf c) {objidx : ℕ}
    (hreg : c.registerCompletionHandler h objidx = some c') :
    c.idxreactor h = none ∧ ∃ idx : ℕ, c.handlerAt idx = none ∧
      (c.chposcache.head? = some idx ∨ idx = c.chdq.length) ∧
      c.chposcache.tail = c'.chposcache ∧ c.chdq.length ≤ c'.chdq.length ∧
      c'.idxreactor = update c.idxreactor h (some idx) ∧
      c'.handlerAt = update c.handlerAt idx (some h) := by
  unfold registerCompletionHandler at hreg
  split_ifs at hreg with hnone
  refine ⟨by simpa using hnone, ?_⟩
  split at hreg
  next idx rest hcache =>
    obtain ⟨stub, hstub, rfl⟩ := map_eq_some_iff.1 hreg
    obtain ⟨hlt, hfree⟩ := hc.cache idx (by rw [hcache]; exact mem_cons_self)
    refine ⟨idx, hfree, .inl (by rw [hcache]; rfl), by rw [hcache]; rfl,
      Nat.le_of_eq length_set.symm, rfl, ?_⟩
    funext x
    rcases eq_or_ne x idx with rfl | hne
    · rw [update_self, handlerAt, getElem?_set_self hlt]
      rfl
    · rw [update_of_ne hne, handlerAt, getElem?_set_ne hne.symm]
      rfl
  next hcache =>
    cases hreg
    have hnew : c.handlerAt c.chdq.length = none := by
      rw [handlerAt, getElem?_eq_none (Nat.le_refl _)]
      rfl
    refine ⟨_, hnew, .inr rfl, by rw [hcache]; rfl, by simp, rfl, ?_⟩
    funext x
    rcases Nat.lt_trichotomy x c.chdq.length with hlt | rfl | hgt
    · rw [update_of_ne (Nat.ne_of_lt hlt), handlerAt, getElem?_append_left hlt]
      rfl
    · rw [update_self, handlerAt, getElem?_concat_length]
      rfl
    · rw [update_of_ne (Nat.ne_of_gt hgt), handlerAt, handlerAt,
        getElem?_eq_none (Nat.le_of_lt hgt), getElem?_eq_none]
      simp only [length_append, length_singleton]
      omega

theorem unregisterCompletionHandler_eq (hunreg : c.unregisterCompletionHandler h = some c') :
    ∃ idx : ℕ, c.idxreactor h = some idx ∧ c'.chposcache = idx :: c.chposcache ∧
      c'.chdq.length = c.chdq.length ∧ c'.idxreactor = Function.update c.idxreactor h none ∧
      c'.handlerAt = Function.update c.handlerAt idx none := by
  unfold unregisterCompletionHandler at hunreg
  obtain ⟨idx, hidx, hunreg⟩ := bind_eq_some_iff.1 hunreg
  obtain ⟨stub, hstub, hunreg⟩ := bind_eq_some_iff.1 hunreg
  cases hunreg
  have hlt := (List.getElem?_eq_some_iff.1 hstub).1
  refine ⟨idx, hidx, rfl, List.length_set, rfl, ?_⟩
  funext x
  rcases eq_or_ne x idx with rfl | hne
  · rw [Function.update_self, handlerAt, List.getElem?_set_self hlt]
    rfl
  · rw [Function.update_of_ne hne, handlerAt, List.getElem?_set_ne hne.symm]
    rfl

theorem Wf.register (hc : Wf c) {objidx : ℕ}
    (hreg : c.registerCompletionHandler h objidx = some c') : Wf c' := by
  obtain ⟨hnone, idx, hfree, htop, htail, hlen, hidx, hat⟩ := registerCompletionHandler_eq hc hreg
  refine ⟨?_, ?_, ?_⟩
  · intro h' x
    rw [hidx, hat]
    rcases eq_or_ne h' h with rfl | hne
    · rw [update_self]
      rcases eq_or_ne x idx with rfl | hx
      · simp
      · rw [update_of_ne hx, ← hc.slot, hnone]
        simp [hx.symm]
    · rw [update_of_ne hne]
      rcases eq_or_ne x idx with rfl | hx
      · rw [update_self, hc.slot, hfree]
        simp [hne.symm]
      · rw [update_of_ne hx, hc.slot]
  · intro x hx
    rw [← htail] at hx
    obtain ⟨hlt, hempty⟩ := hc.cache x (mem_of_mem_tail hx)
    refine ⟨Nat.lt_of_lt_of_le hlt hlen, ?_⟩
    rw [hat, update_of_ne]
    · exact hempty
    · rintro rfl
      rcases htop with htop | rfl
      · obtain ⟨rest, hrest⟩ := head?_eq_some_iff.1 htop
        have hnodup := hc.nodup
        rw [hrest] at hnodup hx
        exact (nodup_cons.1 hnodup).1 hx
      · exact Nat.lt_irrefl _ hlt
  · rw [← htail]
    exact hc.nodup.sublist (tail_sublist _)

theorem Wf.unregister (hc : Wf c) (hunreg : c.unregisterCompletionHandler h = some c') : Wf c' := by
  obtain ⟨idx, hsome, hcache, hlen, hidx, hat⟩ := unregisterCompletionHandler_eq hunreg
  have hself := (hc.slot h idx).1 hsome
  refine ⟨?_, ?_, ?_⟩
  · intro h' x
    rw [hidx, hat]
    rcases eq_or_ne h' h with rfl | hne
    · rw [update_self]
      rcases eq_or_ne x idx with rfl | hx
      · simp
      · rw [update_of_ne hx, ← hc.slot, hsome]
        simp [hx.symm]
    · rw [update_of_ne hne]
      rcases eq_or_ne x idx with rfl | hx
      · rw [update_self, hc.slot, hself]
        simp [hne.symm]
      · rw [update_of_ne hx, hc.slot]
  · intro x hx
    rw [hlen, hat]
    rw [hcache] at hx
    rcases eq_or_ne x idx with rfl | hne
    · exact ⟨lt_of_handlerAt hself, update_self _ _ _⟩
    · rw [update_of_ne hne]
      exact hc.cache x ((mem_cons.1 hx).resolve_left hne)
  · rw [hcache]
    refine nodup_cons.2 ⟨?_, hc.nodup⟩
    intro hmem
    rw [(hc.cache idx hmem).2] at hself
    cases hself

theorem Reachable.wf (h : Reachable c) : Wf c := by
  induction h with
  | start eventhandler => exact .start eventhandler
  | register _ _ _ hreg ih => exact ih.register hreg
  | unregister _ _ hunreg ih => exact ih.unregister hunreg

/-- **No two handlers have one slot, and no access is outside `chdq`**: a handler without a slot
    can be registered, and one that has a slot can be unregistered. -/
theorem slots_exclusive (hc : c.Reachable) (x : H) (objidx : ℕ) :
    (∀ h h' i, c.idxreactor h = some i → c.idxreactor h' = some i → h = h') ∧
      c.chposcache.Nodup ∧ (∀ i ∈ c.chposcache, ∀ h, c.idxreactor h ≠ some i) ∧
      ((c.registerCompletionHandler x objidx).isSome ↔ c.idxreactor x = none) ∧
      ((c.unregisterCompletionHandler x).isSome ↔ c.idxreactor x ≠ none) := by
  have hwf := hc.wf
  refine ⟨fun h h' i hi hi' => ?_, hwf.nodup, fun i hi h hat => ?_, ?_, ?_⟩
  · rw [hwf.slot] at hi hi'
    exact some.inj (hi.symm.trans hi')
  · rw [hwf.slot, (hwf.cache i hi).2] at hat
    cases hat
  · unfold registerCompletionHandler
    cases hidx : c.idxreactor x with
    | some i => simp
    | none =>
      cases hcache : c.chposcache with
      | nil => simp
      | cons i rest =>
        have hlt := (hwf.cache i (by simp [hcache])).1
        simp [hlt]
  · unfold unregisterCompletionHandler
    cases hidx : c.idxreactor x with
    | none => simp
    | some i =>
      have hlt := lt_of_handlerAt ((hwf.slot x i).1 hidx)
      simp [hlt]

end

end Channels

/-! ## Events of a batch -/

section Batch
variable {H : Type} [DecidableEq H] {c : Channels H} {evs : List (IoEvent H)}
  {tr : List (IoStep H × IoOutcome H)} {io io' : Io H}

/-- The slots of the events to come have the handlers they had at the poll, or none. -/
structure Awaited (tr : List (IoStep H × IoOutcome H)) (io : Io H) : Prop where
  wf : io.chans.Wf
  slot : ∀ e ∈ io.pending, e.slot < io.chans.chdq.length ∧
    (io.chans.handlerAt e.slot = some e.source ∨
      io.chans.handlerAt e.slot = none ∧ (.unregister e.source, .changed) ∈ tr)

theorem Awaited.step (h : Awaited tr io) {a : IoStep H} {out : IoOutcome H}
    (hok : keepsPending io a) (hstep : io.step a = some (io', out)) :
    Awaited ((a, out) :: tr) io' := by
  cases a with
  | handle =>
    rw [Io.step] at hstep
    split at hstep
    · cases hstep
    next e rest hpending =>
      obtain ⟨stub, -, heq⟩ := map_eq_some_iff.1 hstep
      cases heq
      refine ⟨h.wf, ?_⟩
      intro e' he'
      obtain ⟨hlt, hat⟩ := h.slot e' (by rw [hpending]; exact mem_cons_of_mem e he')
      exact ⟨hlt, hat.imp_right fun hgone => ⟨hgone.1, mem_cons_of_mem _ hgone.2⟩⟩
  | register x objidx =>
    obtain ⟨c', hreg, heq⟩ := map_eq_some_iff.1 hstep
    cases heq
    obtain ⟨-, idx, -, htop, -, hlen, -, hat⟩ := Channels.registerCompletionHandler_eq h.wf hreg
    refine ⟨h.wf.register hreg, ?_⟩
    intro e he
    obtain ⟨hlt, hslot⟩ := h.slot e he
    have hne : e.slot ≠ idx := by
      rcases htop with htop | rfl
      · exact hok idx htop e he
      · exact Nat.ne_of_lt hlt
    refine ⟨Nat.lt_of_lt_of_le hlt hlen, ?_⟩
    show c'.handlerAt e.slot = _ ∨ c'.handlerAt e.slot = _ ∧ _
    rw [hat, update_of_ne hne]
    exact hslot.imp_right fun hgone => ⟨hgone.1, mem_cons_of_mem _ hgone.2⟩
  | unregister x =>
    obtain ⟨c', hunreg, heq⟩ := map_eq_some_iff.1 hstep
    cases heq
    obtain ⟨idx, hsome, -, hlen, -, hat⟩ := Channels.unregisterCompletionHandler_eq hunreg
    refine ⟨h.wf.unregister hunreg, ?_⟩
    intro e he
    obtain ⟨hlt, hslot⟩ := h.slot e he
    refine ⟨hlen ▸ hlt, ?_⟩
    show c'.handlerAt e.slot = _ ∨ c'.handlerAt e.slot = _ ∧ _
    rw [hat]
    rcases eq_or_ne e.slot idx with rfl | hne
    · -- the handler of the event leaves
      have hself := (h.wf.slot x e.slot).1 hsome
      rcases hslot with hslot | ⟨hslot, -⟩
      · rw [hself] at hslot
        cases hslot
        exact .inr ⟨update_self _ _ _, mem_cons_self⟩
      · rw [hself] at hslot
        cases hslot
    · rw [update_of_ne hne]
      exact hslot.imp_right fun hgone => ⟨hgone.1, mem_cons_of_mem _ hgone.2⟩

theorem Awaited.of_handles (hc : c.Reachable) (hpoll : Polled c evs)
    (h : Handles keepsPending c evs tr io) : Awaited tr io := by
  induction h with
  | start =>
    refine ⟨hc.wf, ?_⟩
    intro e he
    have hat := (hc.wf.slot e.source e.slot).1 (hpoll e he)
    exact ⟨Channels.lt_of_handlerAt hat, .inl hat⟩
  | step _ a hok hstep ih => exact ih.step hok hstep

/-- **Events are not misdelivered.**  While a batch is handled, with any behaviour of the
    handlers in which registrations take no slot of an event to come, each event is delivered
    to the handler whose device has it, or dropped if that handler was unregistered since the
    poll. -/
theorem io_delivered (hc : c.Reachable) (hpoll : Polled c evs)
    (h : Handles keepsPending c evs tr io) : Delivers tr io := by
  intro e rest hpending
  obtain ⟨hlt, hslot⟩ := (Awaited.of_handles hc hpoll h).slot e
    (by rw [hpending]; exact mem_cons_self)
  have hat : io.chans.handlerAt e.slot = (io.chans.chdq[e.slot]).pch := by
    rw [Channels.handlerAt, getElem?_eq_getElem hlt]
    rfl
  rw [hat] at hslot
  refine ⟨{ io with pending := rest }, _, ?_, hslot⟩
  rw [Io.step, hpending]
  simp [getElem?_eq_getElem hlt]

end Batch

def twoHandlers : Channels ℕ :=
  (((Channels.start 0).registerCompletionHandler 1 1).bind
    (·.registerCompletionHandler 2 1)).getD (.start 0)

theorem twoHandlers_reachable : twoHandlers.Reachable :=
  .register (.register (.start 0) 1 1 rfl) 2 1 rfl

/-- The first handler leaves and a third one takes its slot. -/
theorem Channels.slots_exclusive_reused :
    ∃ c : Channels ℕ, c.Reachable ∧ twoHandlers.idxreactor 1 = some 2 ∧
      [1, 2, 3].map c.idxreactor = [none, some 3, some 2] ∧
      (c.registerCompletionHandler 1 1).isSome ∧ (c.unregisterCompletionHandler 3).isSome ∧
      ¬ (c.registerCompletionHandler 2 1).isSome := by
  have hleave := twoHandlers_reachable.unregister 1 rfl
  have hc := hleave.register 3 1 rfl
  refine ⟨_, hc, rfl, rfl, ?_, ?_, ?_⟩
  · exact (slots_exclusive hc 1 1).2.2.2.1.2 rfl
  · exact (slots_exclusive hc 3 1).2.2.2.2.2 (by decide)
  · exact fun hsome => absurd ((slots_exclusive hc 2 1).2.2.2.1.1 hsome) (by decide)

theorem twoHandlers_polled : Polled twoHandlers [⟨1, 2⟩, ⟨0, 1⟩, ⟨2, 3⟩] := by
  intro e he
  simp only [mem_cons, not_mem_nil, or_false] at he
  rcases he with rfl | rfl | rfl <;> rfl

/-- The first handler stops its object, and the event of the second one is dropped. -/
theorem io_delivered_dropped :
    ∃ (tr : List (IoStep ℕ × IoOutcome ℕ)) (io io' : Io ℕ),
      Handles keepsPending twoHandlers [⟨1, 2⟩, ⟨0, 1⟩, ⟨2, 3⟩] tr io ∧
      io.step .handle = some (io', .delivered ⟨2, 3⟩ none) ∧ Delivers tr io := by
  have hstart : Handles keepsPending twoHandlers [⟨1, 2⟩, ⟨0, 1⟩, ⟨2, 3⟩] [] _ := .start
  have hfirst := hstart.step .handle trivial rfl
  have hleave := (hfirst.step (.unregister 1) trivial rfl).step (.unregister 2) trivial rfl
  have hevent := hleave.step .handle trivial rfl
  exact ⟨_, _, _, hevent, rfl, io_delivered twoHandlers_reachable twoHandlers_polled hevent⟩

/-- The first handler stops its object, the event handler registers the handler of a new
    object, and the event of the second handler is delivered to that one. -/
theorem io_misdelivered :
    twoHandlers.Reachable ∧ Polled twoHandlers [⟨1, 2⟩, ⟨0, 1⟩, ⟨2, 3⟩] ∧
    ∃ (tr : List (IoStep ℕ × IoOutcome ℕ)) (io io' : Io ℕ),
      Handles (fun _ _ => True) twoHandlers [⟨1, 2⟩, ⟨0, 1⟩, ⟨2, 3⟩] tr io ∧
      io.step .handle = some (io', .delivered ⟨2, 3⟩ (some 9)) ∧ ¬ Delivers tr io := by
  have hstart : Handles (fun _ _ => True) twoHandlers [⟨1, 2⟩, ⟨0, 1⟩, ⟨2, 3⟩] [] _ := .start
  have hfirst := hstart.step .handle trivial rfl
  have hleave := (hfirst.step (.unregister 1) trivial rfl).step (.unregister 2) trivial rfl
  have hnew := (hleave.step .handle trivial rfl).step (.register 9 2) trivial rfl
  refine ⟨twoHandlers_reachable, twoHandlers_polled, _, _, _, hnew, rfl, ?_⟩
  intro h
  obtain ⟨io', pch, hstep, hpch⟩ := h ⟨2, 3⟩ [] rfl
  cases hstep
  rcases hpch with hpch | ⟨hpch, -⟩
  · cases hpch
  · cases hpch

end SolidFrame.Aio
