/-
  SolidFrame formalization — the order of events and stops in an aio reactor
  (solid/frame/aio/src/aioreactor.cpp).

  The events of a reactor are spread over its vectors and its queue.  `line` puts them in
  one list, in the order in which they will be executed; a fetch leaves it unchanged.
-/
import Mathlib.Data.List.Nodup
import Mathlib.Data.List.Pairwise
import SolidFrame.Frame.AioReactor

namespace SolidFrame.Aio

open Function List

variable {O E : Type}

/-! ## The line -/

def NewTaskStub.entry (t : NewTaskStub O E) : ExecStub E := ⟨t.uid, .callObjectOnEvent t.event⟩

def RaiseEventStub.entry (r : RaiseEventStub E) : ExecStub E := ⟨r.uid, .callObjectOnEvent r.event⟩

namespace ExecStub

def event? (x : ExecStub E) : Option E :=
  match x.exefnc with
  | .callObjectOnEvent e => some e
  | _ => none

def Halts (x : ExecStub E) : Prop := x.exefnc = .stopObjectRepost ∨ x.exefnc = .stopObject

/-- An object is stopped once. -/
def Once (x y : ExecStub E) : Prop := x.Halts → y.Halts → x.objuid ≠ y.objuid

/-- Behind the stop of an object there is no event for it. -/
def Last (x y : ExecStub E) : Prop :=
  x.exefnc = .stopObject → y.event? ≠ none → x.objuid ≠ y.objuid

end ExecStub

@[simp] theorem NewTaskStub.entry_objuid (t : NewTaskStub O E) : t.entry.objuid = t.uid := rfl

@[simp] theorem RaiseEventStub.entry_objuid (r : RaiseEventStub E) : r.entry.objuid = r.uid := rfl

@[simp] theorem NewTaskStub.entry_not_halts (t : NewTaskStub O E) : ¬ t.entry.Halts := by
  simp [ExecStub.Halts, entry]

@[simp] theorem RaiseEventStub.entry_not_halts (r : RaiseEventStub E) : ¬ r.entry.Halts := by
  simp [ExecStub.Halts, entry]

@[simp] theorem NewTaskStub.event?_entry (t : NewTaskStub O E) : t.entry.event? = some t.event :=
  rfl

@[simp] theorem RaiseEventStub.event?_entry (r : RaiseEventStub E) :
    r.entry.event? = some r.event :=
  rfl

def eventsFor (u : UniqueId) (q : List (ExecStub E)) : List E :=
  (q.filter (·.objuid = u)).filterMap ExecStub.event?

theorem eventsFor_append (u : UniqueId) (q q' : List (ExecStub E)) :
    eventsFor u (q ++ q') = eventsFor u q ++ eventsFor u q' := by
  simp [eventsFor]

theorem eventsFor_cons (u : UniqueId) (x : ExecStub E) (q : List (ExecStub E)) :
    eventsFor u (x :: q) = (if x.objuid = u then x.event?.toList else []) ++ eventsFor u q := by
  unfold eventsFor
  by_cases hu : x.objuid = u
  · cases he : x.event? <;> simp [hu, he]
  · simp [hu]

theorem eventsFor_eq_nil {u : UniqueId} {q : List (ExecStub E)}
    (h : ∀ x ∈ q, x.event? ≠ none → x.objuid ≠ u) : eventsFor u q = [] := by
  simp only [eventsFor, filterMap_eq_nil_iff, mem_filter, decide_eq_true_eq]
  rintro x ⟨hx, hu⟩
  by_contra hne
  exact h x hx hne hu

namespace Reactor

/-- The objects that have been pushed and not been given their slot yet. -/
def tasks (s : Reactor O E) : List (NewTaskStub O E) := s.fetchedtsks ++ s.pushtskvec

def unfetched (s : Reactor O E) : List (ExecStub E) :=
  s.pushtskvec.map (·.entry) ++ s.raisevec.map (·.entry)

/-- What waits to be queued, in the order in which it will be. -/
def waiting (s : Reactor O E) : List (ExecStub E) :=
  s.fetchedtsks.map (·.entry) ++ s.fetchedevents.map (·.entry) ++ s.unfetched

/-- All entries of the reactor, in the order in which they will be executed. -/
def line (s : Reactor O E) : List (ExecStub E) := s.due ++ s.exeq ++ s.waiting

def Active (s : Reactor O E) (u : UniqueId) (o : O) : Prop := s.objdq u.index = ⟨u.unique, some o⟩

/-- The object `o` is in its slot or waits in `ts` for it. -/
def AliveIn (s : Reactor O E) (ts : List (NewTaskStub O E)) (u : UniqueId) (o : O) : Prop :=
  (∃ t ∈ ts, t.uid = u ∧ t.objptr = o) ∨ s.Active u o

def Alive (s : Reactor O E) (u : UniqueId) (o : O) : Prop := s.AliveIn s.tasks u o

/-- The ids that belong to no object in a slot. -/
def spare (s : Reactor O E) : List UniqueId := s.tasks.map (·.uid) ++ (s.uidstk ++ s.freeuidvec)

/-! ## The invariant -/

structure Slots (s : Reactor O E) : Prop where
  nodup : (s.spare.map (·.index)).Nodup
  spare_slot : ∀ u ∈ s.spare, u.index < s.crtidx ∧ s.objdq u.index = ⟨u.unique, none⟩
  fresh : ∀ i, s.crtidx ≤ i → s.objdq i = ⟨0, none⟩
  task_run : ∀ t ∈ s.tasks, s.runId t.objptr = some t.uid ∧ s.visits t.objptr = true
  active_run : ∀ u o, s.Active u o → s.runId o = some u
  visited : ∀ u o, s.runId o = some u → s.visits o = true → s.Alive u o

structure Ordered (s : Reactor O E) : Prop where
  queued : ∀ x ∈ s.due ++ s.exeq, x.exefnc ≠ .posted → ∃ o, s.Active x.objuid o
  fetched : ∀ r ∈ s.fetchedevents, ∃ o, s.AliveIn s.fetchedtsks r.uid o
  raised : ∀ r ∈ s.raisevec, ∃ o, s.Alive r.uid o
  halted : ∀ x ∈ s.due ++ s.exeq, x.Halts → ∀ o, s.Active x.objuid o → s.visits o = false
  once : s.line.Pairwise ExecStub.Once
  last : s.line.Pairwise ExecStub.Last
  repost_due : ∀ x ∈ s.due, x.exefnc = .stopObjectRepost → ∀ r ∈ s.raisevec, r.uid ≠ x.objuid
  repost_fetched : s.phase ≠ .io → s.phase ≠ .exec → s.phase ≠ .running →
    ∀ x ∈ s.exeq, x.exefnc = .stopObjectRepost → ∀ r ∈ s.raisevec, r.uid ≠ x.objuid

structure Phases (s : Reactor O E) : Prop where
  loaded : (∀ b, s.phase ≠ .loading b) → s.fetchedtsks = [] ∧ s.fetchedevents = []
  idle : s.phase ≠ .exec → s.phase ≠ .running → s.due = []
  posted : s.phase = .exec ∨ s.phase = .running → ∀ x ∈ s.exeq, x.event? = none
  running : s.phase = .running → s.due ≠ []

structure Sound (s : Reactor O E) : Prop extends Slots s, Ordered s, Phases s

/-- From `s` to `s'` nothing is raised or executed and no object comes or goes. -/
structure Keeps (s s' : Reactor O E) : Prop where
  events : ∀ u, eventsFor u s'.line = eventsFor u s.line
  alive : ∀ u o, s'.Alive u o ↔ s.Alive u o
  runId : s'.runId = s.runId
  unfetched : s'.unfetched = s.unfetched ∨ s'.unfetched = []

theorem Keeps.refl (s : Reactor O E) : Keeps s s where
  events _ := rfl
  alive _ _ := Iff.rfl
  runId := rfl
  unfetched := Or.inl rfl

theorem Keeps.trans {s s1 s2 : Reactor O E} (h : Keeps s s1) (h' : Keeps s1 s2) : Keeps s s2 where
  events u := (h'.events u).trans (h.events u)
  alive u o := (h'.alive u o).trans (h.alive u o)
  runId := h'.runId.trans h.runId
  unfetched := by
    rcases h'.unfetched with hu | hu
    · rw [hu]
      exact h.unfetched
    · exact Or.inr hu

/-! ## Objects and their ids -/

variable {ts' : List (NewTaskStub O E)}

section
variable {s s' : Reactor O E} {u v : UniqueId} {o p : O}

theorem Active.alive (h : s.Active u o) : s.Alive u o := Or.inr h

theorem AliveIn.of_subset {ts : List (NewTaskStub O E)} (hsub : ts ⊆ ts')
    (h : s.AliveIn ts u o) : s.AliveIn ts' u o := by
  rcases h with ⟨t, ht, hu⟩ | h
  · exact Or.inl ⟨t, hsub ht, hu⟩
  · exact Or.inr h

theorem mem_spare_of_task {t : NewTaskStub O E} (ht : t ∈ s.tasks) : t.uid ∈ s.spare :=
  mem_append_left _ (mem_map_of_mem ht)

namespace Slots

variable (h : Slots s)
include h

theorem alive_run (hu : s.Alive u o) : s.runId o = some u := by
  rcases hu with ⟨t, ht, rfl, rfl⟩ | hu
  · exact (h.task_run t ht).1
  · exact h.active_run u o hu

theorem spare_ne_active (hv : v ∈ s.spare) (hu : s.Active u o) : v.index ≠ u.index := by
  intro hi
  have hslot := (h.spare_slot v hv).2
  rw [hi, hu] at hslot
  cases congrArg ObjectStub.objptr hslot

theorem spare_inj (hu : u ∈ s.spare) (hv : v ∈ s.spare) (hi : u.index = v.index) : u = v :=
  inj_on_of_nodup_map h.nodup hu hv hi

/-- **An index belongs to one object at a time.** -/
theorem alive_inj (hu : s.Alive u o) (hv : s.Alive v p) (hi : u.index = v.index) :
    u = v ∧ o = p := by
  rcases hu with ⟨t, ht, rfl, rfl⟩ | hu <;> rcases hv with ⟨t', ht', rfl, rfl⟩ | hv
  · have huid := h.spare_inj (mem_spare_of_task ht) (mem_spare_of_task ht') hi
    have hnodup : (s.tasks.map (·.uid)).Nodup := (nodup_append.1 h.nodup.of_map).1
    have ht_eq := inj_on_of_nodup_map hnodup ht ht' huid
    exact ⟨huid, by rw [ht_eq]⟩
  · exact absurd hi (h.spare_ne_active (mem_spare_of_task ht) hv)
  · exact absurd hi.symm (h.spare_ne_active (mem_spare_of_task ht') hu)
  · have hslot : s.objdq u.index = ⟨v.unique, some p⟩ := by rw [hi]; exact hv
    rw [hu, ObjectStub.mk.injEq, Option.some.injEq] at hslot
    rcases u with ⟨i, w⟩
    rcases v with ⟨j, w'⟩
    exact ⟨by simpa using ⟨hi, hslot.1⟩, hslot.2⟩

end Slots

/-! ## Entries and their objects -/

variable {x : ExecStub E}

theorem mem_line : x ∈ s.line ↔ x ∈ s.due ++ s.exeq ∨ x ∈ s.waiting := mem_append

theorem mem_waiting : x ∈ s.waiting ↔ (∃ t ∈ s.tasks, t.entry = x) ∨
      ∃ r ∈ s.fetchedevents ++ s.raisevec, r.entry = x := by
  simp only [waiting, unfetched, tasks, mem_append, mem_map]
  grind

theorem not_halts_of_waiting (hx : x ∈ s.waiting) : ¬ x.Halts := by
  rcases mem_waiting.1 hx with ⟨t, -, rfl⟩ | ⟨r, -, rfl⟩ <;> simp

theorem Ordered.line_alive (h : Ordered s) (hx : x ∈ s.line)
    (hf : x.exefnc ≠ .posted) : ∃ o, s.Alive x.objuid o := by
  rcases mem_line.1 hx with hx | hx
  · obtain ⟨o, ho⟩ := h.queued x hx hf
    exact ⟨o, ho.alive⟩
  rcases mem_waiting.1 hx with ⟨t, ht, rfl⟩ | ⟨r, hr, rfl⟩
  · exact ⟨t.objptr, Or.inl ⟨t, ht, rfl, rfl⟩⟩
  · rcases mem_append.1 hr with hr | hr
    · obtain ⟨o, ho⟩ := h.fetched r hr
      exact ⟨o, ho.of_subset (subset_append_left _ _)⟩
    · exact h.raised r hr

/-- While the visits of an object are enabled, no entry of the queue stops it. -/
theorem Sound.halts_ne (h : Sound s) (hx : x ∈ s.due ++ s.exeq) (hh : x.Halts)
    (hrun : s.runId o = some u) (hvis : s.visits o) : u ≠ x.objuid := by
  rintro rfl
  have hf : x.exefnc ≠ .posted := by rcases hh with hf | hf <;> simp [hf]
  obtain ⟨p, hp⟩ := h.queued x hx hf
  obtain ⟨-, rfl⟩ := h.alive_inj (h.visited _ _ hrun hvis) hp.alive rfl
  rw [h.halted x hx hh o hp] at hvis
  cases hvis

end

theorem pairwise_insert {α : Type} {R : α → α → Prop} {l1 l2 : List α} {x : α}
    (h : (l1 ++ l2).Pairwise R) (h1 : ∀ a ∈ l1, R a x) (h2 : ∀ b ∈ l2, R x b) :
    (l1 ++ x :: l2).Pairwise R := by
  obtain ⟨hl1, hl2, hcross⟩ := pairwise_append.1 h
  refine pairwise_append.2 ⟨hl1, pairwise_cons.2 ⟨h2, hl2⟩, ?_⟩
  intro a ha b hb
  rcases mem_cons.1 hb with rfl | hb
  · exact h1 a ha
  · exact hcross a ha b hb

/-! ## Changes of the queue

The actions of the reactor put an entry behind the queue, drop its first entry, and disable
visits; each of these keeps the invariant. -/

namespace Sound

variable {s : Reactor O E} {u : UniqueId} {o : O}

theorem start : Sound (start : Reactor O E) where
  nodup := nodup_nil
  spare_slot := nofun
  fresh _ _ := rfl
  task_run := nofun
  active_run := nofun
  visited := nofun
  queued := nofun
  fetched := nofun
  raised := nofun
  halted := nofun
  once := List.Pairwise.nil
  last := List.Pairwise.nil
  repost_due := nofun
  repost_fetched h := absurd rfl h
  loaded _ := ⟨rfl, rfl⟩
  idle _ _ := rfl
  posted _ := nofun
  running := nofun

theorem disableVisits [DecidableEq O] (h : Sound s) (hu : s.Active u o) :
    Sound { s with visits := update s.visits o false } :=
  { h with
    task_run := by
      intro t ht
      obtain ⟨hrun, hvis⟩ := h.task_run t ht
      refine ⟨hrun, ?_⟩
      -- the object in the slot is not one that waits for its slot
      have hne : t.objptr ≠ o := by
        rintro rfl
        have huid : t.uid = u := Option.some.inj (hrun.symm.trans (h.active_run u _ hu))
        exact h.spare_ne_active (mem_spare_of_task ht) hu (congrArg UniqueId.index huid)
      simpa [update_of_ne hne] using hvis
    visited := by
      intro v p hrun hvis
      by_cases hp : p = o
      · simp [hp] at hvis
      · simp only [update_of_ne hp] at hvis
        exact h.visited v p hrun hvis
    halted := by
      intro x hx hh p hp
      by_cases hpo : p = o
      · simp [hpo]
      · simpa [update_of_ne hpo] using h.halted x hx hh p hp }

theorem line_pushExec (s : Reactor O E) (i : ℕ) (f : EventFunction E) :
    (s.pushExec i f).line = s.due ++ s.exeq ++ ⟨s.objectUid i, f⟩ :: s.waiting := by
  simp [line, pushExec, waiting, unfetched]

variable {s' : Reactor O E} {x : ExecStub E} {b : Bool}
variable {v : UniqueId} {i : ℕ} {xs : List (ExecStub E)} {p : O}

theorem pushExec_keeps {f : EventFunction E}
    (hev : (⟨s.objectUid i, f⟩ : ExecStub E).event? = none) : Keeps s (s.pushExec i f) where
  events u := by
    rw [line_pushExec, line, eventsFor_append, eventsFor_cons, hev, eventsFor_append u (_ ++ _)]
    simp
  alive _ _ := Iff.rfl
  runId := rfl
  unfetched := Or.inl rfl

/-- Between two fetches an entry that is no event may be queued, if the object is there,
    and if a stop is the only one and has no event of the object behind it. -/
theorem pushExec (h : Sound s) {f : EventFunction E}
    (hphase : s.phase = .io ∨ s.phase = .exec ∨ s.phase = .running)
    (hev : (⟨s.objectUid i, f⟩ : ExecStub E).event? = none)
    (hactive : f ≠ .posted → ∃ o, s.Active (s.objectUid i) o ∧ s.visits o = false)
    (honce : f ≠ .posted → ∀ x ∈ s.due ++ s.exeq, x.Halts → x.objuid ≠ s.objectUid i)
    (hlast : f = .stopObject → ∀ x ∈ s.waiting, x.objuid ≠ s.objectUid i) :
    Sound (s.pushExec i f) := by
  have hposted : (⟨s.objectUid i, f⟩ : ExecStub E).Halts → f ≠ .posted := by
    rintro (hf | hf) rfl <;> cases hf
  have hmem : ∀ x ∈ (s.pushExec i f).due ++ (s.pushExec i f).exeq,
      x ∈ s.due ++ s.exeq ∨ x = ⟨s.objectUid i, f⟩ := by
    intro x hx
    simpa [Reactor.pushExec, or_assoc] using hx
  exact
  { h with
    queued := by
      intro x hx hf
      rcases hmem x hx with hx | rfl
      · exact h.queued x hx hf
      · obtain ⟨o, ho, -⟩ := hactive hf
        exact ⟨o, ho⟩
    halted := by
      intro x hx hh p hp
      rcases hmem x hx with hx | rfl
      · exact h.halted x hx hh p hp
      · obtain ⟨o, ho, hvis⟩ := hactive (hposted hh)
        obtain ⟨-, rfl⟩ := h.alive_inj ho.alive (Active.alive hp) rfl
        exact hvis
    once := by
      rw [line_pushExec]
      refine pairwise_insert h.once ?_ ?_
      · intro x hx hh hh'
        exact honce (hposted hh') x hx hh
      · intro x hx _ hh
        exact absurd hh (not_halts_of_waiting hx)
    last := by
      rw [line_pushExec]
      refine pairwise_insert h.last ?_ ?_
      · intro x _ _ hne
        exact absurd hev hne
      · intro x hx hf _
        exact (hlast hf x hx).symm
    repost_fetched := by
      intro hio hexec hrunning
      rcases hphase with hp | hp | hp
      · exact absurd hp hio
      · exact absurd hp hexec
      · exact absurd hp hrunning
    posted := by
      intro hp x hx
      rcases mem_append.1 hx with hx | hx
      · exact h.posted hp x hx
      · rw [mem_singleton.1 hx, hev] }

/-- The entry that was executed or skipped is dropped. -/
def popped (s : Reactor O E) (xs : List (ExecStub E)) : Reactor O E :=
  { s with due := xs, phase := .exec }

theorem line_cons (hdue : s.due = x :: xs) :
    s.line = x :: (popped s xs).line := by
  simp [line, waiting, unfetched, popped, hdue]

theorem pop (h : Sound s) (hdue : s.due = x :: xs)
    (hphase : s.phase = .exec ∨ s.phase = .running) : Sound (popped s xs) := by
  have hload : ∀ b, s.phase ≠ .loading b := by
    rcases hphase with hp | hp <;> simp [hp]
  have hmem : ∀ y ∈ xs ++ s.exeq, y ∈ s.due ++ s.exeq := by
    intro y hy
    rw [hdue]
    exact mem_cons_of_mem x hy
  exact
  { h with
    queued := fun y hy => h.queued y (hmem y hy)
    halted := fun y hy => h.halted y (hmem y hy)
    once := (pairwise_cons.1 (line_cons hdue ▸ h.once)).2
    last := (pairwise_cons.1 (line_cons hdue ▸ h.last)).2
    repost_due := fun y hy => h.repost_due y (by rw [hdue]; exact mem_cons_of_mem x hy)
    repost_fetched := fun _ hne => absurd rfl hne
    loaded := fun _ => h.loaded hload
    idle := fun hne => absurd rfl hne
    posted := fun _ => h.posted hphase
    running := nofun }

theorem pop_keeps (hdue : s.due = x :: xs)
    (hev : x.event? = none) : Keeps s (popped s xs) where
  events u := by
    rw [line_cons hdue, eventsFor_cons, hev]
    simp
  alive _ _ := Iff.rfl
  runId := rfl
  unfetched := Or.inl rfl

/-! ## The calls of other threads -/

theorem raise (h : Sound s) {e : E} (hexec : s.raise o e = some s') : Sound s' := by
  unfold Reactor.raise at hexec
  obtain ⟨u, hrun, hexec⟩ := Option.bind_eq_some_iff.1 hexec
  split_ifs at hexec with hvis
  cases hexec
  have hline : ({ s with raisevec := s.raisevec ++ [⟨u, e⟩] } : Reactor O E).line =
      s.line ++ [(⟨u, e⟩ : RaiseEventStub E).entry] := by
    simp [line, waiting, unfetched]
  -- a stop in the queue is for an object whose visits are disabled
  have hne : ∀ x ∈ s.due ++ s.exeq, x.exefnc = .stopObjectRepost →
      ∀ r ∈ s.raisevec ++ [⟨u, e⟩], (r ∈ s.raisevec → r.uid ≠ x.objuid) → r.uid ≠ x.objuid := by
    intro x hx hf r hr hold
    rcases mem_append.1 hr with hr | hr
    · exact hold hr
    · rw [mem_singleton.1 hr]
      exact h.halts_ne hx (Or.inl hf) hrun hvis
  exact
  { h with
    raised := by
      intro r hr
      rcases mem_append.1 hr with hr | hr
      · exact h.raised r hr
      · rw [mem_singleton.1 hr]
        exact ⟨o, h.visited u o hrun hvis⟩
    once := by
      rw [hline]
      refine pairwise_insert (by simpa using h.once) ?_ nofun
      intro x _ _ hh
      exact absurd hh (RaiseEventStub.entry_not_halts _)
    last := by
      rw [hline]
      refine pairwise_insert (by simpa using h.last) ?_ nofun
      intro x hx hf _
      rcases mem_line.1 hx with hx | hx
      · exact (h.halts_ne hx (Or.inr hf) hrun hvis).symm
      · exact absurd (Or.inr hf) (not_halts_of_waiting hx)
    repost_due := by
      intro x hx hf r hr
      exact hne x (mem_append_left _ hx) hf r hr (h.repost_due x hx hf r)
    repost_fetched := by
      intro hio hex hrunning x hx hf r hr
      exact hne x (mem_append_right _ hx) hf r hr (h.repost_fetched hio hex hrunning x hx hf r) }

/-- The id `u` is nobody's; `uids` and `n` are what `uidstk` and `crtidx` are without it. -/
structure Takes (s : Reactor O E) (u : UniqueId) (uids : List UniqueId) (n : ℕ) : Prop where
  nodup : ((u :: (s.tasks.map (·.uid) ++ (uids ++ s.freeuidvec))).map (·.index)).Nodup
  slot : ∀ v ∈ u :: (s.tasks.map (·.uid) ++ (uids ++ s.freeuidvec)),
    v.index < n ∧ s.objdq v.index = ⟨v.unique, none⟩
  fresh : ∀ i, n ≤ i → s.objdq i = ⟨0, none⟩

theorem popUid (h : Sound s) : ∃ uids n, s.popUid.2 = { s with uidstk := uids, crtidx := n } ∧
    Takes s s.popUid.1 uids n := by
  unfold Reactor.popUid
  rcases hstk : s.uidstk with _ | ⟨u, uids⟩
  · refine ⟨[], s.crtidx + 1, by simp, ?_, ?_, ?_⟩
    · have hspare : s.spare = s.tasks.map (·.uid) ++ ([] ++ s.freeuidvec) := by
        simp [spare, hstk]
      rw [map_cons, nodup_cons, ← hspare]
      refine ⟨?_, h.nodup⟩
      intro hmem
      obtain ⟨v, hv, hvi⟩ := mem_map.1 hmem
      have hlt := (h.spare_slot v hv).1
      simp only at hvi
      omega
    · intro v hv
      rcases mem_cons.1 hv with rfl | hv
      · exact ⟨Nat.lt_succ_self _, h.fresh _ (Nat.le_refl _)⟩
      · obtain ⟨hlt, hslot⟩ := h.spare_slot v (by simpa [spare, hstk] using hv)
        exact ⟨Nat.lt_succ_of_lt hlt, hslot⟩
    · intro i hi
      exact h.fresh i (by omega)
  · have hperm : s.spare.Perm (u :: (s.tasks.map (·.uid) ++ (uids ++ s.freeuidvec))) := by
      simp only [spare, hstk, cons_append]
      exact perm_middle
    refine ⟨uids, s.crtidx, rfl, ?_, ?_, h.fresh⟩
    · exact (hperm.map _).nodup_iff.1 h.nodup
    · intro v hv
      exact h.spare_slot v (hperm.mem_iff.2 hv)

theorem Takes.ne {uids : List UniqueId} {n : ℕ} (h : Takes s u uids n)
    (hv : s.Alive v o) : u ≠ v := by
  rintro rfl
  rcases hv with ⟨t, ht, rfl, rfl⟩ | hv
  · have hmem : t.uid ∈ s.tasks.map (·.uid) := mem_map_of_mem ht
    exact (nodup_cons.1 h.nodup).1 (mem_map_of_mem (mem_append_left _ hmem))
  · have hu := (h.slot u mem_cons_self).2
    rw [hv] at hu
    cases congrArg ObjectStub.objptr hu

section
variable [DecidableEq O]

/-- The state after a push: the object waits for the slot of the id `u`. -/
def pushed (s : Reactor O E) (t : NewTaskStub O E) (uids : List UniqueId) (n : ℕ) : Reactor O E :=
  { s with
    uidstk := uids
    crtidx := n
    pushtskvec := s.pushtskvec ++ [t]
    runId := update s.runId t.objptr (some t.uid)
    visits := update s.visits t.objptr true }

theorem push_eq (h : Sound s) {s' : Reactor O E} {e : E} (hexec : s.push o e = some s') :
    ∃ u uids n, s.runId o = none ∧ s' = pushed s ⟨u, o, e⟩ uids n ∧ Takes s u uids n := by
  obtain ⟨uids, n, hpop, htakes⟩ := h.popUid
  unfold Reactor.push at hexec
  split_ifs at hexec with hrun
  refine ⟨s.popUid.1, uids, n, by simpa using hrun, ?_, htakes⟩
  simp only [hpop, Option.some.injEq] at hexec
  exact hexec.symm

section
variable {t : NewTaskStub O E} {uids : List UniqueId} {n : ℕ}

theorem tasks_pushed : (pushed s t uids n).tasks = s.tasks ++ [t] :=
  (append_assoc _ _ _).symm

theorem spare_pushed :
    (pushed s t uids n).spare.Perm (t.uid :: (s.tasks.map (·.uid) ++ (uids ++ s.freeuidvec))) := by
  rw [spare, tasks_pushed, map_append, append_assoc]
  exact perm_middle

theorem alive_pushed :
    (pushed s t uids n).Alive v p ↔ s.Alive v p ∨ t.uid = v ∧ t.objptr = p := by
  unfold Alive AliveIn
  simp only [tasks_pushed, mem_append, mem_singleton]
  constructor
  · rintro (⟨t', ht' | rfl, hv⟩ | hv)
    · exact Or.inl (Or.inl ⟨t', ht', hv⟩)
    · exact Or.inr hv
    · exact Or.inl (Or.inr hv)
  · rintro ((⟨t', ht', hv⟩ | hv) | hv)
    · exact Or.inl ⟨t', Or.inl ht', hv⟩
    · exact Or.inr hv
    · exact Or.inl ⟨t, Or.inr rfl, hv⟩

end

theorem line_pushed (s : Reactor O E) (t : NewTaskStub O E) (uids : List UniqueId) (n : ℕ) :
    ∃ l, s.line = l ++ s.raisevec.map (·.entry) ∧
      (pushed s t uids n).line = l ++ t.entry :: s.raisevec.map (·.entry) := by
  refine ⟨s.due ++ s.exeq ++ (s.fetchedtsks.map (·.entry) ++ s.fetchedevents.map (·.entry) ++
    s.pushtskvec.map (·.entry)), ?_, ?_⟩ <;> simp [line, waiting, unfetched, pushed]

theorem push (h : Sound s) {s' : Reactor O E} {e : E} (hexec : s.push o e = some s') :
    Sound s' := by
  obtain ⟨u, uids, n, hrun, rfl, htakes⟩ := h.push_eq hexec
  -- the objects of the reactor are others
  have hobj : ∀ v p, s.runId p = some v → p ≠ o := by
    rintro v p hv rfl
    rw [hrun] at hv
    cases hv
  obtain ⟨l, hline, hline'⟩ := line_pushed s ⟨u, o, e⟩ uids n
  exact
  { nodup := (spare_pushed.map _).nodup_iff.2 htakes.nodup
    spare_slot := fun v hv => htakes.slot v (spare_pushed.mem_iff.1 hv)
    fresh := htakes.fresh
    task_run := by
      intro t ht
      rw [tasks_pushed, mem_append, mem_singleton] at ht
      rcases ht with ht | rfl
      · obtain ⟨htrun, htvis⟩ := h.task_run t ht
        simp [pushed, update_of_ne (hobj _ _ htrun), htrun, htvis]
      · simp [pushed]
    active_run := by
      intro v p hv
      have hvrun := h.active_run v p hv
      simpa [pushed, update_of_ne (hobj _ _ hvrun)] using hvrun
    visited := by
      intro v p hvrun hvis
      rw [alive_pushed]
      by_cases hp : p = o
      · right
        simpa [pushed, hp] using hvrun
      · left
        simp only [pushed, update_of_ne hp] at hvrun hvis
        exact h.visited v p hvrun hvis
    queued := h.queued
    fetched := h.fetched
    raised := by
      intro r hr
      obtain ⟨p, hp⟩ := h.raised r hr
      exact ⟨p, alive_pushed.2 (Or.inl hp)⟩
    halted := by
      intro x hx hh p hp
      have hvrun := h.active_run x.objuid p hp
      simpa [pushed, update_of_ne (hobj _ _ hvrun)] using h.halted x hx hh p hp
    once := by
      rw [hline']
      refine pairwise_insert (hline ▸ h.once) ?_ ?_
      · intro x _ _ hh
        exact absurd hh (NewTaskStub.entry_not_halts _)
      · intro x _ hh
        exact absurd hh (NewTaskStub.entry_not_halts _)
    last := by
      rw [hline']
      refine pairwise_insert (hline ▸ h.last) ?_ nofun
      intro x hx hf _
      obtain ⟨p, hp⟩ := h.line_alive (hline ▸ mem_append_left _ hx) (by simp [hf])
      exact (htakes.ne hp).symm
    repost_due := h.repost_due
    repost_fetched := h.repost_fetched
    loaded := h.loaded
    idle := h.idle
    posted := h.posted
    running := h.running }

end

/-! ## What a handler does -/

theorem handles_phase (h : s.handles i) : s.phase = .io ∨ s.phase = .running := by
  unfold handles at h
  split at h
  · exact Or.inl ‹_›
  · exact Or.inr ‹_›
  · cases h

theorem active_of_objptr (h : (s.objdq i).objptr = some o) : s.Active (s.objectUid i) o := by
  unfold Active objectUid
  rw [← h]

theorem postStop [DecidableEq O] (h : Sound s)
    (hexec : s.postStop i = some s') : Sound s' ∧ Keeps s s' := by
  unfold Reactor.postStop at hexec
  split_ifs at hexec with hhandles
  obtain ⟨o, hobj, hexec⟩ := Option.bind_eq_some_iff.1 hexec
  have hactive := active_of_objptr hobj
  split_ifs at hexec with hvis
  · cases hexec
    have hphase : s.phase = .io ∨ s.phase = .exec ∨ s.phase = .running :=
      (handles_phase hhandles).imp_right Or.inr
    constructor
    · refine (h.disableVisits hactive).pushExec hphase rfl ?_ ?_ nofun
      · exact fun _ => ⟨o, hactive, update_self ..⟩
      · intro _ x hx hh
        exact (h.halts_ne hx hh (h.active_run _ _ hactive) hvis).symm
    · have hkeeps : Keeps s (s.pushExec i .stopObjectRepost) := pushExec_keeps rfl
      exact ⟨hkeeps.events, hkeeps.alive, rfl, Or.inl rfl⟩
  · cases hexec
    exact ⟨h, .refl s⟩

theorem post (h : Sound s) (hexec : s.post i = some s') : Sound s' ∧ Keeps s s' := by
  unfold Reactor.post at hexec
  split_ifs at hexec with hhandles
  cases hexec
  have hphase : s.phase = .io ∨ s.phase = .exec ∨ s.phase = .running :=
    (handles_phase hhandles).imp_right Or.inr
  exact ⟨h.pushExec hphase rfl (absurd rfl) (absurd rfl) nofun, pushExec_keeps rfl⟩

/-! ## Fetching -/

def swapped (s : Reactor O E) (fromRun : Bool) : Reactor O E :=
  { s with
    pushtskvec := []
    fetchedtsks := s.pushtskvec
    raisevec := []
    fetchedevents := s.raisevec
    uidstk := s.freeuidvec.reverse ++ s.uidstk
    freeuidvec := []
    phase := .loading fromRun }

theorem swap_cases {fromRun : Bool} (hexec : s.swap fromRun = some s') :
    s.phase = .io ∧ (s.unfetched = [] ∧ s' = s ∨
      s.unfetched = [] ∧ s' = { s with phase := .fetched } ∨ s' = swapped s fromRun) := by
  unfold Reactor.swap at hexec
  split_ifs at hexec with hphase hempty hfrom
  · cases hexec
    exact ⟨hphase, Or.inr (Or.inl ⟨by simpa [unfetched] using hempty, rfl⟩)⟩
  · cases hexec
    exact ⟨hphase, Or.inl ⟨by simpa [unfetched] using hempty, by rw [← hphase]⟩⟩
  · cases hexec
    refine ⟨hphase, Or.inr (Or.inr ?_)⟩
    simp [swapped, foldl_flip_cons_eq_append]

section
variable (h : Sound s) (hphase : s.phase = .io) {fromRun : Bool}
include h hphase

theorem tasks_swapped : (swapped s fromRun).tasks = s.tasks := by
  simp [tasks, swapped, (h.loaded (by simp [hphase])).1]

theorem line_swapped : (swapped s fromRun).line = s.line := by
  obtain ⟨htsks, hevents⟩ := h.loaded (by simp [hphase])
  simp [line, waiting, unfetched, swapped, htsks, hevents]

theorem alive_swapped : (swapped s fromRun).Alive v p ↔ s.Alive v p := by
  rw [Alive, h.tasks_swapped hphase]
  rfl

theorem swapped_sound : Sound (swapped s fromRun) := by
  have hspare : (swapped s fromRun).spare.Perm s.spare := by
    rw [spare, h.tasks_swapped hphase]
    refine List.Perm.append_left _ ?_
    simp only [swapped, append_nil]
    exact (List.Perm.append_right _ (reverse_perm _)).trans perm_append_comm
  exact
  { nodup := (hspare.map _).nodup_iff.2 h.nodup
    spare_slot := fun u hu => h.spare_slot u (hspare.mem_iff.1 hu)
    fresh := h.fresh
    task_run := fun t ht => h.task_run t (h.tasks_swapped hphase ▸ ht)
    active_run := h.active_run
    visited := fun u o hrun hvis => (h.alive_swapped hphase).2 (h.visited u o hrun hvis)
    queued := h.queued
    fetched := by
      intro r hr
      obtain ⟨o, ho⟩ := h.raised r hr
      refine ⟨o, ho.of_subset ?_⟩
      simp [tasks, swapped, (h.loaded (by simp [hphase])).1]
    raised := nofun
    halted := h.halted
    once := h.line_swapped hphase ▸ h.once
    last := h.line_swapped hphase ▸ h.last
    repost_due := fun _ _ _ => nofun
    repost_fetched := fun _ _ _ _ _ _ => nofun
    loaded := fun hne => absurd rfl (hne fromRun)
    idle := fun _ _ => h.idle (by simp [hphase]) (by simp [hphase])
    posted := nofun
    running := nofun }

end

theorem swap (h : Sound s) {fromRun : Bool}
    (hexec : s.swap fromRun = some s') : Sound s' ∧ Keeps s s' ∧ s'.unfetched = [] := by
  obtain ⟨hphase, ⟨hempty, rfl⟩ | ⟨hempty, rfl⟩ | rfl⟩ := swap_cases hexec
  · exact ⟨h, .refl _, hempty⟩
  · have hraise : s.raisevec = [] := map_eq_nil_iff.1 (append_eq_nil_iff.1 hempty).2
    refine ⟨{ h with
      repost_fetched := fun _ _ _ _ _ _ r hr => by simp [hraise] at hr
      loaded := fun _ => h.loaded (by simp [hphase])
      idle := fun _ _ => h.idle (by simp [hphase]) (by simp [hphase])
      posted := nofun
      running := nofun }, ⟨fun _ => rfl, fun _ _ => Iff.rfl, rfl, Or.inl rfl⟩, hempty⟩
  · refine ⟨h.swapped_sound hphase, ⟨?_, fun _ _ => h.alive_swapped hphase, rfl, Or.inr rfl⟩, rfl⟩
    intro u
    rw [h.line_swapped hphase]

/-! ## Loading

What was fetched is queued one by one; each of these steps leaves the line as it is. -/

section
variable {t : NewTaskStub O E} {ts : List (NewTaskStub O E)}

/-- The first fetched object gets its slot. -/
def taskLoaded (s : Reactor O E) (t : NewTaskStub O E) (ts : List (NewTaskStub O E)) :
    Reactor O E :=
  { s.loadTask t with fetchedtsks := ts }

variable (h : Sound s) (htsks : s.fetchedtsks = t :: ts)
include htsks

theorem tasks_cons : s.tasks = t :: (taskLoaded s t ts).tasks := by
  simp [tasks, taskLoaded, loadTask, htsks]

theorem line_taskLoaded (hdue : s.due = []) : (taskLoaded s t ts).line = s.line := by
  simp [line, waiting, unfetched, taskLoaded, loadTask, htsks, hdue, NewTaskStub.entry]

include h

theorem active_taskLoaded : (taskLoaded s t ts).Active v p ↔
    t.uid = v ∧ t.objptr = p ∨ s.Active v p := by
  have hslot := (h.spare_slot t.uid (mem_spare_of_task (by simp [tasks, htsks]))).2
  rcases v with ⟨i, w⟩
  rcases t with ⟨⟨j, w'⟩, q, e⟩
  unfold Active taskLoaded loadTask
  by_cases hi : i = j
  · subst hi
    simp_all
  · simp [update_of_ne hi, Ne.symm hi]

theorem aliveIn_taskLoaded :
    (taskLoaded s t ts).AliveIn ts' v p ↔ s.AliveIn (t :: ts') v p := by
  unfold AliveIn
  rw [h.active_taskLoaded htsks, exists_mem_cons_iff]
  exact or_left_comm.trans or_assoc.symm

theorem taskLoaded_sound {b : Bool} (hphase : s.phase = .loading b) :
    Sound (taskLoaded s t ts) := by
  have hdue : s.due = [] := h.idle (by simp [hphase]) (by simp [hphase])
  have hspare : s.spare = t.uid :: (taskLoaded s t ts).spare := by
    rw [spare, tasks_cons htsks]
    rfl
  have hnodup := h.nodup
  rw [hspare, map_cons, nodup_cons] at hnodup
  -- the other indices keep their slots
  have hslot : ∀ i, i ≠ t.uid.index → (taskLoaded s t ts).objdq i = s.objdq i :=
    fun i hi => update_of_ne hi ..
  have ht := h.spare_slot t.uid (hspare ▸ mem_cons_self)
  have halive : ∀ {v p}, s.Alive v p → (taskLoaded s t ts).Alive v p := by
    intro v p hv
    rw [Alive, h.aliveIn_taskLoaded htsks, ← tasks_cons htsks]
    exact hv
  have hmem : ∀ x ∈ (taskLoaded s t ts).due ++ (taskLoaded s t ts).exeq,
      x ∈ s.due ++ s.exeq ∨ x = t.entry := by
    intro x hx
    simpa [taskLoaded, loadTask, NewTaskStub.entry, or_assoc] using hx
  exact
  { nodup := hnodup.2
    spare_slot := by
      intro v hv
      have hne : v.index ≠ t.uid.index := by
        intro hi
        exact hnodup.1 (hi ▸ mem_map_of_mem hv)
      rw [hslot _ hne]
      exact h.spare_slot v (hspare ▸ mem_cons_of_mem _ hv)
    fresh := by
      intro i hi
      have hlt : t.uid.index < i := Nat.lt_of_lt_of_le ht.1 hi
      rw [hslot i (Nat.ne_of_gt hlt)]
      exact h.fresh i hi
    task_run := fun t' ht' => h.task_run t' (tasks_cons htsks ▸ mem_cons_of_mem _ ht')
    active_run := by
      intro v p hv
      rcases (h.active_taskLoaded htsks).1 hv with ⟨rfl, rfl⟩ | hv
      · exact (h.task_run t (tasks_cons htsks ▸ mem_cons_self)).1
      · exact h.active_run v p hv
    visited := fun v p hrun hvis => halive (h.visited v p hrun hvis)
    queued := by
      intro x hx hf
      rcases hmem x hx with hx | rfl
      · obtain ⟨p, hp⟩ := h.queued x hx hf
        exact ⟨p, (h.active_taskLoaded htsks).2 (Or.inr hp)⟩
      · exact ⟨t.objptr, (h.active_taskLoaded htsks).2 (Or.inl ⟨rfl, rfl⟩)⟩
    fetched := by
      intro r hr
      obtain ⟨p, hp⟩ := h.fetched r hr
      rw [htsks] at hp
      exact ⟨p, (h.aliveIn_taskLoaded htsks).2 hp⟩
    raised := by
      intro r hr
      obtain ⟨p, hp⟩ := h.raised r hr
      exact ⟨p, halive hp⟩
    halted := by
      intro x hx hh p hp
      rcases hmem x hx with hx | rfl
      · rcases (h.active_taskLoaded htsks).1 hp with ⟨hu, rfl⟩ | hp
        · have hf : x.exefnc ≠ .posted := by rcases hh with hf | hf <;> simp [hf]
          obtain ⟨q, hq⟩ := h.queued x hx hf
          exact absurd (congrArg UniqueId.index hu)
            (h.spare_ne_active (hspare ▸ mem_cons_self) hq)
        · exact h.halted x hx hh p hp
      · exact absurd hh (NewTaskStub.entry_not_halts t)
    once := line_taskLoaded htsks hdue ▸ h.once
    last := line_taskLoaded htsks hdue ▸ h.last
    repost_due := h.repost_due
    repost_fetched := by
      intro hio hexec hrunning x hx hf
      rcases mem_append.1 hx with hx | hx
      · exact h.repost_fetched hio hexec hrunning x hx hf
      · rw [mem_singleton.1 hx] at hf
        cases hf
    loaded := fun hne => absurd hphase (hne b)
    idle := fun _ _ => hdue
    posted := by
      intro hp
      have hp' : s.phase = .exec ∨ s.phase = .running := hp
      simp [hphase] at hp'
    running := fun hp => absurd (hphase.symm.trans hp) nofun }

theorem taskLoaded_keeps {b : Bool} (hphase : s.phase = .loading b) :
    Keeps s (taskLoaded s t ts) where
  events u := by rw [line_taskLoaded htsks (h.idle (by simp [hphase]) (by simp [hphase]))]
  alive u o := by
    rw [Alive, h.aliveIn_taskLoaded htsks, ← tasks_cons htsks]
    rfl
  runId := rfl
  unfetched := Or.inl rfl

end

/-- The first fetched event is queued, when all fetched objects have their slots. -/
def eventLoaded (s : Reactor O E) (r : RaiseEventStub E) (rs : List (RaiseEventStub E)) :
    Reactor O E :=
  { s.loadEvent r with fetchedevents := rs }

section
variable {r : RaiseEventStub E} {rs : List (RaiseEventStub E)}

theorem line_eventLoaded (htsks : s.fetchedtsks = []) (hevents : s.fetchedevents = r :: rs) :
    (eventLoaded s r rs).line = s.line := by
  simp [line, waiting, unfetched, eventLoaded, loadEvent, htsks, hevents, RaiseEventStub.entry]

theorem eventLoaded_keeps (htsks : s.fetchedtsks = []) (hevents : s.fetchedevents = r :: rs) :
    Keeps s (eventLoaded s r rs) where
  events u := by rw [line_eventLoaded htsks hevents]
  alive _ _ := Iff.rfl
  runId := rfl
  unfetched := Or.inl rfl

theorem eventLoaded_sound (h : Sound s) (htsks : s.fetchedtsks = [])
    (hevents : s.fetchedevents = r :: rs) {b : Bool} (hphase : s.phase = .loading b) :
    Sound (eventLoaded s r rs) := by
  have hmem : ∀ x ∈ (eventLoaded s r rs).due ++ (eventLoaded s r rs).exeq,
      x ∈ s.due ++ s.exeq ∨ x = r.entry := by
    intro x hx
    simpa [eventLoaded, loadEvent, RaiseEventStub.entry, or_assoc] using hx
  exact
  { h with
    queued := by
      intro x hx hf
      rcases hmem x hx with hx | rfl
      · exact h.queued x hx hf
      · obtain ⟨p, hp⟩ := h.fetched r (hevents ▸ mem_cons_self)
        rw [htsks] at hp
        rcases hp with ⟨t, ht, -⟩ | hp
        · cases ht
        · exact ⟨p, hp⟩
    fetched := fun r' hr' => h.fetched r' (hevents ▸ mem_cons_of_mem _ hr')
    halted := by
      intro x hx hh
      rcases hmem x hx with hx | rfl
      · exact h.halted x hx hh
      · exact absurd hh (RaiseEventStub.entry_not_halts r)
    once := line_eventLoaded htsks hevents ▸ h.once
    last := line_eventLoaded htsks hevents ▸ h.last
    repost_fetched := by
      intro hio hexec hrunning x hx hf
      rcases mem_append.1 hx with hx | hx
      · exact h.repost_fetched hio hexec hrunning x hx hf
      · rw [mem_singleton.1 hx] at hf
        cases hf
    loaded := fun hne => absurd hphase (hne b)
    posted := by
      intro hp
      have hp' : s.phase = .exec ∨ s.phase = .running := hp
      simp [hphase] at hp'
    running := fun hp => absurd (hphase.symm.trans hp) nofun }

end

theorem load_tasks (ts : List (NewTaskStub O E)) :
    ∀ s : Reactor O E, Sound { s with fetchedtsks := ts } → s.phase = .loading b →
      Sound { ts.foldl loadTask s with fetchedtsks := [] } ∧
      Keeps { s with fetchedtsks := ts } { ts.foldl loadTask s with fetchedtsks := [] } := by
  induction ts with
  | nil => exact fun s h _ => ⟨h, .refl _⟩
  | cons t ts ih =>
    intro s h hphase
    have htsks : ({ s with fetchedtsks := t :: ts } : Reactor O E).fetchedtsks = t :: ts := rfl
    have hkeeps := h.taskLoaded_keeps htsks hphase
    obtain ⟨hsound, hrest⟩ := ih (s.loadTask t) (h.taskLoaded_sound htsks hphase) hphase
    exact ⟨hsound, hkeeps.trans hrest⟩

theorem load_events (rs : List (RaiseEventStub E)) :
    ∀ s : Reactor O E, Sound { s with fetchedtsks := [], fetchedevents := rs } →
      s.phase = .loading b →
      Sound { rs.foldl loadEvent s with fetchedtsks := [], fetchedevents := [] } ∧
      Keeps { s with fetchedtsks := [], fetchedevents := rs }
        { rs.foldl loadEvent s with fetchedtsks := [], fetchedevents := [] } := by
  induction rs with
  | nil => exact fun s h _ => ⟨h, .refl _⟩
  | cons r rs ih =>
    intro s h hphase
    have hevents : ({ s with fetchedtsks := [], fetchedevents := r :: rs } :
      Reactor O E).fetchedevents = r :: rs := rfl
    have hkeeps := eventLoaded_keeps rfl hevents
    obtain ⟨hsound, hrest⟩ := ih (s.loadEvent r) (h.eventLoaded_sound rfl hevents hphase) hphase
    exact ⟨hsound, hkeeps.trans hrest⟩

theorem foldl_loadTask (ts : List (NewTaskStub O E)) : ∀ s : Reactor O E,
    (ts.foldl loadTask s).fetchedevents = s.fetchedevents ∧
      (ts.foldl loadTask s).phase = s.phase := by
  induction ts with
  | nil => exact fun s => ⟨rfl, rfl⟩
  | cons t ts ih => exact fun s => ih (s.loadTask t)

theorem foldl_loadEvent (rs : List (RaiseEventStub E)) : ∀ s : Reactor O E,
    (rs.foldl loadEvent s).phase = s.phase := by
  induction rs with
  | nil => exact fun s => rfl
  | cons r rs ih => exact fun s => ih (s.loadEvent r)

/-- What was raised for an object after the fetch was raised while its visits were enabled,
    so no stop of the object is in the queue. -/
theorem endLoad (h : Sound s) (hphase : s.phase = .loading b)
    (htsks : s.fetchedtsks = []) (hevents : s.fetchedevents = []) :
    Sound { s with phase := if b then .fetched else .io } :=
  { h with
    repost_fetched := fun _ _ _ =>
      h.repost_fetched (by simp [hphase]) (by simp [hphase]) (by simp [hphase])
    loaded := fun _ => ⟨htsks, hevents⟩
    idle := fun _ _ => h.idle (by simp [hphase]) (by simp [hphase])
    posted := by cases b <;> exact nofun
    running := by cases b <;> exact nofun }

theorem load (h : Sound s) (hexec : s.load = some s') : Sound s' ∧ Keeps s s' := by
  unfold Reactor.load at hexec
  split at hexec
  · rename_i b hphase
    obtain ⟨h1, hkeeps1⟩ := load_tasks s.fetchedtsks s h hphase
    obtain ⟨hevents, hphase1⟩ := foldl_loadTask s.fetchedtsks s
    generalize s.fetchedtsks.foldl loadTask s = s1 at h1 hkeeps1 hevents hphase1 hexec
    rw [← hevents] at hexec
    obtain ⟨h2, hkeeps2⟩ := load_events s1.fetchedevents s1 h1 (hphase1.trans hphase)
    have hphase2 := foldl_loadEvent s1.fetchedevents s1
    cases hexec
    have hkeeps := hkeeps1.trans hkeeps2
    exact ⟨h2.endLoad (hphase2.trans (hphase1.trans hphase)) rfl rfl,
      ⟨hkeeps.events, hkeeps.alive, hkeeps.runId, hkeeps.unfetched⟩⟩
  · cases hexec

end Sound

end Reactor

end SolidFrame.Aio
