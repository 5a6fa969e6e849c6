/-
  SolidFrame formalization — every event reaches its object before the object stops
  (solid/frame/aio/src/aioreactor.cpp, solid/frame/src/object.cpp).

  What was raised for an object of the reactor is what was executed on it followed by its
  events in the line (`Ledger`).  A `stopObject` has no event of its object behind it, so
  when it is executed nothing is left.
-/
import SolidFrame.Frame.AioReactorLine

namespace SolidFrame.Aio

open Function List Option Reactor

namespace Reactor

variable {O E : Type}

/-! ## Executing the entries -/

namespace Sound

variable {s : Reactor O E} {u : UniqueId} {o : O}
variable {s' : Reactor O E}

theorem beginExec (h : Sound s) (hexec : s.beginExec = some s') : Sound s' ∧ Keeps s s' := by
  unfold Reactor.beginExec at hexec
  split_ifs at hexec with hphase
  cases hexec
  have hdue : s.due = [] := h.idle (by simp [hphase]) (by simp [hphase])
  have hqueue : s.due ++ s.exeq = s.exeq ++ [] := by simp [hdue]
  have hline : ({ s with due := s.exeq, exeq := [], phase := .exec } : Reactor O E).line =
      s.line := by
    simp [line, waiting, unfetched, hdue]
  constructor
  · exact
    { h with
      queued := hqueue ▸ h.queued
      halted := hqueue ▸ h.halted
      once := hline ▸ h.once
      last := hline ▸ h.last
      repost_due := h.repost_fetched (by simp [hphase]) (by simp [hphase]) (by simp [hphase])
      repost_fetched := fun _ hne => absurd rfl hne
      loaded := fun _ => h.loaded (by simp [hphase])
      idle := fun hne => absurd rfl hne
      posted := by rintro _ _ ⟨⟩
      running := by rintro ⟨⟩ }
  · exact ⟨fun u => by rw [hline], fun _ _ => Iff.rfl, rfl, Or.inl rfl⟩

theorem endExec (h : Sound s) (hexec : s.endExec = some s') : Sound s' ∧ Keeps s s' := by
  unfold Reactor.endExec at hexec
  split_ifs at hexec with hphase
  cases hexec
  constructor
  · exact
    { h with
      repost_fetched := fun hne => absurd rfl hne
      loaded := fun _ => h.loaded (by simp [hphase.1])
      idle := fun _ _ => hphase.2
      posted := nofun
      running := nofun }
  · exact ⟨fun _ => rfl, fun _ _ => Iff.rfl, rfl, Or.inl rfl⟩

/-- Only posted functions are skipped: the object of any other entry is in its slot. -/
theorem execute (h : Sound s) {sameChannel : Bool}
    (hexec : s.execute sameChannel = some s') : Sound s' ∧ Keeps s s' := by
  unfold Reactor.execute at hexec
  split at hexec
  · rename_i x xs hphase hdue
    split_ifs at hexec with hcond
    · cases hexec
      constructor
      · exact
        { h with
          repost_fetched := fun _ _ hne => absurd rfl hne
          loaded := fun _ => h.loaded (by simp [hphase])
          idle := fun _ hne => absurd rfl hne
          posted := fun _ => h.posted (Or.inl hphase)
          running := fun _ => by simp [hdue] }
      · exact ⟨fun _ => rfl, fun _ _ => Iff.rfl, rfl, Or.inl rfl⟩
    · cases hexec
      have hposted : x.exefnc = .posted := by
        by_contra hf
        obtain ⟨o, ho⟩ := h.queued x (by simp [hdue]) hf
        refine hcond ⟨by rw [ho], ?_⟩
        unfold ExecStub.onChannel
        split
        · contradiction
        · rfl
      have hev : x.event? = none := by simp [ExecStub.event?, hposted]
      have hs' : ({ s with due := xs } : Reactor O E) = popped s xs := by
        rw [popped, ← hphase]
      rw [hs']
      exact ⟨h.pop hdue (Or.inl hphase), pop_keeps hdue hev⟩
  · cases hexec

theorem complete_cases {out : Outcome O E}
    (hexec : s.complete = some (s', out)) : ∃ x xs, s.phase = .running ∧ s.due = x :: xs ∧
      ((∃ e o, x.exefnc = .callObjectOnEvent e ∧ (s.objdq x.objuid.index).objptr = some o ∧
          s' = popped s xs ∧ out = .executed o e) ∨
        (x.exefnc = .stopObjectRepost ∧
          s' = (popped s xs).pushExec x.objuid.index .stopObject ∧ out = .quiet) ∨
        (∃ o, x.exefnc = .stopObject ∧ (s.objdq x.objuid.index).objptr = some o ∧
          s' = (popped s xs).doStopObject x.objuid.index ∧ out = .stopped o) ∨
        (x.exefnc = .posted ∧ s' = popped s xs ∧ out = .quiet)) := by
  unfold complete at hexec
  split at hexec
  · rename_i x xs hphase hdue
    refine ⟨x, xs, hphase, hdue, ?_⟩
    dsimp only at hexec
    split at hexec
    · rename_i e hf
      obtain ⟨o, ho, hexec⟩ := bind_eq_some_iff.1 hexec
      cases hexec
      exact Or.inl ⟨e, o, hf, ho, rfl, rfl⟩
    · rename_i hf
      cases hexec
      exact Or.inr (Or.inl ⟨hf, rfl, rfl⟩)
    · rename_i hf
      obtain ⟨o, ho, hexec⟩ := bind_eq_some_iff.1 hexec
      cases hexec
      exact Or.inr (Or.inr (Or.inl ⟨o, hf, ho, rfl, rfl⟩))
    · rename_i hf
      cases hexec
      exact Or.inr (Or.inr (Or.inr ⟨hf, rfl, rfl⟩))
  · cases hexec

/-! ## Stopping an object -/

section
variable (h : Sound s) (hu : s.Active u o)
include h hu

theorem active_doStopObject {v : UniqueId} {p : O} :
    (s.doStopObject u.index).Active v p ↔ s.Active v p ∧ p ≠ o := by
  unfold Active doStopObject
  by_cases hi : v.index = u.index
  · simp only [hi, update_self, ObjectStub.mk.injEq, reduceCtorEq, and_false, false_iff]
    rintro ⟨hv, hne⟩
    have hslot : s.Active v p := by rw [Active, hi]; exact hv
    exact hne (h.alive_inj hslot.alive hu.alive hi).2
  · simp only [update_of_ne hi]
    refine ⟨fun hv => ⟨hv, ?_⟩, fun hv => hv.1⟩
    rintro rfl
    have hrun := (h.active_run v p hv).symm.trans (h.active_run u p hu)
    exact hi (congrArg UniqueId.index (some.inj hrun))

theorem alive_doStopObject {v : UniqueId} {p : O} :
    (s.doStopObject u.index).Alive v p ↔ s.Alive v p ∧ p ≠ o := by
  unfold Alive AliveIn
  rw [h.active_doStopObject hu]
  constructor
  · rintro (⟨t, ht, rfl, rfl⟩ | hv)
    · refine ⟨Or.inl ⟨t, ht, rfl, rfl⟩, ?_⟩
      intro hp
      have hrun := (h.task_run t ht).1
      rw [hp, h.active_run u o hu] at hrun
      exact h.spare_ne_active (mem_spare_of_task ht) hu
        (congrArg UniqueId.index (some.inj hrun).symm)
    · exact ⟨Or.inr hv.1, hv.2⟩
  · rintro ⟨ht | hv, hp⟩
    · exact Or.inl ht
    · exact Or.inr ⟨hv, hp⟩

/-- An object may be stopped when its visits are disabled and nothing for it is in the line
    but posted functions. -/
theorem doStopObject (hvis : s.visits o = false)
    (hline : ∀ x ∈ s.line, x.exefnc ≠ .posted → x.objuid ≠ u) :
    Sound (s.doStopObject u.index) := by
  set unique := ((s.objdq u.index).unique + 1) % uniqueLimit
  have hspare : (s.doStopObject u.index).spare = s.spare ++ [⟨u.index, unique⟩] := by
    simp [spare, tasks, Reactor.doStopObject, unique]
  have hslot : ∀ i, i ≠ u.index → (s.doStopObject u.index).objdq i = s.objdq i :=
    fun i hi => update_of_ne hi ..
  have hlt : u.index < s.crtidx := by
    by_contra hge
    have hfresh := h.fresh u.index (Nat.le_of_not_lt hge)
    rw [hu] at hfresh
    cases congrArg ObjectStub.objptr hfresh
  -- an entry of the line is for another object
  have hother : ∀ {x p}, x ∈ s.line → x.exefnc ≠ .posted → s.Alive x.objuid p → p ≠ o := by
    rintro x p hx hf hp rfl
    have hrun := (h.alive_run hp).symm.trans (h.active_run u p hu)
    exact hline x hx hf (some.inj hrun)
  have halive : ∀ {ts v p}, s.AliveIn ts v p → p ≠ o → (s.doStopObject u.index).AliveIn ts v p := by
    rintro ts v p (ht | hv) hp
    · exact Or.inl ht
    · exact Or.inr ((h.active_doStopObject hu).2 ⟨hv, hp⟩)
  exact
  { h with
    nodup := by
      rw [hspare, List.map_append]
      refine List.nodup_append.2 ⟨h.nodup, List.nodup_singleton _, ?_⟩
      intro i hi j hj hij
      obtain ⟨v, hv, rfl⟩ := List.mem_map.1 hi
      exact h.spare_ne_active hv hu (hij.trans (List.mem_singleton.1 hj))
    spare_slot := by
      intro v hv
      rw [hspare, List.mem_append, List.mem_singleton] at hv
      rcases hv with hv | rfl
      · rw [hslot _ (h.spare_ne_active hv hu)]
        exact h.spare_slot v hv
      · exact ⟨hlt, update_self ..⟩
    fresh := by
      intro i hi
      rw [hslot i (Nat.ne_of_gt (Nat.lt_of_lt_of_le hlt hi))]
      exact h.fresh i hi
    active_run := fun v p hv => h.active_run v p ((h.active_doStopObject hu).1 hv).1
    visited := by
      intro v p hrun hv
      refine halive (h.visited v p hrun hv) ?_
      rintro rfl
      cases hvis.symm.trans hv
    queued := by
      intro x hx hf
      obtain ⟨p, hp⟩ := h.queued x hx hf
      exact ⟨p, (h.active_doStopObject hu).2 ⟨hp, hother (mem_line.2 (Or.inl hx)) hf hp.alive⟩⟩
    fetched := by
      intro r hr
      obtain ⟨p, hp⟩ := h.fetched r hr
      have hx : r.entry ∈ s.line :=
        mem_line.2 (Or.inr (mem_waiting.2 (Or.inr ⟨r, List.mem_append_left _ hr, rfl⟩)))
      exact ⟨p, halive hp (hother hx (by rintro ⟨⟩) (hp.of_subset (List.subset_append_left _ _)))⟩
    raised := by
      intro r hr
      obtain ⟨p, hp⟩ := h.raised r hr
      have hx : r.entry ∈ s.line :=
        mem_line.2 (Or.inr (mem_waiting.2 (Or.inr ⟨r, List.mem_append_right _ hr, rfl⟩)))
      exact ⟨p, halive hp (hother hx (by rintro ⟨⟩) hp)⟩
    halted := fun x hx hh p hp => h.halted x hx hh p ((h.active_doStopObject hu).1 hp).1 }

end

/-- The `stopObject` at the front of the queue has no event of its object behind it, and
    no other stop of it. -/
theorem stop_last (h : Sound s) {x : ExecStub E} {xs : List (ExecStub E)}
    (hdue : s.due = x :: xs) (hf : x.exefnc = .stopObject) :
    ∀ y ∈ (popped s xs).line, y.exefnc ≠ .posted → y.objuid ≠ x.objuid := by
  intro y hy hposted
  have hlast := h.last
  have honce := h.once
  rw [line_cons hdue, pairwise_cons] at hlast honce
  cases hy' : y.exefnc with
  | callObjectOnEvent e => exact (hlast.1 y hy hf (by simp [ExecStub.event?, hy'])).symm
  | stopObjectRepost => exact (honce.1 y hy (Or.inr hf) (Or.inl hy')).symm
  | stopObject => exact (honce.1 y hy (Or.inr hf) (Or.inr hy')).symm
  | posted => exact absurd hy' hposted

theorem complete (h : Sound s) {out : Outcome O E}
    (hexec : s.complete = some (s', out)) : Sound s' := by
  obtain ⟨x, xs, hphase, hdue, hcases⟩ := complete_cases hexec
  have hpop : Sound (popped s xs) := h.pop hdue (Or.inr hphase)
  have hx : x ∈ s.due ++ s.exeq := by simp [hdue]
  rcases hcases with ⟨e, o, -, -, rfl, -⟩ | ⟨hf, rfl, -⟩ | ⟨o, hf, -, rfl, -⟩ | ⟨-, rfl, -⟩
  · exact hpop
  · -- the events of the object were fetched before the repost was executed
    obtain ⟨o, ho⟩ := h.queued x hx (by simp [hf])
    have huid : (popped s xs).objectUid x.objuid.index = x.objuid := by
      simp only [objectUid, popped]
      rw [ho]
    have honce := h.once
    rw [line_cons hdue, pairwise_cons] at honce
    refine hpop.pushExec (Or.inr (Or.inl rfl)) rfl ?_ ?_ ?_ <;> rw [huid]
    · exact fun _ => ⟨o, ho, h.halted x hx (Or.inl hf) o ho⟩
    · intro _ y hy hh
      exact (honce.1 y (mem_line.2 (Or.inl hy)) (Or.inl hf) hh).symm
    · intro _ y hy
      obtain ⟨htsks, hevents⟩ := h.loaded (by simp [hphase])
      rcases mem_waiting.1 hy with ⟨t, ht, rfl⟩ | ⟨r, hr, rfl⟩
      · exact fun hu => h.spare_ne_active (mem_spare_of_task ht) ho (congrArg UniqueId.index hu)
      · have hr' : r ∈ s.raisevec := by simpa [popped, hevents] using hr
        exact h.repost_due x (by simp [hdue]) hf r hr'
  · obtain ⟨o, ho⟩ := h.queued x hx (by simp [hf])
    exact hpop.doStopObject ho (h.halted x hx (Or.inr hf) o ho) (h.stop_last hdue hf)
  · exact hpop

/-! ## What a step does -/

section
variable [DecidableEq O]

/-- A step accepts an event for a new or a visited object, executes an event or the stop
    at the front of the queue, or does nothing to any object. -/
inductive Effect (s : Reactor O E) : Action O E → Outcome O E → Reactor O E → Prop where
  | quiet {a : Action O E} {s'} (ha : a.accepts = none) (hkeeps : Keeps s s') : Effect s a .quiet s'
  | pushed {u o e uids n} :
      s.runId o = none →
      Takes s u uids n →
      Effect s (.push o e) .quiet (pushed s ⟨u, o, e⟩ uids n)
  | raised {u o e} :
      s.runId o = some u →
      s.visits o = true →
      Effect s (.raise o e) .quiet { s with raisevec := s.raisevec ++ [⟨u, e⟩] }
  | executed {u o e xs} (hdue : s.due = ⟨u, .callObjectOnEvent e⟩ :: xs) (ho : s.Active u o) :
      Effect s .complete (.executed o e) (popped s xs)
  | stopped {u : UniqueId} {o xs} :
      s.phase = .running →
      s.due = ⟨u, .stopObject⟩ :: xs →
      s.Active u o →
      Effect s .complete (.stopped o) ((popped s xs).doStopObject u.index)

theorem complete_effect (h : Sound s) {out : Outcome O E}
    (hexec : s.complete = some (s', out)) : Effect s .complete out s' := by
  obtain ⟨⟨u, f⟩, xs, hphase, hdue, hcases⟩ := complete_cases hexec
  have hx : ⟨u, f⟩ ∈ s.due ++ s.exeq := by simp [hdue]
  have hkeeps : ∀ {f' : EventFunction E}, f = f' → (⟨u, f'⟩ : ExecStub E).event? = none →
      Keeps s (popped s xs) := by
    rintro f' rfl hev
    exact pop_keeps hdue hev
  rcases hcases with ⟨e, o, rfl, ho, rfl, rfl⟩ | ⟨hf, rfl, rfl⟩ | ⟨o, rfl, ho, rfl, rfl⟩ |
    ⟨hf, rfl, rfl⟩
  · obtain ⟨p, hp⟩ := h.queued _ hx nofun
    rw [hp] at ho
    cases ho
    exact .executed hdue hp
  · exact .quiet rfl ((hkeeps hf rfl).trans (pushExec_keeps rfl))
  · obtain ⟨p, hp⟩ := h.queued _ hx nofun
    rw [hp] at ho
    cases ho
    exact .stopped hphase hdue hp
  · exact .quiet rfl (hkeeps hf rfl)

/-- **One step.** -/
theorem exec (h : Sound s) {a : Action O E} {out : Outcome O E}
    (hexec : s.exec a = some (s', out)) : Sound s' ∧ Effect s a out s' := by
  have hquiet : ∀ {f : Option (Reactor O E)}, f.map (·, Outcome.quiet) = some (s', out) →
      f = some s' ∧ out = .quiet := by
    intro f hf
    obtain ⟨s₁, hs1, heq⟩ := map_eq_some_iff.1 hf
    cases heq
    exact ⟨hs1, rfl⟩
  cases a with
  | push o e =>
    obtain ⟨hs', rfl⟩ := hquiet hexec
    obtain ⟨u, uids, n, hnew, rfl, htakes⟩ := h.push_eq hs'
    exact ⟨h.push hs', .pushed hnew htakes⟩
  | raise o e =>
    obtain ⟨hs', rfl⟩ := hquiet hexec
    refine ⟨h.raise hs', ?_⟩
    unfold Reactor.raise at hs'
    obtain ⟨u, hrun, hs'⟩ := bind_eq_some_iff.1 hs'
    split_ifs at hs' with hvis
    cases hs'
    exact .raised hrun hvis
  | postStop i =>
    obtain ⟨hs', rfl⟩ := hquiet hexec
    exact (h.postStop hs').imp_right (.quiet rfl)
  | post i =>
    obtain ⟨hs', rfl⟩ := hquiet hexec
    exact (h.post hs').imp_right (.quiet rfl)
  | swap fromRun =>
    obtain ⟨hs', rfl⟩ := hquiet hexec
    obtain ⟨hsound, hkeeps, -⟩ := h.swap hs'
    exact ⟨hsound, .quiet rfl hkeeps⟩
  | load =>
    obtain ⟨hs', rfl⟩ := hquiet hexec
    exact (h.load hs').imp_right (.quiet rfl)
  | beginExec =>
    obtain ⟨hs', rfl⟩ := hquiet hexec
    exact (h.beginExec hs').imp_right (.quiet rfl)
  | execute sameChannel =>
    obtain ⟨hs', rfl⟩ := hquiet hexec
    exact (h.execute hs').imp_right (.quiet rfl)
  | complete => exact ⟨h.complete hexec, h.complete_effect hexec⟩
  | endExec =>
    obtain ⟨hs', rfl⟩ := hquiet hexec
    exact (h.endExec hs').imp_right (.quiet rfl)

end

end Sound

variable {uids : List UniqueId}

theorem Sound.Takes.eventsFor_line {s : Reactor O E} {u : UniqueId} {n : ℕ}
    (h : Takes s u uids n) (hs : Sound s) : eventsFor u s.line = [] := by
  refine eventsFor_eq_nil ?_
  intro x hx hev
  have hf : x.exefnc ≠ .posted := by
    intro hf
    simp [ExecStub.event?, hf] at hev
  obtain ⟨o, ho⟩ := hs.line_alive hx hf
  exact (h.ne ho).symm

/-! ## The ledger of a run -/

section
variable [DecidableEq O] {tr : List (Action O E × Outcome O E)} {s s' : Reactor O E}

structure Ledger (tr : List (Action O E × Outcome O E)) (s : Reactor O E) : Prop where
  alive : ∀ u o, s.Alive u o → raised o tr = executed o tr ++ eventsFor u s.line
  gone : ∀ o, (∀ u, ¬ s.Alive u o) → raised o tr = executed o tr
  stopped : ∀ a o, (a, Outcome.stopped o) ∈ tr → s.runId o ≠ none ∧ ∀ u, ¬ s.Alive u o

namespace Ledger

theorem start : Ledger [] (start : Reactor O E) where
  alive := by
    rintro u o (⟨t, ht, -⟩ | hu)
    · cases ht
    · cases congrArg ObjectStub.objptr hu
  gone _ _ := rfl
  stopped := nofun

variable {u : UniqueId} {o : O} {a : Action O E} {e : E}

theorem stopped_cons (h : Ledger tr s) {out : Outcome O E}
    (hout : ∀ o, out ≠ .stopped o) (hrun : s'.runId = s.runId)
    (halive : ∀ u o, s'.Alive u o → s.Alive u o) :
    ∀ b o, (b, Outcome.stopped o) ∈ (a, out) :: tr → s'.runId o ≠ none ∧ ∀ u, ¬ s'.Alive u o := by
  intro b o hb
  rcases mem_cons.1 hb with hb | hb
  · cases hb
    exact absurd rfl (hout o)
  · obtain ⟨ho, hgone⟩ := h.stopped b o hb
    exact ⟨by rwa [hrun], fun u hu => hgone u (halive u o hu)⟩

theorem quiet (h : Ledger tr s) (hkeeps : Keeps s s') (ha : a.accepts = none) :
    Ledger ((a, .quiet) :: tr) s' where
  alive := by
    intro u o hu
    have hold := h.alive u o ((hkeeps.alive u o).1 hu)
    simpa [raised, executed, ha, eventOf, Outcome.executes, hkeeps.events u] using hold
  gone := by
    intro o ho
    have hold := h.gone o (fun u hu => ho u ((hkeeps.alive u o).2 hu))
    simpa [raised, executed, ha, eventOf, Outcome.executes] using hold
  stopped := h.stopped_cons nofun hkeeps.runId (fun u o hu => (hkeeps.alive u o).1 hu)

section
variable (h : Ledger tr s) (hs : Sound s)
include h hs

theorem pushed {n : ℕ} (hnew : s.runId o = none) (htakes : Sound.Takes s u uids n) :
    Ledger ((.push o e, .quiet) :: tr) (Sound.pushed s ⟨u, o, e⟩ uids n) := by
  obtain ⟨l, hline, hline'⟩ := Sound.line_pushed s ⟨u, o, e⟩ uids n
  have hother : ∀ {v p}, s.Alive v p → o ≠ p := by
    rintro v p hv rfl
    cases hnew.symm.trans (hs.alive_run hv)
  have hraised : ∀ p, o ≠ p → raised p ((.push o e, .quiet) :: tr) = raised p tr := by
    intro p hp
    simp [raised, Action.accepts, eventOf, hp]
  have hexecuted : ∀ p, executed p ((.push o e, .quiet) :: tr) = executed p tr := by
    intro p
    simp [executed, Outcome.executes, eventOf]
  refine ⟨?_, ?_, ?_⟩
  · intro v p hv
    rcases Sound.alive_pushed.1 hv with hv | ⟨rfl, rfl⟩
    · rw [hraised p (hother hv), hexecuted, h.alive v p hv, hline, hline', eventsFor_append,
        eventsFor_append, eventsFor_cons]
      simp [htakes.ne hv]
    · have hnone := htakes.eventsFor_line hs
      rw [hline, eventsFor_append, append_eq_nil_iff] at hnone
      have hgone := h.gone o (fun v hv => hother hv rfl)
      rw [hexecuted, hline', eventsFor_append, eventsFor_cons, hnone.1, hnone.2]
      simp [raised, Action.accepts, eventOf, hgone]
  · intro p hp
    have hne : o ≠ p := fun hop => hp u (Sound.alive_pushed.2 (Or.inr ⟨rfl, hop⟩))
    rw [hraised p hne, hexecuted]
    exact h.gone p (fun v hv => hp v (Sound.alive_pushed.2 (Or.inl hv)))
  · intro b p hb
    rcases mem_cons.1 hb with hb | hb
    · cases hb
    obtain ⟨hrun, hgone⟩ := h.stopped b p hb
    have hne : p ≠ o := by
      rintro rfl
      exact hrun hnew
    refine ⟨by simpa [Sound.pushed, update_of_ne hne] using hrun, ?_⟩
    intro v hv
    rcases Sound.alive_pushed.1 hv with hv | ⟨-, rfl⟩
    · exact hgone v hv
    · exact hne rfl

theorem raised (hrun : s.runId o = some u) (hvis : s.visits o) :
    Ledger ((.raise o e, .quiet) :: tr) { s with raisevec := s.raisevec ++ [⟨u, e⟩] } where
  alive := by
    intro v p hv
    have hold : s.Alive v p := hv
    have hline : ({ s with raisevec := s.raisevec ++ [⟨u, e⟩] } : Reactor O E).line =
        s.line ++ [(⟨u, e⟩ : RaiseEventStub E).entry] := by
      simp [line, waiting, unfetched]
    rw [hline, eventsFor_append, eventsFor_cons, ← append_assoc]
    by_cases hp : o = p
    · subst hp
      obtain rfl : u = v := some.inj (hrun.symm.trans (hs.alive_run hold))
      simp [Aio.raised, executed, Action.accepts, Outcome.executes, eventOf, h.alive u o hold,
        eventsFor]
    · have huv : u ≠ v := by
        rintro rfl
        exact hp (hs.alive_inj (hs.visited u o hrun hvis) hold rfl).2
      simp [Aio.raised, executed, Action.accepts, Outcome.executes, eventOf, h.alive v p hold,
        eventsFor, hp, huv]
  gone := by
    intro p hp
    have hne : o ≠ p := by
      rintro rfl
      exact hp u (hs.visited u o hrun hvis)
    simpa [Aio.raised, executed, Action.accepts, Outcome.executes, eventOf, hne] using h.gone p hp
  stopped := h.stopped_cons nofun rfl (fun _ _ hu => hu)

theorem executed {xs : List (ExecStub E)} (hdue : s.due = ⟨u, .callObjectOnEvent e⟩ :: xs)
    (ho : s.Active u o) : Ledger ((.complete, .executed o e) :: tr) (Sound.popped s xs) where
  alive := by
    intro v p hv
    have hold := h.alive v p hv
    rw [Sound.line_cons hdue, eventsFor_cons] at hold
    by_cases hp : o = p
    · subst hp
      obtain rfl : u = v :=
        some.inj ((hs.active_run u o ho).symm.trans (hs.alive_run hv))
      simpa [Aio.raised, Aio.executed, Action.accepts, Outcome.executes, eventOf,
        ExecStub.event?] using hold
    · have huv : u ≠ v := by
        rintro rfl
        exact hp (hs.alive_inj ho.alive hv rfl).2
      simpa [Aio.raised, Aio.executed, Action.accepts, Outcome.executes, eventOf, hp, huv]
        using hold
  gone := by
    intro p hp
    have hne : o ≠ p := by
      rintro rfl
      exact hp u ho.alive
    simpa [Aio.raised, Aio.executed, Action.accepts, Outcome.executes, eventOf, hne]
      using h.gone p hp
  stopped := h.stopped_cons nofun rfl (fun _ _ hu => hu)

theorem doStop {xs : List (ExecStub E)} (hdue : s.due = ⟨u, .stopObject⟩ :: xs) (ho : s.Active u o)
    (hpop : Sound (Sound.popped s xs)) :
    Ledger ((.complete, .stopped o) :: tr) ((Sound.popped s xs).doStopObject u.index) := by
  have hraised : ∀ p, Aio.raised p ((.complete, .stopped o) :: tr) = Aio.raised p tr := by
    intro p
    simp [Aio.raised, Action.accepts, eventOf]
  have hexecuted : ∀ p, Aio.executed p ((.complete, .stopped o) :: tr) = Aio.executed p tr := by
    intro p
    simp [Aio.executed, Outcome.executes, eventOf]
  have halive : ∀ {v p}, ((Sound.popped s xs).doStopObject u.index).Alive v p ↔
      s.Alive v p ∧ p ≠ o := hpop.alive_doStopObject ho
  have hline : ∀ v, eventsFor v s.line = eventsFor v (Sound.popped s xs).line := by
    intro v
    rw [Sound.line_cons hdue, eventsFor_cons]
    simp [ExecStub.event?]
  refine ⟨?_, ?_, ?_⟩
  · intro v p hv
    rw [hraised, hexecuted, h.alive v p (halive.1 hv).1, hline]
    rfl
  · intro p hp
    rw [hraised, hexecuted]
    by_cases hpo : p = o
    · have hnone : eventsFor u (Sound.popped s xs).line = [] := by
        refine eventsFor_eq_nil ?_
        intro x hx hev
        refine hs.stop_last hdue rfl x hx ?_
        intro hf
        simp [ExecStub.event?, hf] at hev
      rw [hpo, h.alive u o ho.alive, hline, hnone, append_nil]
    · exact h.gone p (fun v hv => hp v (halive.2 ⟨hv, hpo⟩))
  · intro b p hb
    rcases mem_cons.1 hb with hb | hb
    · cases hb
      have hrun : s.runId o = some u := hs.active_run u o ho
      refine ⟨?_, fun v hv => (halive.1 hv).2 rfl⟩
      intro hnone
      cases hrun.symm.trans hnone
    · obtain ⟨hrun, hgone⟩ := h.stopped b p hb
      exact ⟨hrun, fun v hv => hgone v (halive.1 hv).1⟩

/-- **The ledger of every step.** -/
theorem step {out : Outcome O E}
    (heffect : Sound.Effect s a out s') : Ledger ((a, out) :: tr) s' := by
  cases heffect with
  | quiet ha hkeeps => exact h.quiet hkeeps ha
  | pushed hnew htakes => exact h.pushed hs hnew htakes
  | raised hrun hvis => exact h.raised hs hrun hvis
  | executed hdue ho => exact h.executed hs hdue ho
  | stopped hphase hdue ho => exact h.doStop hs hdue ho (hs.pop hdue (Or.inr hphase))

end

theorem executed_prefix_raised (h : Ledger tr s) (o : O) :
    Aio.executed o tr <+: Aio.raised o tr := by
  by_cases hu : ∃ u, s.Alive u o
  · obtain ⟨u, hu⟩ := hu
    exact ⟨_, (h.alive u o hu).symm⟩
  · exact ⟨[], by rw [append_nil, h.gone o (not_exists.1 hu)]⟩

end Ledger

/-- The events of an object that wait for a fetch become more only when one is accepted. -/
theorem Sound.unfetched_step (hs : Sound s) {a : Action O E} {out : Outcome O E} {u : UniqueId}
    {o : O} (heffect : Effect s a out s') (hu : s'.Alive u o) :
    (eventsFor u s'.unfetched).length ≤
        (eventsFor u s.unfetched).length + (eventOf o a.accepts).length ∧
      (s.Alive u o ∨ eventsFor u s.unfetched = []) := by
  cases heffect with
  | quiet ha hkeeps =>
    refine ⟨?_, Or.inl ((hkeeps.alive u o).1 hu)⟩
    rcases hkeeps.unfetched with hq | hq
    · rw [hq]
      exact Nat.le_add_right _ _
    · simp [hq, eventsFor]
  | @pushed v p e uids n hnew htakes =>
    have hline : eventsFor v s.line = eventsFor v
      (s.due ++ s.exeq ++ (s.fetchedtsks.map (·.entry) ++
        s.fetchedevents.map (·.entry))) ++ eventsFor v s.unfetched := by
      rw [← eventsFor_append, append_assoc (s.due ++ s.exeq)]
      rfl
    have hq : eventsFor u (Sound.pushed s ⟨v, p, e⟩ uids n).unfetched =
        eventsFor u (s.pushtskvec.map (·.entry)) ++ ((if v = u then [e] else []) ++
          eventsFor u (s.raisevec.map (·.entry))) := by
      have hinsert : (Sound.pushed s ⟨v, p, e⟩ uids n).unfetched =
          s.pushtskvec.map (·.entry) ++ (⟨v, p, e⟩ : NewTaskStub O E).entry ::
            s.raisevec.map (·.entry) := by
        simp [unfetched, Sound.pushed]
      rw [hinsert, eventsFor_append, eventsFor_cons]
      rfl
    have hq' : eventsFor u s.unfetched = eventsFor u (s.pushtskvec.map (·.entry)) ++
        eventsFor u (s.raisevec.map (·.entry)) := eventsFor_append ..
    rcases Sound.alive_pushed.1 hu with hold | ⟨rfl, rfl⟩
    · refine ⟨?_, Or.inl hold⟩
      simp [hq, hq', htakes.ne hold]
    · have hnone := htakes.eventsFor_line hs
      rw [hline, append_eq_nil_iff] at hnone
      refine ⟨?_, Or.inr hnone.2⟩
      simp only [hq, hq', Action.accepts, eventOf, if_true, length_append, length_singleton]
      omega
  | @raised v p e hrun hvis =>
    refine ⟨?_, Or.inl hu⟩
    have hq : eventsFor u ({ s with raisevec := s.raisevec ++ [⟨v, e⟩] } : Reactor O E).unfetched =
        eventsFor u s.unfetched ++ if v = u then [e] else [] := by
      have happend : ({ s with raisevec := s.raisevec ++ [⟨v, e⟩] } : Reactor O E).unfetched =
          s.unfetched ++ [(⟨v, e⟩ : RaiseEventStub E).entry] := by
        simp [unfetched]
      rw [happend, eventsFor_append, eventsFor_cons]
      exact congrArg _ (append_nil _)
    rw [hq, length_append]
    by_cases hvu : v = u
    · subst hvu
      obtain ⟨-, rfl⟩ := hs.alive_inj (hs.visited v p hrun hvis) hu rfl
      simp [Action.accepts, eventOf]
    · simp [hvu]
  | executed => exact ⟨Nat.le_add_right _ _, Or.inl hu⟩
  | stopped hphase hdue ho =>
    have hpop := hs.pop hdue (Or.inr hphase)
    exact ⟨Nat.le_add_right _ _, Or.inl ((hpop.alive_doStopObject ho).1 hu).1⟩

end

end Reactor

/-! ## Runs -/

section
variable {O E : Type} [DecidableEq O] {tr before after : List (Action O E × Outcome O E)}
  {s : Reactor O E} {o : O}

open Reactor

theorem Run.ledger (h : Run tr s) : Sound s ∧ Ledger tr s := by
  induction h with
  | start => exact ⟨.start, .start⟩
  | step _ a hexec ih =>
    obtain ⟨hsound, heffect⟩ := ih.1.exec hexec
    exact ⟨hsound, ih.2.step ih.1 heffect⟩

theorem raised_prefix_append (o : O) (x : Action O E × Outcome O E)
    (after before : List (Action O E × Outcome O E)) :
    raised o before <+: raised o (after ++ x :: before) := by
  induction after with
  | nil => exact prefix_append _ _
  | cons y after ih => exact ih.trans (prefix_append _ _)

theorem executed_prefix_append (o : O) (x : Action O E × Outcome O E)
    (after before : List (Action O E × Outcome O E)) :
    executed o before <+: executed o (after ++ x :: before) := by
  induction after with
  | nil => exact prefix_append _ _
  | cons y after ih => exact ih.trans (prefix_append _ _)

/-- An object that was stopped is not visited any more, so nothing is raised for it. -/
theorem Run.raised_after_stop {a : Action O E} (h : Run (after ++ (a, .stopped o) :: before) s) :
    raised o (after ++ (a, .stopped o) :: before) = raised o before := by
  induction after generalizing s with
  | nil =>
    obtain _ | ⟨hrun, a, hexec⟩ := h
    obtain ⟨-, heffect⟩ := hrun.ledger.1.exec hexec
    cases heffect
    simp [raised, Action.accepts, eventOf]
  | cons x after ih =>
    obtain _ | ⟨hrun, b, hexec⟩ := h
    obtain ⟨hsound, hledger⟩ := hrun.ledger
    obtain ⟨hknown, hgone⟩ := hledger.stopped a o (by simp)
    obtain ⟨-, heffect⟩ := hsound.exec hexec
    rw [cons_append, raised, ih hrun]
    cases heffect with
    | quiet ha => simp [ha, eventOf]
    | @pushed u p e uids n hnew =>
      have hne : p ≠ o := by
        rintro rfl
        exact hknown hnew
      simp [Action.accepts, eventOf, hne]
    | @raised u p e hrunId hvis =>
      have hne : p ≠ o := by
        rintro rfl
        exact hgone u (hsound.visited u p hrunId hvis)
      simp [Action.accepts, eventOf, hne]
    | executed => simp [Action.accepts, eventOf]
    | stopped => simp [Action.accepts, eventOf]

variable {b : Bool}

theorem Run.unfetched_le {out : Outcome O E}
    (h : Run (after ++ (.swap b, out) :: before) s) (u : UniqueId) (hu : s.Alive u o) :
    (eventsFor u s.unfetched).length + (raised o before).length ≤
      (raised o (after ++ (.swap b, out) :: before)).length := by
  induction after generalizing s u o with
  | nil =>
    obtain _ | ⟨hrun, a, hexec⟩ := h
    obtain ⟨s', hs', heq⟩ := map_eq_some_iff.1 hexec
    cases heq
    obtain ⟨-, -, hempty⟩ := hrun.ledger.1.swap hs'
    simp [hempty, eventsFor, raised, Action.accepts, eventOf]
  | cons x after ih =>
    obtain _ | ⟨hrun, a, hexec⟩ := h
    obtain ⟨hsound, hledger⟩ := hrun.ledger
    obtain ⟨-, heffect⟩ := hsound.exec hexec
    have hmono := (raised_prefix_append o (.swap b, out) after before).length_le
    obtain ⟨hle, hcases⟩ := hsound.unfetched_step heffect hu
    rw [cons_append, raised, length_append]
    rcases hcases with hold | hnone
    · have hbound := ih hrun u hold
      simp only [append_eq] at *
      omega
    · rw [hnone, length_nil] at hle
      simp only [append_eq] at *
      omega

theorem Run.of_append (h : Run (after ++ before) s) : ∃ s', Run before s' := by
  induction after generalizing s with
  | nil => exact ⟨s, h⟩
  | cons x after ih =>
    obtain _ | ⟨hrun, a, hexec⟩ := h
    exact ih hrun

theorem Run.executed_at_stop {a : Action O E} (h : Run ((a, .stopped o) :: before) s) :
    executed o before = raised o before := by
  obtain ⟨-, hledger⟩ := h.ledger
  have hgone := hledger.gone o (hledger.stopped a o mem_cons_self).2
  have hraised : raised o ([] ++ (a, .stopped o) :: before) = raised o before :=
    h.raised_after_stop
  rw [nil_append] at hraised
  rw [hraised] at hgone
  simpa [executed, Outcome.executes, eventOf] using hgone.symm

theorem Run.executed_of_fetched {out : Outcome O E}
    (h : Run (after ++ (.swap b, out) :: before) s) (hphase : s.phase = .exec)
    (hdue : s.due = []) : raised o before <+: executed o (after ++ (.swap b, out) :: before) := by
  obtain ⟨hsound, hledger⟩ := h.ledger
  have hbefore := raised_prefix_append o (.swap b, out) after before
  by_cases hu : ∃ u, s.Alive u o
  · obtain ⟨u, hu⟩ := hu
    have hline : eventsFor u s.line = eventsFor u s.unfetched := by
      obtain ⟨htsks, hevents⟩ := hsound.loaded (by simp [hphase])
      have hexeq : eventsFor u s.exeq = [] :=
        eventsFor_eq_nil fun x hx hev => absurd (hsound.posted (Or.inl hphase) x hx) hev
      simp [line, waiting, hdue, htsks, hevents, eventsFor_append, hexeq]
    have hsplit := hledger.alive u o hu
    rw [hline] at hsplit
    have hle := h.unfetched_le u hu
    refine prefix_of_prefix_length_le hbefore ⟨_, hsplit.symm⟩ ?_
    rw [hsplit, length_append] at hle
    omega
  · rw [← hledger.gone o (not_exists.1 hu)]
    exact hbefore

/-! ## The reactor goes on

The steps of the reactor alone bring every run to the end of an iteration that began with
a fetch. -/

/-- The run `tr'` continues `tr` by steps that accept no event. -/
inductive Continues (tr : List (Action O E × Outcome O E)) (s : Reactor O E) :
    List (Action O E × Outcome O E) → Reactor O E → Prop where
  | refl : Continues tr s tr s
  | step {tr'} {s' s'' : Reactor O E} {out} (h : Continues tr s tr' s') (a : Action O E) (ha :
      a.accepts = none) (hexec : s'.exec a = some (s'', out)) : Continues tr s ((a, out) :: tr') s''

namespace Continues

variable {tr₁ tr₂ : List (Action O E × Outcome O E)} {s₁ s₂ : Reactor O E}

theorem trans (h : Continues tr s tr₁ s₁) (h' : Continues tr₁ s₁ tr₂ s₂) :
    Continues tr s tr₂ s₂ := by
  induction h' with
  | refl => exact h
  | step _ a ha hexec ih => exact ih.step a ha hexec

theorem run (h : Continues tr s tr₁ s₁) (hrun : Run tr s) : Run tr₁ s₁ := by
  induction h with
  | refl => exact hrun
  | step _ a _ hexec ih => exact ih.step a hexec

theorem raised_eq (h : Continues tr s tr₁ s₁) (o : O) : raised o tr₁ = raised o tr := by
  induction h with
  | refl => rfl
  | step _ a ha _ ih => simp [raised, ha, eventOf, ih]

theorem append_eq (h : Continues tr s tr₁ s₁) : ∃ after, tr₁ = after ++ tr := by
  induction h with
  | refl => exact ⟨[], rfl⟩
  | @step tr' s' s'' out _ a _ _ ih =>
    obtain ⟨after, rfl⟩ := ih
    exact ⟨(a, out) :: after, rfl⟩

end Continues

omit [DecidableEq O] in
theorem Reactor.Sound.complete_total (h : Sound s) {x : ExecStub E} {xs : List (ExecStub E)}
    (hphase : s.phase = .running) (hdue : s.due = x :: xs) :
    ∃ s' out, s.complete = some (s', out) ∧ s'.phase = .exec ∧ s'.due = xs := by
  have hobj : x.exefnc ≠ .posted → ∃ o, (s.objdq x.objuid.index).objptr = some o := by
    intro hf
    obtain ⟨o, ho⟩ := h.queued x (by simp [hdue]) hf
    exact ⟨o, by rw [ho]⟩
  simp only [Reactor.complete, hphase, hdue]
  cases hf : x.exefnc with
  | callObjectOnEvent e =>
    obtain ⟨o, ho⟩ := hobj (by simp [hf])
    simp [ho]
  | stopObjectRepost => simp [Reactor.pushExec]
  | stopObject =>
    obtain ⟨o, ho⟩ := hobj (by simp [hf])
    simp [ho, Reactor.doStopObject]
  | posted => simp

theorem Run.exec_due (xs : List (ExecStub E)) : ∀ {tr : List (Action O E × Outcome O E)}
    {s : Reactor O E}, Run tr s → s.phase = .exec → s.due = xs →
      ∃ tr' s', Continues tr s tr' s' ∧ s'.phase = .exec ∧ s'.due = [] := by
  induction xs with
  | nil => exact fun _ hphase hdue => ⟨_, _, .refl, hphase, hdue⟩
  | cons x xs ih =>
    intro tr s hrun hphase hdue
    by_cases hcond : (s.objdq x.objuid.index).unique = x.objuid.unique ∧ x.onChannel true
    · have hexec : s.exec (.execute true) = some ({ s with phase := .running }, .quiet) := by
        simp [exec, execute, hphase, hdue, hcond]
      have hrun1 := hrun.step _ hexec
      obtain ⟨s₂, out, hcomplete, hphase2, hdue2⟩ := hrun1.ledger.1.complete_total rfl hdue
      obtain ⟨tr', s', hcont, hend⟩ := ih (hrun1.step .complete hcomplete) hphase2 hdue2
      exact ⟨tr', s', ((Continues.refl.step _ rfl hexec).step .complete rfl hcomplete).trans hcont,
        hend⟩
    · have hexec : s.exec (.execute true) = some ({ s with due := xs }, .quiet) := by
        simp [exec, execute, hphase, hdue, hcond]
      obtain ⟨tr', s', hcont, hend⟩ := ih (hrun.step _ hexec) hphase rfl
      exact ⟨tr', s', (Continues.refl.step _ rfl hexec).trans hcont, hend⟩

theorem Run.exec_fetched (h : Run tr s) (hphase : s.phase = .fetched) :
    ∃ tr' s', Continues tr s tr' s' ∧ s'.phase = .exec ∧ s'.due = [] := by
  have hexec : s.exec .beginExec =
      some ({ s with due := s.exeq, exeq := [], phase := .exec }, .quiet) := by
    simp [exec, beginExec, hphase]
  obtain ⟨tr', s', hcont, hend⟩ := (h.step _ hexec).exec_due s.exeq rfl rfl
  exact ⟨tr', s', (Continues.refl.step _ rfl hexec).trans hcont, hend⟩

theorem Continues.load (tr : List (Action O E × Outcome O E)) (hphase : s.phase = .loading b) :
    ∃ tr' s', Continues tr s tr' s' ∧ s'.phase = if b then .fetched else .io := by
  obtain ⟨s', hload, hphase'⟩ : ∃ s', s.load = some s' ∧ s'.phase =
    if b then .fetched else .io := by
    simp [Reactor.load, hphase]
  have hexec : s.exec .load = some (s', .quiet) := by
    simp [Reactor.exec, hload]
  exact ⟨_, s', Continues.refl.step _ rfl hexec, hphase'⟩

theorem Run.to_io (h : Run tr s) : ∃ tr' s', Continues tr s tr' s' ∧ s'.phase = .io := by
  have hend : ∀ {tr₁ s₁}, Continues tr s tr₁ s₁ → s₁.phase = .exec ∧ s₁.due = [] →
      ∃ tr' s', Continues tr s tr' s' ∧ s'.phase = .io := by
    intro tr₁ s₁ hcont hs1
    have hexec : s₁.exec .endExec = some ({ s₁ with phase := .io }, .quiet) := by
      simp [exec, endExec, hs1]
    exact ⟨_, _, hcont.step _ rfl hexec, rfl⟩
  have hfetched : ∀ {tr₁ s₁}, Continues tr s tr₁ s₁ → s₁.phase = .fetched →
      ∃ tr' s', Continues tr s tr' s' ∧ s'.phase = .io := by
    intro tr₁ s₁ hcont hs1
    obtain ⟨tr₂, s₂, hcont2, hs2⟩ := (hcont.run h).exec_fetched hs1
    exact hend (hcont.trans hcont2) hs2
  cases hphase : s.phase with
  | io => exact ⟨tr, s, .refl, hphase⟩
  | loading b =>
    obtain ⟨tr₁, s₁, hcont, hs1⟩ := Continues.load tr hphase
    cases b with
    | false => exact ⟨tr₁, s₁, hcont, hs1⟩
    | true => exact hfetched hcont hs1
  | fetched => exact hfetched .refl hphase
  | exec =>
    obtain ⟨tr₁, s₁, hcont, hs1⟩ := h.exec_due s.due hphase rfl
    exact hend hcont hs1
  | running =>
    obtain ⟨x, xs, hdue⟩ := exists_cons_of_ne_nil (h.ledger.1.running hphase)
    obtain ⟨s₁, out, hexec, hphase1, hdue1⟩ := h.ledger.1.complete_total hphase hdue
    obtain ⟨tr₂, s₂, hcont, hs2⟩ := (h.step .complete hexec).exec_due xs hphase1 hdue1
    exact hend ((Continues.refl.step .complete rfl hexec).trans hcont) hs2

/-- **The next iteration executes all that was accepted.** -/
theorem Run.all_executed (h : Run tr s) :
    ∃ tr' s', Continues tr s tr' s' ∧ ∀ o : O, executed o tr' = raised o tr := by
  obtain ⟨tr₁, s₁, hcont1, hphase1⟩ := h.to_io
  have hrun1 := hcont1.run h
  obtain ⟨s₂, hswap, hphase2⟩ : ∃ s₂, s₁.swap true = some s₂ ∧
      (s₂.phase = .fetched ∨ s₂.phase = .loading true) := by
    unfold Reactor.swap
    split_ifs <;> simp_all
  have hexec : s₁.exec (.swap true) = some (s₂, .quiet) := by
    simp [Reactor.exec, hswap]
  have hrun2 := hrun1.step _ hexec
  obtain ⟨tr3, s3, hcont3, hphase3⟩ : ∃ tr3 s3,
      Continues ((.swap true, .quiet) :: tr₁) s₂ tr3 s3 ∧ s3.phase = .fetched := by
    rcases hphase2 with hp | hp
    · exact ⟨_, s₂, .refl, hp⟩
    · exact Continues.load _ hp
  obtain ⟨tr4, s4, hcont4, hphase4, hdue4⟩ := (hcont3.run hrun2).exec_fetched hphase3
  have hcont := (Continues.refl.step _ rfl hexec).trans (hcont3.trans hcont4)
  refine ⟨tr4, s4, hcont1.trans hcont, fun o => ?_⟩
  obtain ⟨after, rfl⟩ := (hcont3.trans hcont4).append_eq
  have hrun4 := hcont.run hrun1
  have hge := hrun4.executed_of_fetched (o := o) hphase4 hdue4
  have hle := hrun4.ledger.2.executed_prefix_raised o
  rw [hcont.raised_eq o] at hle
  rw [← hcont1.raised_eq o]
  exact hle.eq_of_length_le hge.length_le

/-- **A notification reaches its object before the object stops.**  In every run the events
    executed on an object are the first of those accepted for it, each once and in order.
    When `doStopObject` runs, all of them have been executed, and none is accepted or
    executed later.  Whatever was accepted before a fetch has been executed when the
    iteration has executed its entries, and the reactor always gets there. -/
theorem event_reaches_object (h : Run tr s) (o : O) : executed o tr <+: raised o tr ∧
      (∀ a after before, tr = after ++ (a, .stopped o) :: before →
        executed o before = raised o before ∧ raised o tr = raised o before ∧
          executed o tr = executed o before) ∧
      (∀ b out after before, tr = after ++ (.swap b, out) :: before → s.phase = .exec →
        s.due = [] → raised o before <+: executed o tr) ∧
      ∃ tr' s', Continues tr s tr' s' ∧ executed o tr' = raised o tr := by
  have hfirst := h.ledger.2.executed_prefix_raised o
  refine ⟨hfirst, ?_, ?_, ?_⟩
  · rintro a after before rfl
    obtain ⟨s', hstop⟩ := h.of_append
    have hall := hstop.executed_at_stop
    have hraised := h.raised_after_stop
    refine ⟨hall, hraised, ?_⟩
    -- between what was executed at the stop and what was raised there is no room
    have hmono := executed_prefix_append o (a, .stopped o) after before
    rw [hraised, ← hall] at hfirst
    exact hfirst.eq_of_length_le hmono.length_le
  · rintro b out after before rfl hphase hdue
    exact h.executed_of_fetched hphase hdue
  · obtain ⟨tr', s', hcont, hall⟩ := h.all_executed
    exact ⟨tr', s', hcont, hall o⟩

end

/-- Object `0` is stopped by the handler of its first event, with one event queued and one
    raised meanwhile; a later object gets its index. -/
theorem event_reaches_object_reused : ∃ (tr : List (Action ℕ ℕ × Outcome ℕ ℕ))
    (s : Reactor ℕ ℕ), Run tr s ∧ raised 0 tr = [7, 8, 9] ∧ executed 0 tr = [7, 8, 9] ∧
      (.complete, .stopped 0) ∈ tr ∧ s.runId 0 = some ⟨1, 0⟩ ∧ s.runId 2 = some ⟨1, 1⟩ ∧
      executed 0 tr <+: raised 0 tr := by
  have h1 := Run.start.step (.push 0 7) rfl
  have h2 := h1.step (.raise 0 8) rfl
  have h3 := h2.step (.swap true) rfl
  have h4 := h3.step .load rfl
  have h5 := h4.step .beginExec rfl
  have h6 := h5.step (.execute true) rfl
  have h7 := h6.step (.raise 0 9) rfl
  have h8 := h7.step (.postStop 1) rfl
  have h9 := h8.step .complete rfl
  have h10 := h9.step (.execute true) rfl
  have h11 := h10.step .complete rfl
  have h12 := h11.step .endExec rfl
  have h13 := h12.step (.swap true) rfl
  have h14 := h13.step .load rfl
  have h15 := h14.step .beginExec rfl
  have h16 := h15.step (.execute true) rfl
  have h17 := h16.step .complete rfl
  have h18 := h17.step (.execute true) rfl
  have h19 := h18.step .complete rfl
  have h20 := h19.step .endExec rfl
  have h21 := h20.step (.swap true) rfl
  have h22 := h21.step .beginExec rfl
  have h23 := h22.step (.execute true) rfl
  have h24 := h23.step .complete rfl
  have h25 := h24.step .endExec rfl
  have h26 := h25.step (.push 1 5) rfl
  have h27 := h26.step (.swap true) rfl
  have h28 := h27.step (.push 2 6) rfl
  exact ⟨_, _, h28, rfl, rfl, by simp, rfl, rfl, (event_reaches_object h28 0).1⟩

end SolidFrame.Aio
