/-
  SolidFrame formalization — the timers of a reactor
  (solid/frame/timestore.hpp, solid/frame/src/reactor.cpp, solid/frame/timer.hpp).

  A `TimeStore` is a vector of times and owners, without order, and a cached
  minimum.  An owner (a `Timer`) records the position of its entry; an entry is
  removed by moving the last one to its place, whose owner is told the new
  position.  `pop(now, fire, moved)` walks over the vector, removes and fires the
  entries that are due, and recomputes the minimum over those it passes.  The
  handlers it runs may arm and cancel timers.
-/
import Mathlib.Tactic
import Mathlib.Data.Prod.Lex
import SolidFrame.Lib.SwapRemove

namespace SolidFrame

open Function List

variable {T V : Type} [DecidableEq V]

/-! ## The store -/

/-- `NanoTime`: seconds, then nanoseconds. -/
abbrev NanoTime := Lex (ℕ × ℤ)

/-- `NanoTime(-1, -1)`. -/
def NanoTime.maximum : NanoTime := toLex (2 ^ 64 - 1, -1)

/-- `tv` and `mint`; `T` is `NanoTime`, of which only the order is used. -/
structure TimeStore (T V : Type) where
  tv : List (T × V)
  mint : T

namespace TimeStore

/-- `push`; the index it returns is the old size. -/
def push [LinearOrder T] (s : TimeStore T V) (t : T) (v : V) : TimeStore T V where
  tv := s.tv ++ [(t, v)]
  mint := if t < s.mint then t else s.mint

def change [LinearOrder T] (s : TimeStore T V) (idx : ℕ) (t : T) : TimeStore T V where
  tv := s.tv.modify idx fun e => (t, e.2)
  mint := if t < s.mint then t else s.mint

/-- `pop(idx, moved)`; `moved` is called if there is an entry at `idx` afterwards. -/
def popAt (s : TimeStore T V) (idx : ℕ) : TimeStore T V × Option V :=
  let tv := swapRemove s.tv idx
  ({ s with tv := tv }, (tv[idx]?).map Prod.snd)

end TimeStore

structure Timers (T V : Type) where
  store : TimeStore T V
  storeidx : V → Option ℕ

namespace Timers

/-- The entry of `v` at `idx` is removed: `doUpdateTimerIndex` for the owner of the
    entry moved there, and `v` has no position any more. -/
def removeAt (s : Timers T V) (idx : ℕ) (v : V) : Timers T V :=
  let r := s.store.popAt idx
  { store := r.1
    storeidx := update
      (match r.2 with
        | some w => update s.storeidx w (some idx)
        | none => s.storeidx) v none }

def empty (maximum : T) : Timers T V where
  store := { tv := [], mint := maximum }
  storeidx _ := none

/-- `Reactor::addTimer`. -/
def addTimer [LinearOrder T] (s : Timers T V) (v : V) (t : T) : Timers T V :=
  match s.storeidx v with
  | some idx => { s with store := s.store.change idx t }
  | none =>
    { store := s.store.push t v
      storeidx := update s.storeidx v (some s.store.tv.length) }

/-- `Reactor::remTimer`, with the reset of `storeidx` in `Timer::doClear`. -/
def remTimer (s : Timers T V) (v : V) : Timers T V :=
  match s.storeidx v with
  | some idx => s.removeAt idx v
  | none => s

/-- Every owner has recorded the position of its entry, and only owners of entries
    have recorded one. -/
def Owned (s : Timers T V) : Prop :=
  ∀ v k, s.storeidx v = some k ↔ (s.store.tv[k]?).map Prod.snd = some v

end Timers

/-! ## The loop of `pop` -/

/-- What a handler asks for: `waitUntil` and `cancel`. -/
inductive TimerRequest (T V : Type) where
  | add (v : V) (t : T)
  | rem (v : V)

/-- What happened to the timers, as far as arming is concerned. -/
inductive TimerEvent (T V : Type) where
  | armed (v : V)
  | removed (v : V)
  | fired (v : V) (t : T)
  deriving DecidableEq

/-- The variables of the loop; `firing` while the handler of an entry runs, which
    was called with the position `i`.  The last event is first. -/
structure PopState (T V : Type) where
  timers : Timers T V
  i : ℕ
  crtmin : T
  firing : Bool
  log : List (TimerEvent T V)

inductive PopAction (T V : Type) where
  /-- one turn of the loop -/
  | visit
  /-- a request of the handler that the last turn called -/
  | request (r : TimerRequest T V)

namespace PopState

/-- `maximum` is `NanoTime::maximum`. -/
def start (maximum : T) (s : Timers T V) : PopState T V :=
  { timers := s, i := 0, crtmin := maximum, firing := false, log := [] }

def request [LinearOrder T] (s : PopState T V) : TimerRequest T V → PopState T V
  | .add v t => { s with
      timers := s.timers.addTimer v t
      log := if (s.timers.storeidx v).isSome then s.log else .armed v :: s.log }
  | .rem v => { s with
      timers := s.timers.remTimer v
      log := if (s.timers.storeidx v).isSome then .removed v :: s.log else s.log }

/-- A turn of the loop passes the entry at `i`, or removes and fires it. -/
def exec [LinearOrder T] (now : T) (s : PopState T V) : PopAction T V → Option (PopState T V)
  | .visit =>
    match s.timers.store.tv[s.i]? with
    | none => none
    | some (t, v) =>
      if now < t then
        some { s with
          i := s.i + 1
          crtmin := if t < s.crtmin then t else s.crtmin
          firing := false }
      else
        some { s with
          timers := s.timers.removeAt s.i v
          firing := true
          log := .fired v t :: s.log }
  | .request r => if s.firing then some (s.request r) else none

/-- The loop is over: `mint = crtmin`. -/
def finish (s : PopState T V) : Timers T V :=
  { s.timers with store := { s.timers.store with mint := s.crtmin } }

end PopState

/-- The position a request writes a time to, and the time. -/
def TimerRequest.puts (s : Timers T V) : TimerRequest T V → Option (ℕ × T)
  | .add v t => some ((s.storeidx v).getD s.store.tv.length, t)
  | .rem v => (s.storeidx v).bind fun idx =>
      if idx + 1 < s.store.tv.length then s.store.tv.getLast?.map fun e => (idx, e.1) else none

/-- A request puts no time before the position of the loop, unless one that is not
    later is there already. -/
def PopState.keepsPassed [LinearOrder T] (s : PopState T V) : PopAction T V → Bool
  | .visit => true
  | .request r =>
    match r.puts s.timers with
    | some (p, t) => decide (s.i ≤ p) || (s.timers.store.tv.take s.i).any fun e => decide (e.1 ≤ t)
    | none => true

/-- The states of one call of `pop` in which every action is `ok`. -/
inductive PopRun [LinearOrder T] (now : T) (ok : PopState T V → PopAction T V → Prop)
    (s₀ : PopState T V) : PopState T V → Prop where
  | start : PopRun now ok s₀ s₀
  | step {s s' : PopState T V} {a} :
      PopRun now ok s₀ s →
      ok s a →
      s.exec now a = some s' →
      PopRun now ok s₀ s'

/-! ## Positions

Every operation leaves each owner with the position of its entry. -/

variable {idx : ℕ} {v : V}

namespace Timers

variable {s : Timers T V}

omit [DecidableEq V] in
theorem owned_iff : s.Owned ↔ Indexes s.storeidx (s.store.tv.map Prod.snd) := by
  simp only [Owned, Indexes, getElem?_map]

/-- The owner `w` of the last entry gets the position of the removed one; it may be the
    owner that is removed. -/
theorem removeAt_storeidx
    (hv : (s.store.tv[idx]?).map Prod.snd = some v) :
    ∃ w, (s.store.tv.map Prod.snd).getLast? = some w ∧ (s.removeAt idx v).storeidx =
      update (update s.storeidx w (some idx)) v none := by
  obtain ⟨e, he, rfl⟩ := Option.map_eq_some_iff.1 hv
  have hidx : idx < s.store.tv.length := (List.getElem?_eq_some_iff.1 he).1
  rw [List.getLast?_map]
  by_cases hinner : idx + 1 < s.store.tv.length
  · obtain ⟨w, hw⟩ : ∃ w, s.store.tv.getLast? = some w :=
      ⟨_, List.getLast?_eq_some_getLast (List.ne_nil_of_length_pos (by omega))⟩
    have hmoved : (swapRemove s.store.tv idx)[idx]? = some w := by
      rw [getElem?_swapRemove, if_pos hinner, if_pos rfl, hw]
    exact ⟨w.2, by rw [hw]; rfl, by simp [removeAt, TimeStore.popAt, hmoved]⟩
  · have hlast : s.store.tv.getLast? = some e := by
      rw [List.getLast?_eq_getElem?, ← he]
      congr 1
      omega
    have hnone : (swapRemove s.store.tv idx)[idx]? = none := by
      rw [getElem?_swapRemove, if_neg hinner]
    refine ⟨e.2, by rw [hlast]; rfl, ?_⟩
    simp only [removeAt, TimeStore.popAt, hnone, Option.map_none, update_idem]

theorem removeAt_tv (s : Timers T V) (idx : ℕ) (v : V) :
    (s.removeAt idx v).store.tv = swapRemove s.store.tv idx := rfl

theorem Owned.removeAt (h : s.Owned)
    (hv : (s.store.tv[idx]?).map Prod.snd = some v) : (s.removeAt idx v).Owned := by
  obtain ⟨w, hw, hstoreidx⟩ := removeAt_storeidx hv
  rw [owned_iff, removeAt_tv, map_swapRemove, hstoreidx]
  exact (owned_iff.1 h).swapRemove (by rw [getElem?_map, hv]) hw

theorem Owned.addTimer [LinearOrder T] (h : s.Owned) (v : V) (t : T) : (s.addTimer v t).Owned := by
  unfold Timers.addTimer
  cases hv : s.storeidx v with
  | some idx =>
    intro u k
    rw [h u k]
    simp only [TimeStore.change, getElem?_modify]
    cases hk : s.store.tv[k]? with
    | none => simp
    | some e =>
      by_cases hik : idx = k <;> simp [hik]
  | none =>
    have hpush := (owned_iff.1 h).append hv
    rw [length_map] at hpush
    rw [owned_iff]
    simpa [TimeStore.push] using hpush

omit [DecidableEq V] in
theorem owned_empty (maximum : T) : (empty maximum : Timers T V).Owned :=
  fun _ _ => ⟨fun h => (by cases h), fun h => (by cases h)⟩

theorem Owned.removeAt_isSome (h : s.Owned)
    (hv : (s.store.tv[idx]?).map Prod.snd = some v) (u : V) :
    ((s.removeAt idx v).storeidx u).isSome = (decide (u ≠ v) && (s.storeidx u).isSome) := by
  obtain ⟨w, hw, hstoreidx⟩ := removeAt_storeidx hv
  rw [hstoreidx]
  rcases eq_or_ne u v with rfl | huv
  · simp
  rw [update_of_ne huv]
  rcases eq_or_ne u w with rfl | huw
  · rw [getLast?_eq_getElem?] at hw
    simp [(owned_iff.1 h u _).2 hw, huv]
  · simp [update_of_ne huw, huv]

end Timers

/-! ## Firing -/

/-- Whether `v` is armed after the given events, if it was armed before them as `b`
    says; `none` if it fired or was removed without being armed, or was armed
    twice. -/
def armedAfter (v : V) (b : Bool) : List (TimerEvent T V) → Option Bool
  | [] => some b
  | .armed w :: es =>
    if w = v then (armedAfter v b es).bind fun a => if a then none else some true
    else armedAfter v b es
  | .removed w :: es | .fired w _ :: es =>
    if w = v then (armedAfter v b es).bind fun a => if a then some false else none
    else armedAfter v b es

section

variable [LinearOrder T]

/-- What holds of the loop whatever the handlers ask for. -/
structure PopInv (now : T) (armed : V → Bool) (s : PopState T V) : Prop where
  owned : s.timers.Owned
  fired : ∀ v t, .fired v t ∈ s.log → t ≤ now
  alternates : ∀ v, armedAfter v (armed v) s.log = some (s.timers.storeidx v).isSome

namespace PopInv

variable {now : T} {armed : V → Bool} {s s' : PopState T V}

theorem removeAt (h : PopInv now armed s)
    (hv : (s.timers.store.tv[idx]?).map Prod.snd = some v) {e : TimerEvent T V}
    (he : e = .removed v ∨ ∃ t, t ≤ now ∧ e = .fired v t)
    (hs : s'.timers = s.timers.removeAt idx v) (hlog : s'.log = e :: s.log) :
    PopInv now armed s' := by
  have harmed : (s.timers.storeidx v).isSome := by
    rw [(h.owned v idx).2 hv]
    rfl
  refine ⟨hs ▸ h.owned.removeAt hv, ?_, fun u => ?_⟩
  · intro u t hmem
    rw [hlog] at hmem
    rcases mem_cons.1 hmem with rfl | hmem
    · rcases he with he | ⟨t', ht', he⟩
      · cases he
      · cases he
        exact ht'
    · exact h.fired u t hmem
  · have hstep : armedAfter u (armed u) (e :: s.log) =
        if v = u then (armedAfter u (armed u) s.log).bind fun a => if a then some false else none
        else armedAfter u (armed u) s.log := by
      rcases he with rfl | ⟨t, -, rfl⟩ <;> rfl
    rw [hlog, hstep, hs, h.owned.removeAt_isSome hv, h.alternates u]
    rcases eq_or_ne v u with rfl | huv
    · simp [harmed]
    · simp [huv, huv.symm]

theorem request (h : PopInv now armed s) (r : TimerRequest T V) :
    PopInv now armed (s.request r) := by
  cases r with
  | rem v =>
    cases hv : s.timers.storeidx v with
    | none =>
      have hsame : s.request (.rem v) = s := by
        simp [PopState.request, Timers.remTimer, hv]
      rwa [hsame]
    | some idx =>
      refine h.removeAt ((h.owned v idx).1 hv) (.inl rfl) ?_ ?_
      · simp [PopState.request, Timers.remTimer, hv]
      · simp [PopState.request, hv]
  | add v t =>
    refine ⟨h.owned.addTimer v t, ?_, fun u => ?_⟩
    · intro u t' hmem
      simp only [PopState.request] at hmem
      split_ifs at hmem
      · exact h.fired u t' hmem
      · exact h.fired u t' ((mem_cons.1 hmem).resolve_left (by simp))
    · cases hv : s.timers.storeidx v with
      | some idx =>
        simp only [PopState.request, Timers.addTimer, hv, Option.isSome_some, if_true]
        exact h.alternates u
      | none =>
        simp only [PopState.request, Timers.addTimer, hv, Option.isSome_none, Bool.false_eq_true,
          if_false, armedAfter, h.alternates u]
        rcases eq_or_ne v u with rfl | huv
        · simp [hv]
        · simp [huv, update_of_ne huv.symm]

theorem exec (h : PopInv now armed s) {a : PopAction T V} (hexec : s.exec now a = some s') :
    PopInv now armed s' := by
  cases a with
  | request r =>
    simp only [PopState.exec] at hexec
    split_ifs at hexec
    cases hexec
    exact h.request r
  | visit =>
    simp only [PopState.exec] at hexec
    split at hexec
    · cases hexec
    · next t v he =>
      by_cases hlate : now < t
      · rw [if_pos hlate] at hexec
        cases hexec
        exact ⟨h.owned, h.fired, h.alternates⟩
      · rw [if_neg hlate] at hexec
        cases hexec
        have hv : (s.timers.store.tv[s.i]?).map Prod.snd = some v := by
          rw [he]
          rfl
        exact h.removeAt hv (.inr ⟨t, not_lt.1 hlate, rfl⟩) rfl rfl

end PopInv

/-- The entries the loop has passed are not earlier than its minimum. -/
def PopState.Passed (s : PopState T V) : Prop :=
  ∀ k e, k < s.i → s.timers.store.tv[k]? = some e → s.crtmin ≤ e.1

namespace PopState.Passed

variable {now : T} {s s' : PopState T V}

omit [DecidableEq V] in
/-- A time put before the position of the loop is not earlier than its minimum. -/
theorem le_of_puts (h : s.Passed) {r : TimerRequest T V} {p : ℕ} {t : T}
    (hok : s.keepsPassed (.request r)) (hputs : r.puts s.timers = some (p, t))
    (hp : p < s.i) : s.crtmin ≤ t := by
  simp only [keepsPassed, hputs, Bool.or_eq_true, decide_eq_true_eq, any_eq_true] at hok
  rcases hok with hok | ⟨e, he, hle⟩
  · omega
  · obtain ⟨k, hk⟩ := mem_iff_getElem?.mp he
    rw [getElem?_take] at hk
    split_ifs at hk with hki
    exact (h k e hki hk).trans hle

theorem request (h : s.Passed) {r : TimerRequest T V}
    (hok : s.keepsPassed (.request r)) : (s.request r).Passed := by
  intro k e hk he
  cases r with
  | add v t =>
    show s.crtmin ≤ e.1
    simp only [PopState.request, Timers.addTimer] at hk he
    cases hv : s.timers.storeidx v with
    | some idx =>
      simp only [hv, TimeStore.change, getElem?_modify] at he
      obtain ⟨e', he', rfl⟩ := Option.map_eq_some_iff.1 he
      split_ifs with hik
      · exact h.le_of_puts hok (p := idx) (t := t) (by simp [TimerRequest.puts, hv]) (hik ▸ hk)
      · exact h k e' hk he'
    | none =>
      simp only [hv, TimeStore.push, getElem?_append] at he
      split_ifs at he with hlen
      · exact h k e hk he
      · have hkl : k = s.timers.store.tv.length := by
          by_contra hne
          rw [getElem?_eq_none (by simp; omega)] at he
          cases he
        subst hkl
        simp only [Nat.sub_self, getElem?_cons_zero, Option.some.injEq] at he
        subst he
        exact h.le_of_puts hok (p := s.timers.store.tv.length) (t := t)
          (by simp [TimerRequest.puts, hv]) hk
  | rem v =>
    show s.crtmin ≤ e.1
    simp only [PopState.request, Timers.remTimer] at hk he
    cases hv : s.timers.storeidx v with
    | none =>
      rw [hv] at he
      exact h k e hk he
    | some idx =>
      simp only [hv, Timers.removeAt_tv, getElem?_swapRemove] at he
      split_ifs at he with hlen hki
      · subst hki
        exact h.le_of_puts hok (p := k) (t := e.1)
          (by simp [TimerRequest.puts, hv, hlen, he]) hk
      · exact h k e hk he

theorem exec (h : s.Passed) {a : PopAction T V} (hok : s.keepsPassed a)
    (hexec : s.exec now a = some s') : s'.Passed := by
  cases a with
  | request r =>
    simp only [PopState.exec] at hexec
    split_ifs at hexec
    cases hexec
    exact h.request hok
  | visit =>
    simp only [PopState.exec] at hexec
    split at hexec
    · cases hexec
    · next t v he =>
      have hi : s.i < s.timers.store.tv.length := (List.getElem?_eq_some_iff.1 he).1
      by_cases hlate : now < t
      · rw [if_pos hlate] at hexec
        cases hexec
        intro k e hk hke
        have hmin : (if t < s.crtmin then t else s.crtmin) ≤ s.crtmin := by
          split_ifs with hlt
          · exact hlt.le
          · exact le_rfl
        rcases Nat.lt_succ_iff_lt_or_eq.1 hk with hk | rfl
        · exact hmin.trans (h k e hk hke)
        · obtain rfl : (t, v) = e := Option.some.inj (he.symm.trans hke)
          show (if t < s.crtmin then t else s.crtmin) ≤ t
          split_ifs with hlt
          · exact le_rfl
          · exact not_lt.1 hlt
      · rw [if_neg hlate] at hexec
        cases hexec
        intro k e hk hke
        rw [Timers.removeAt_tv, getElem?_swapRemove_of_lt hk hi] at hke
        exact h k e hk hke

end PopState.Passed

namespace PopRun

variable {now : T} {s₀ s : PopState T V} {ok : PopState T V → PopAction T V → Prop}

theorem inv {armed : V → Bool} (h : PopRun now ok s₀ s) (h0 : PopInv now armed s₀) :
    PopInv now armed s := by
  induction h with
  | start => exact h0
  | step _ _ hexec ih => exact ih.exec hexec

theorem passed (h : PopRun now (fun s a => s.keepsPassed a) s₀ s) (h0 : s₀.Passed) : s.Passed := by
  induction h with
  | start => exact h0
  | step _ hok hexec ih => exact ih.exec hok hexec

theorem exists_of_run [∀ s a, Decidable (ok s a)] (h : PopRun now ok s₀ s)
    (as : List (PopAction T V)) (P : PopState T V → Bool)
    (hrun : (as.foldlM (fun s a => if ok s a then s.exec now a else none) s).any P) :
    ∃ s', PopRun now ok s₀ s' ∧ P s' = true := by
  induction as generalizing s with
  | nil => exact ⟨s, h, by simpa using hrun⟩
  | cons a as ih =>
    rw [foldlM_cons] at hrun
    by_cases hok : ok s a
    · rw [if_pos hok] at hrun
      cases hexec : s.exec now a with
      | none => simp [hexec] at hrun
      | some s1 =>
        rw [hexec] at hrun
        exact ih (h.step hok hexec) hrun
    · rw [if_neg hok] at hrun
      simp at hrun

/-- Each turn of the loop leaves one entry less to visit, so a call whose handlers
    make no more requests returns. -/
theorem exists_finished (h : PopRun now (fun s a => s.keepsPassed a) s₀ s) :
    ∃ s', PopRun now (fun s a => s.keepsPassed a) s₀ s' ∧
      s'.timers.store.tv.length ≤ s'.i := by
  induction hn : s.timers.store.tv.length - s.i generalizing s with
  | zero => exact ⟨s, h, by omega⟩
  | succ n ih =>
    obtain ⟨⟨t, v⟩, he⟩ : ∃ e, s.timers.store.tv[s.i]? = some e :=
      ⟨_, getElem?_eq_getElem (by omega)⟩
    by_cases hlate : now < t
    · refine ih (h.step (a := .visit) rfl (by simp only [PopState.exec, he, if_pos hlate]; rfl)) ?_
      show s.timers.store.tv.length - (s.i + 1) = n
      omega
    · refine ih (h.step (a := .visit) rfl (by simp only [PopState.exec, he, if_neg hlate]; rfl)) ?_
      show (swapRemove s.timers.store.tv s.i).length - s.i = n
      rw [length_swapRemove]
      omega

/-- **A pass fires all that is due**, if the requests are `keepsPassed`. -/
theorem none_due {maximum : T} {timers : Timers T V} (hmax : now < maximum)
    (h : PopRun now (fun s a => s.keepsPassed a) (.start maximum timers) s)
    (hend : s.timers.store.tv.length ≤ s.i) : ∀ e ∈ s.timers.store.tv, now < e.1 := by
  have hpassed := h.passed (fun k e hk => by cases hk)
  have hmin : now < s.crtmin := by
    clear hend hpassed
    induction h with
    | start => exact hmax
    | @step _ _ a _ _ hexec _ =>
      cases a with
      | request r => cases r <;> grind [PopState.exec, PopState.request]
      | visit => grind [PopState.exec]
  refine List.forall_mem_iff_getElem.2 fun k hk => ?_
  exact hmin.trans_le (hpassed k _ (hk.trans_le hend) (getElem?_eq_getElem hk))

end PopRun

/-- **No timer is overslept.**  Whatever timers are stored, after a call of `pop`
    in which the requests of the handlers are `keepsPassed`: `next()` is at most the
    time of every entry, every owner has the position of its entry, nothing was
    fired before its time, and nothing fired twice for one arming. -/
theorem Timers.pop_next_le {now maximum : T} {timers : Timers T V} (h₀ : timers.Owned)
    {s : PopState T V}
    (h : PopRun now (fun s a => s.keepsPassed a = true) (.start maximum timers) s)
    (hend : s.timers.store.tv.length ≤ s.i) :
    (∀ e ∈ s.finish.store.tv, s.finish.store.mint ≤ e.1) ∧ s.finish.Owned ∧
      (∀ v t, .fired v t ∈ s.log → t ≤ now) ∧
      ∀ v, armedAfter v (timers.storeidx v).isSome s.log = some (s.finish.storeidx v).isSome := by
  have hstart : PopInv now (fun v => (timers.storeidx v).isSome) (.start maximum timers) :=
    ⟨h₀, by simp [PopState.start], fun v => rfl⟩
  have hinv := h.inv hstart
  refine ⟨fun e he => ?_, hinv.owned, hinv.fired, hinv.alternates⟩
  obtain ⟨k, hk⟩ := List.mem_iff_getElem?.mp he
  have hlt : k < s.timers.store.tv.length := (List.getElem?_eq_some_iff.1 hk).1
  exact h.passed (fun k e hk => by cases hk) k e (by omega) hk

end

def threeTimers : Timers NanoTime ℕ :=
  (((Timers.empty NanoTime.maximum).addTimer 0 (toLex (10, 0))).addTimer 1
    (toLex (5, 0))).addTimer 2 (toLex (7, 0))

theorem owned_threeTimers : threeTimers.Owned :=
  (((Timers.owned_empty _).addTimer _ _).addTimer _ _).addTimer _ _

/-- Two timers are due, and the handler of the first one that fires arms it again. -/
theorem PopRun.none_due_rearmed :
    ∃ s : PopState NanoTime ℕ, s.log = [.fired 2 (toLex (7, 0)), .armed 1,
        .fired 1 (toLex (5, 0))] ∧
      s.timers.store.tv.length = 2 ∧ ∀ e ∈ s.timers.store.tv, toLex (7, 0) < e.1 := by
  have hstart : PopRun (toLex (7, 0)) (fun s a => s.keepsPassed a)
      (.start NanoTime.maximum threeTimers) (.start NanoTime.maximum threeTimers) := .start
  obtain ⟨s, hrun, hP⟩ := hstart.exists_of_run
    [.visit, .visit, .request (.add 1 (toLex (9, 0))), .visit, .visit]
    (fun s => s.log = [.fired 2 (toLex (7, 0)), .armed 1, .fired 1 (toLex (5, 0))] ∧
      s.timers.store.tv.length = 2 ∧ s.i = 2)
    (by decide +kernel)
  obtain ⟨hlog, hlen, hi⟩ := of_decide_eq_true hP
  exact ⟨s, hlog, hlen, hrun.none_due (by decide) (by omega)⟩

/-- The handler of the second timer arms a new one for six seconds. -/
theorem Timers.pop_next_le_rearmed :
    ∃ s : PopState NanoTime ℕ, s.finish.store.mint = toLex (6, 0) ∧
      s.finish.store.tv.length = 3 ∧ ∀ e ∈ s.finish.store.tv, s.finish.store.mint ≤ e.1 := by
  have hstart : PopRun (toLex (5, 0)) (fun s a => s.keepsPassed a)
      (.start NanoTime.maximum threeTimers) (.start NanoTime.maximum threeTimers) := .start
  obtain ⟨s, hrun, hP⟩ := hstart.exists_of_run
    [.visit, .visit, .request (.add 3 (toLex (6, 0))), .visit, .visit]
    (fun s => s.crtmin = toLex (6, 0) ∧ s.timers.store.tv.length = 3 ∧ s.i = 3)
    (by decide +kernel)
  obtain ⟨hmin, hlen, hi⟩ := of_decide_eq_true hP
  exact ⟨s, hmin, hlen, (Timers.pop_next_le owned_threeTimers hrun (by omega)).1⟩

/-- The handler of the second timer cancels the first one, which the loop has
    passed: the third timer is moved to its place and neither visited nor counted. -/
theorem Timers.pop_oversleeps :
    ∃ s : PopState NanoTime ℕ,
      PopRun (toLex (5, 0)) (fun _ _ => True) (.start NanoTime.maximum threeTimers) s ∧
      s.timers.store.tv.length ≤ s.i ∧
      ∃ e ∈ s.finish.store.tv, e.1 < s.finish.store.mint := by
  have hstart : PopRun (toLex (5, 0)) (fun _ _ => True)
      (.start NanoTime.maximum threeTimers) (.start NanoTime.maximum threeTimers) := .start
  obtain ⟨s, hrun, hP⟩ := hstart.exists_of_run [.visit, .visit, .request (.rem 0)]
    (fun s => s.timers.store.tv.length ≤ s.i ∧ s.timers.store.tv = [(toLex (7, 0), 2)] ∧
      s.crtmin = toLex (10, 0)) (by decide +kernel)
  obtain ⟨hend, htv, hmin⟩ := of_decide_eq_true hP
  refine ⟨s, hrun, hend, (toLex (7, 0), 2), ?_, ?_⟩
  · show _ ∈ s.timers.store.tv
    rw [htv]
    exact mem_singleton_self _
  · show _ < s.crtmin
    rw [hmin]
    decide +kernel

end SolidFrame
