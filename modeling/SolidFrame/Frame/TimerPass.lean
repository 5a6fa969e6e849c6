/-
  SolidFrame formalization — one pass over the timers of a reactor
  (solid/frame/aio/src/aioreactor.cpp, solid/frame/aio/aiotimer.hpp,
  solid/system/nanotime.ipp).

  `doCompleteTimer(now)` calls `pop(now, …)` on the time store, with `now` also as
  the time of the context the handlers get: `waitFor(delay)` computes its deadline
  as `now + delay`.  The bound of the loop is the size of the vector the handlers
  push to.
-/
import SolidFrame.Frame.TimeStore

namespace SolidFrame

variable {T V : Type} [DecidableEq V]

/-! ## Deadlines -/

variable {t : NanoTime}

namespace NanoTime

/-- `add` and `operator +=`, which do the same: the seconds are unsigned 64-bit numbers, the
    nanoseconds are signed ones, divided with rounding to zero. -/
def add (t d : NanoTime) : NanoTime :=
  let nsec := ((ofLex t).2 + (ofLex d).2).bmod (2 ^ 64)
  toLex (((((ofLex t).1 + (ofLex d).1 : ℕ) + nsec.tdiv 1000000000 : ℤ) % 2 ^ 64).toNat,
    nsec.tmod 1000000000)

def zero : NanoTime := toLex (0, 0)

/-- The nanoseconds are less than a second. -/
def Normal (t : NanoTime) : Prop := 0 ≤ (ofLex t).2 ∧ (ofLex t).2 < 1000000000

instance (t : NanoTime) : Decidable t.Normal := inferInstanceAs (Decidable (_ ∧ _))

theorem add_eq {d : NanoTime} (ht : t.Normal) (hd : d.Normal)
    (hsec : (ofLex t).1 + (ofLex d).1 + 1 < 2 ^ 64) :
    t.add d = toLex ((ofLex t).1 + (ofLex d).1 + ((ofLex t).2 + (ofLex d).2).toNat / 1000000000,
      ((ofLex t).2 + (ofLex d).2) % 1000000000) := by
  obtain ⟨ht0, ht1⟩ := ht
  obtain ⟨hd0, hd1⟩ := hd
  have hnsec : ((ofLex t).2 + (ofLex d).2).bmod (2 ^ 64) = (ofLex t).2 + (ofLex d).2 :=
    Int.bmod_eq_of_le (by omega) (by omega)
  have hdiv := Int.tdiv_eq_ediv_of_nonneg (b := 1000000000) (Int.add_nonneg ht0 hd0)
  have hmod := Int.tmod_eq_emod_of_nonneg (b := 1000000000) (Int.add_nonneg ht0 hd0)
  simp only [add, hnsec, hdiv, hmod]
  congr 2
  rw [Int.emod_eq_of_lt (by omega) (by omega)]
  omega

theorem lt_add_iff {d : NanoTime} (ht : t.Normal) (hd : d.Normal)
    (hsec : (ofLex t).1 + (ofLex d).1 + 1 < 2 ^ 64) : t < t.add d ↔ d ≠ zero := by
  have hzero : d = zero ↔ (ofLex d).1 = 0 ∧ (ofLex d).2 = 0 := Prod.ext_iff
  rw [add_eq ht hd hsec, Prod.Lex.lt_iff, Ne, hzero]
  obtain ⟨ht0, ht1⟩ := ht
  obtain ⟨hd0, hd1⟩ := hd
  simp only [ofLex_toLex]
  omega

/-! ## Arithmetic -/

/-- `operator +=` of milliseconds. -/
def addMsec (t : NanoTime) (msec : ℕ) : NanoTime :=
  t.add (toLex (msec / 1000, (msec % 1000 * 1000000 : ℕ)))

/-- `sub`: nothing is borrowed from the seconds. -/
def sub (t d : NanoTime) : NanoTime :=
  let nsec := ((ofLex t).2 - (ofLex d).2).bmod (2 ^ 64)
  toLex ((((ofLex t).1 - (ofLex d).1 - nsec.tdiv 1000000000 : ℤ) % 2 ^ 64).toNat,
    nsec.tmod 1000000000)

/-- `operator -=`. -/
def subAssign (t d : NanoTime) : NanoTime :=
  let nsec := (((ofLex t).2 + 1000000000).bmod (2 ^ 64) - (ofLex d).2).bmod (2 ^ 64)
  toLex ((((ofLex t).1 - (ofLex d).1 - 1 + nsec.tdiv 1000000000 : ℤ) % 2 ^ 64).toNat,
    nsec.tmod 1000000000)

/-- `operator -`. -/
def minus (t d : NanoTime) : NanoTime :=
  let sec : ℤ := (ofLex t).1 - (ofLex d).1
  let nsec := ((ofLex t).2 - (ofLex d).2).bmod (2 ^ 64)
  if nsec < 0 then toLex (((sec - 1) % 2 ^ 64).toNat, 1000000000 + nsec.tmod 1000000000)
  else toLex ((sec % 2 ^ 64).toNat, nsec)

/-- In nanoseconds. -/
def value (t : NanoTime) : ℤ := (ofLex t).1 * 10 ^ 9 + (ofLex t).2

/-- The normal form of a time that is not negative; `tv_sec` is a signed number. -/
def IsTime (t : NanoTime) : Prop := t.Normal ∧ (ofLex t).1 < 2 ^ 63

def Shows (t : NanoTime) (v : ℤ) : Prop := t.IsTime ∧ t.value = v

/-- Sums and differences that are times are exact, `sub` undoes `add`, and the comparison
    operators, which are those of pairs, compare the times. -/
structure Exact (a b : NanoTime) : Prop where
  add : a.value + b.value < 2 ^ 63 * 10 ^ 9 →
    (a.add b).Shows (a.value + b.value) ∧ (a.add b).sub b = a
  addMsec (msec : ℕ) : msec < 2 ^ 32 → a.value + msec * 10 ^ 6 < 2 ^ 63 * 10 ^ 9 →
    (a.addMsec msec).Shows (a.value + msec * 10 ^ 6)
  sub : b.value ≤ a.value → (a.sub b).Shows (a.value - b.value)
  subAssign : b.value ≤ a.value → (a.subAssign b).Shows (a.value - b.value)
  minus : b.value ≤ a.value → (a.minus b).Shows (a.value - b.value)
  order : (a < b ↔ a.value < b.value) ∧ (a ≤ b ↔ a.value ≤ b.value) ∧ (a = b ↔ a.value = b.value)
  lt_maximum : a < maximum

/-- Nanoseconds before the carry: the quotient is rounded to zero. -/
theorem carry {n : ℤ} (h : -10 ^ 9 < n) (h' : n < 2 ^ 62) : n.bmod (2 ^ 64) = n ∧
    n.tdiv 1000000000 = (if n < 0 then 0 else n / 10 ^ 9) ∧
      n.tmod 1000000000 = if n < 0 then n else n % 10 ^ 9 := by
  have hdiv : n.tdiv 1000000000 = if n < 0 then 0 else n / 10 ^ 9 := by
    rw [Int.tdiv_eq_ediv, show Int.sign 1000000000 = 1 from rfl]
    split_ifs <;> omega
  refine ⟨Int.bmod_eq_of_le (by omega) (by omega), hdiv, ?_⟩
  rw [Int.tmod_def, hdiv]
  split_ifs <;> omega

section
variable {a b : NanoTime} (ha : a.IsTime) (hb : b.IsTime)
include ha hb

theorem IsTime.add (hlt : a.value + b.value < 2 ^ 63 * 10 ^ 9) :
    (a.add b).Shows (a.value + b.value) := by
  rw [add_eq ha.1 hb.1 (by have := ha.2; have := hb.2; omega)]
  simp only [Shows, IsTime, Normal, value, ofLex_toLex] at *
  omega

theorem IsTime.sub_iff (hle : b.value ≤ a.value) :
    (a.sub b).Shows (a.value - b.value) ↔ (ofLex b).2 ≤ (ofLex a).2 := by
  simp only [IsTime, Normal, value] at ha hb hle
  obtain ⟨hmod, hdiv, hrem⟩ := carry (n := (ofLex a).2 - (ofLex b).2) (by omega) (by omega)
  simp only [NanoTime.sub, hmod, hdiv, hrem, Shows, IsTime, Normal, value, ofLex_toLex]
  split_ifs <;> omega

theorem IsTime.subAssign (hle : b.value ≤ a.value) :
    (a.subAssign b).Shows (a.value - b.value) := by
  simp only [IsTime, Normal, value] at ha hb hle
  have hplus := (carry (n := (ofLex a).2 + 1000000000) (by omega) (by omega)).1
  obtain ⟨hmod, hdiv, hrem⟩ :=
    carry (n := (ofLex a).2 + 1000000000 - (ofLex b).2) (by omega) (by omega)
  simp only [NanoTime.subAssign, hplus, hmod, hdiv, hrem, Shows, IsTime, Normal, value, ofLex_toLex]
  split_ifs <;> omega

theorem IsTime.minus (hle : b.value ≤ a.value) : (a.minus b).Shows (a.value - b.value) := by
  simp only [IsTime, Normal, value] at ha hb hle
  obtain ⟨hmod, -, hrem⟩ := carry (n := (ofLex a).2 - (ofLex b).2) (by omega) (by omega)
  simp only [NanoTime.minus, hmod, hrem]
  split_ifs <;> simp only [Shows, IsTime, Normal, value, ofLex_toLex] <;> omega

theorem IsTime.sub_add_iff (hlt : a.value + b.value < 2 ^ 63 * 10 ^ 9) :
    (a.add b).sub b = a ↔ (ofLex a).2 + (ofLex b).2 < 10 ^ 9 := by
  have hext : ∀ t : NanoTime, t = a ↔ (ofLex t).1 = (ofLex a).1 ∧ (ofLex t).2 = (ofLex a).2 :=
    fun _ => Prod.ext_iff
  rw [hext, add_eq ha.1 hb.1 (by have := ha.2; have := hb.2; omega)]
  simp only [IsTime, Normal, value] at ha hb hlt
  obtain ⟨hmod, hdiv, hrem⟩ :=
    carry (n := ((ofLex a).2 + (ofLex b).2) % 1000000000 - (ofLex b).2) (by omega) (by omega)
  simp only [NanoTime.sub, ofLex_toLex, hmod, hdiv, hrem]
  split_ifs <;> omega

/-- **The arithmetic is exact exactly when `sub` has nothing to borrow**, neither in the
    difference nor after a sum. -/
theorem exact_iff : a.Exact b ↔
    (a.value + b.value < 2 ^ 63 * 10 ^ 9 → (ofLex a).2 + (ofLex b).2 < 10 ^ 9) ∧
      (b.value ≤ a.value → (ofLex b).2 ≤ (ofLex a).2) := by
  constructor
  · intro h
    exact ⟨fun hlt => (ha.sub_add_iff hb hlt).1 (h.add hlt).2,
      fun hle => (ha.sub_iff hb hle).1 (h.sub hle)⟩
  · rintro ⟨hcarry, hborrow⟩
    refine ⟨fun hlt => ⟨ha.add hb hlt, (ha.sub_add_iff hb hlt).2 (hcarry hlt)⟩,
      fun msec hmsec hlt => ?_, fun hle => (ha.sub_iff hb hle).2 (hborrow hle), ha.subAssign hb,
      ha.minus hb, ?_, ?_⟩
    · have hvalue : value (toLex (msec / 1000, (msec % 1000 * 1000000 : ℕ))) = msec * 10 ^ 6 := by
        simp only [value, ofLex_toLex]
        omega
      rw [← hvalue] at hlt ⊢
      refine ha.add ?_ hlt
      simp only [IsTime, Normal, ofLex_toLex]
      omega
    · have hext : a = b ↔ (ofLex a).1 = (ofLex b).1 ∧ (ofLex a).2 = (ofLex b).2 := Prod.ext_iff
      rw [Prod.Lex.lt_iff, Prod.Lex.le_iff, hext]
      simp only [IsTime, Normal, value] at *
      omega
    · have hsec := ha.2
      rw [Prod.Lex.lt_iff]
      simp only [maximum, ofLex_toLex]
      omega

end

/-- Two times with fractions of a second, the sum of which is less than a second. -/
theorem exact_fractions : Exact (toLex (5, 700000000)) (toLex (2, 250000000)) ∧
    add (toLex (5, 700000000)) (toLex (2, 250000000)) = toLex (7, 950000000) ∧
    sub (toLex (5, 700000000)) (toLex (2, 250000000)) = toLex (3, 450000000) :=
  ⟨(exact_iff ⟨by decide, by decide⟩ ⟨by decide, by decide⟩).2 (by decide), by decide, by decide⟩

/-- A second less one nanosecond. -/
theorem sub_negative : ¬ Shows (sub (toLex (1, 0)) (toLex (0, 1))) 999999999 := by
  intro h
  exact absurd h.1.1 (by decide)

end NanoTime

/-! ## The handlers -/

/-- The timer that fired last, if it was not armed since. -/
def rearming : List (TimerEvent T V) → Option V
  | .fired v _ :: _ => some v
  | .removed _ :: es => rearming es
  | _ => none

/-- What the handlers of a pass at `now` ask for: the handler of a fired timer calls
    `waitFor` for this timer at most once, with a delay `ok`, and cancels what it
    likes. -/
inductive Asks (now : NanoTime) (ok : NanoTime → Prop) (s : PopState NanoTime V) :
    PopAction NanoTime V → Prop where
  | visit : Asks now ok s .visit
  | cancel (v : V) : Asks now ok s (.request (.rem v))
  | waitFor (v : V) (delay : NanoTime) (hv : rearming s.log = some v) (hok : ok delay) :
      Asks now ok s (.request (.add v (now.add delay)))

def firings (log : List (TimerEvent T V)) : ℕ :=
  log.countP fun | .fired _ _ => true | _ => false

omit [DecidableEq V] in
theorem firings_fired (v : V) (t : T) (log : List (TimerEvent T V)) :
    firings (.fired v t :: log) = firings log + 1 := by
  simp [firings]

def due [LinearOrder T] (now : T) (tv : List (T × V)) : ℕ := tv.countP fun e => e.1 ≤ now

omit [DecidableEq V] in
theorem due_modify_le [LinearOrder T] {now t : T} (ht : now < t) (tv : List (T × V)) (idx : ℕ) :
    due now (tv.modify idx fun e => (t, e.2)) ≤ due now tv := by
  induction tv generalizing idx with
  | nil => simp [due]
  | cons e tv ih =>
    cases idx with
    | zero =>
      simp only [due, List.modify_zero_cons, List.countP_cons, decide_eq_true_eq, not_le.2 ht]
      exact Nat.le_add_right _ _
    | succ idx =>
      simp only [due, List.modify_succ_cons, List.countP_cons]
      exact Nat.add_le_add_right (ih idx) _

/-! ## What a pass pays for -/

/-- Every firing, and every timer that is due, is paid for by one of the `n` timers
    stored at the start; a timer that may still be armed has its place. -/
structure PassInv (now : NanoTime) (n : ℕ) (s : PopState NanoTime V) : Prop where
  fired : firings s.log + due now s.timers.store.tv ≤ n
  size : s.timers.store.tv.length + (rearming s.log).toList.length ≤ n
  pos : s.i ≤ n

namespace PassInv

variable {now : NanoTime} {n : ℕ} {s s' : PopState NanoTime V}

omit [DecidableEq V] in
theorem start (maximum : NanoTime) (timers : Timers NanoTime V) :
    PassInv now timers.store.tv.length (.start maximum timers) where
  fired := by
    show 0 + due now timers.store.tv ≤ _
    rw [Nat.zero_add]
    exact List.countP_le_length
  size := le_rfl
  pos := Nat.zero_le _

theorem remTimer (h : PassInv now n s) (v : V) : PassInv now n (s.request (.rem v)) := by
  cases hv : s.timers.storeidx v with
  | none =>
    have hsame : s.request (.rem v) = s := by
      simp [PopState.request, Timers.remTimer, hv]
    rwa [hsame]
  | some idx =>
    have htv : (s.request (.rem v)).timers.store.tv = swapRemove s.timers.store.tv idx := by
      simp [PopState.request, Timers.remTimer, hv, Timers.removeAt_tv]
    have hlog : (s.request (.rem v)).log = .removed v :: s.log := by
      simp [PopState.request, hv]
    refine ⟨?_, ?_, h.pos⟩
    · rw [htv, hlog]
      exact (Nat.add_le_add_left (countP_swapRemove_le _ _ _) _).trans h.fired
    · rw [htv, hlog, length_swapRemove]
      exact (Nat.add_le_add_right (Nat.sub_le _ _) _).trans h.size

theorem addTimer (h : PassInv now n s) {v : V} (hv : rearming s.log = some v)
    (ht : now < t) : PassInv now n (s.request (.add v t)) := by
  have hsize := h.size
  rw [hv] at hsize
  cases hidx : s.timers.storeidx v with
  | some idx =>
    have htv : (s.request (.add v t)).timers.store.tv =
        s.timers.store.tv.modify idx fun e => (t, e.2) := by
      simp [PopState.request, Timers.addTimer, hidx, TimeStore.change]
    have hlog : (s.request (.add v t)).log = s.log := by
      simp [PopState.request, hidx]
    refine ⟨?_, ?_, h.pos⟩
    · rw [htv, hlog]
      exact (Nat.add_le_add_left (due_modify_le ht _ _) _).trans h.fired
    · rw [htv, hlog, List.length_modify]
      exact h.size
  | none =>
    have htv : (s.request (.add v t)).timers.store.tv = s.timers.store.tv ++ [(t, v)] := by
      simp [PopState.request, Timers.addTimer, hidx, TimeStore.push]
    have hlog : (s.request (.add v t)).log = .armed v :: s.log := by
      simp [PopState.request, hidx]
    refine ⟨?_, ?_, h.pos⟩
    · rw [htv, hlog]
      have hlate : due now (s.timers.store.tv ++ [(t, v)]) = due now s.timers.store.tv := by
        simp [due, ht]
      rw [hlate]
      exact h.fired
    · rw [htv, hlog, List.length_append]
      exact hsize

theorem visit (h : PassInv now n s) (hexec : s.exec now .visit = some s') : PassInv now n s' := by
  simp only [PopState.exec] at hexec
  split at hexec
  · cases hexec
  · next t v he =>
    have hlen : s.i < s.timers.store.tv.length := (List.getElem?_eq_some_iff.1 he).1
    have hsize := h.size
    by_cases hlate : now < t
    · rw [if_pos hlate] at hexec
      cases hexec
      refine ⟨h.fired, h.size, ?_⟩
      show s.i + 1 ≤ n
      omega
    · rw [if_neg hlate] at hexec
      cases hexec
      have hdue : due now (swapRemove s.timers.store.tv s.i) + 1 = due now s.timers.store.tv := by
        rw [due, due, ← countP_swapRemove he, if_pos (decide_eq_true (not_lt.1 hlate))]
      have hfired := h.fired
      refine ⟨?_, ?_, h.pos⟩
      · show firings (.fired v t :: s.log) + due now (swapRemove s.timers.store.tv s.i) ≤ n
        rw [firings_fired]
        omega
      · show (swapRemove s.timers.store.tv s.i).length + 1 ≤ n
        rw [length_swapRemove]
        omega

theorem exec (h : PassInv now n s) {a : PopAction NanoTime V}
    (hasks : Asks now (fun delay => NanoTime.zero ≤ delay ∧ now < now.add delay) s a)
    (hexec : s.exec now a = some s') : PassInv now n s' := by
  cases hasks with
  | visit => exact h.visit hexec
  | cancel v =>
    simp only [PopState.exec] at hexec
    split_ifs at hexec
    cases hexec
    exact h.remTimer v
  | waitFor v delay hv hok =>
    simp only [PopState.exec] at hexec
    split_ifs at hexec
    cases hexec
    exact h.addTimer hv hok.2

end PassInv

/-- **A timer pass ends.**  Whatever timers are stored: if the handlers re-arm the
    fired timers at most once each, with deadlines after the time of the pass, then
    at most as many timers fire as were stored, and the loop passes at most as many. -/
theorem doCompleteTimer_bounded {now maximum : NanoTime} {timers : Timers NanoTime V}
    {s : PopState NanoTime V}
    (h : PopRun now (Asks now fun delay => NanoTime.zero ≤ delay ∧ now < now.add delay)
      (.start maximum timers) s) :
    firings s.log ≤ timers.store.tv.length ∧ s.i ≤ timers.store.tv.length := by
  have hinv : PassInv now timers.store.tv.length s := by
    induction h with
    | start => exact .start maximum timers
    | step _ hasks hexec ih => exact ih.exec hasks hexec
  exact ⟨(Nat.le_add_right _ _).trans hinv.fired, hinv.pos⟩

def oneTimer : Timers NanoTime ℕ :=
  (Timers.empty NanoTime.maximum).addTimer 0 (toLex (5, 0))

/-- The timer fires and is re-armed for a second later. -/
theorem doCompleteTimer_bounded_second :
    ∃ s : PopState NanoTime ℕ, s.timers.store.tv = [(toLex (6, 0), 0)] ∧ s.i = 1 ∧
      firings s.log ≤ 1 := by
  have hlater : toLex (5, 0) < NanoTime.add (toLex (5, 0)) (toLex (1, 0)) :=
    (NanoTime.lt_add_iff (by decide) (by decide) (by decide)).2 (by decide)
  have hrun : PopRun (toLex (5, 0)) (Asks (toLex (5, 0)) fun delay => NanoTime.zero ≤ delay ∧
        toLex (5, 0) < NanoTime.add (toLex (5, 0)) delay)
      (.start NanoTime.maximum oneTimer) _ :=
    ((PopRun.start.step .visit rfl).step
      (.waitFor 0 (toLex (1, 0)) rfl ⟨by decide, hlater⟩) rfl).step .visit rfl
  exact ⟨_, rfl, rfl, (doCompleteTimer_bounded hrun).1⟩

/-- The timer is re-armed with the delay zero, and fires again in the same pass. -/
theorem doCompleteTimer_repeats : ∃ s : PopState NanoTime ℕ,
      PopRun (toLex (5, 0)) (Asks (toLex (5, 0)) fun delay => NanoTime.zero ≤ delay)
        (.start NanoTime.maximum oneTimer) s ∧
      oneTimer.store.tv.length < firings s.log := by
  have hrun : PopRun (toLex (5, 0)) (Asks (toLex (5, 0)) fun delay => NanoTime.zero ≤ delay)
      (.start NanoTime.maximum oneTimer) _ :=
    ((PopRun.start.step .visit rfl).step (.waitFor 0 NanoTime.zero rfl (by decide)) rfl).step
      .visit rfl
  exact ⟨_, hrun, by decide⟩

end SolidFrame
