/-
  SolidFrame formalization — the pool of workers (`solid/utility/workpool.hpp`).

  Workers take jobs from a queue until the pool is stopped and the queue is empty.  What is
  done under the mutex of the pool is one step; the callbacks of the controller that create
  workers are steps of their own, and its answers are inputs.  A run has its actions, from
  which the jobs that were pushed are read.

  A worker is the number of its thread.
-/
import SolidFrame.Lib.CountUpdate
import Mathlib.Data.List.TakeWhile
import Mathlib.Tactic

namespace SolidFrame

open Function List Nat Option

inductive WorkPoolState where
  | stopped
  | stopping
  | running
  deriving DecidableEq, Repr

/-- Where a worker is in its function `run`; it is `leaving` when `pop` has returned false. -/
inductive WorkerPhase (J : Type) where
  | created
  | looping
  | executing (jobs : List J)
  | leaving
  | ended
  deriving DecidableEq, Repr

/-- What the controller does with the thread of a worker. -/
inductive ThreadStart where
  /-- It starts none. -/
  | declined
  /-- The thread cannot be created; the `catch` joins the empty one, which throws. -/
  | failed
  /-- It starts a `SingleWorker`, or a `MultiWorker` with its `maxcnt`. -/
  | started (maxcnt : Option ℕ)
  deriving DecidableEq, Repr

variable {J : Type}

def WorkerPhase.jobs : WorkerPhase J → List J
  | executing jobs => jobs
  | _ => []

/-- The function has not ended. -/
def WorkerPhase.Live (ph : WorkerPhase J) : Prop := ph ≠ ended

instance : DecidablePred (@WorkerPhase.Live J)
  | .created | .looping | .executing _ | .leaving => isTrue nofun
  | .ended => isFalse (not_not.2 rfl)

/-- The worker has not left its loop. -/
def WorkerPhase.InLoop : WorkerPhase J → Prop
  | leaving | ended => False
  | _ => True

def liveCount (phase : ℕ → WorkerPhase J) (n : ℕ) : ℕ := Nat.count (fun w => (phase w).Live) n

/-- A thread in the loop of `doStop`, for `stop` or for `start`; it is `waiting` while nobody
    has notified `thrcnd`. -/
structure Stopper where
  restart : Bool
  waiting : Bool := false
  deriving DecidableEq, Repr

/-- `WorkPool`, with what has happened to the jobs and in the last cycle: whether a worker was
    created before the pool was stopped, and how many jobs there had been at the first stop.  A
    thread of `threadVec` without a worker is empty. -/
structure WorkPool (J : Type) where
  st : WorkPoolState := .stopped
  wkrcnt : ℤ := 0
  jobq : List J := []
  count : ℕ := 0
  /-- `maxcnt` of a `MultiWorker` -/
  maxcnt : ℕ → Option ℕ := fun _ => none
  phase : ℕ → WorkerPhase J := fun _ => .ended
  threadVec : List (Option ℕ) := []
  stoppers : ℕ → Option Stopper := fun _ => none
  popped : List (J × ℕ) := []
  executed : List (J × ℕ) := []
  manned : Bool := false
  before : Option ℕ := none

namespace WorkPool
variable (s : WorkPool J)

def setPhase (w : ℕ) (ph : WorkerPhase J) : WorkPool J := { s with phase := update s.phase w ph }

/-- `thrcnd.notify_all()`. -/
def notify : WorkPool J :=
  { s with stoppers := fun τ => (s.stoppers τ).map fun p => { p with waiting := false } }

/-- Both `push`: of one job, and of several. -/
def push (jobs : List J) : WorkPool J := { s with jobq := s.jobq ++ jobs }

/-- `createWorker`, with `createSingleWorker` or `createMultiWorker`; when the thread cannot be
    created, the exception leaves the counter and the empty thread behind. -/
def createWorker : ThreadStart → WorkPool J
  | .declined => s.notify
  | .failed => { s with wkrcnt := s.wkrcnt + 1, threadVec := s.threadVec ++ [none] }
  | .started maxcnt =>
    { s with
      wkrcnt := s.wkrcnt + 1
      count := s.count + 1
      maxcnt := update s.maxcnt s.count maxcnt
      phase := update s.phase s.count .created
      threadVec := s.threadVec ++ [some s.count]
      manned := s.manned || s.st != .stopped }

def enterWorker (w : ℕ) (prepared : Bool) : Option (WorkPool J) :=
  match s.phase w with
  | .created =>
    if prepared then some (s.setPhase w .looping).notify else some (s.setPhase w .ended)
  | _ => none

/-- The rest of `pop`, for `n` jobs; a worker that waits for jobs stays in its loop. -/
def popJobs (w n : ℕ) : WorkPool J :=
  if !s.jobq.isEmpty then
    { s.setPhase w (.executing (s.jobq.take n)) with
      jobq := s.jobq.drop n, popped := s.popped ++ (s.jobq.take n).map (·, w) }
  else if s.st = .running then s
  else s.setPhase w .leaving

/-- `pop`, when `onPopStart` returns `k`. -/
def pop (w k : ℕ) : Option (WorkPool J) :=
  match s.phase w, s.maxcnt w with
  | .looping, none => if k = 0 then some (s.setPhase w .leaving) else some (s.popJobs w 1)
  | .looping, some _ =>
    if k % 2 ^ 32 = 0 then some (s.setPhase w (.executing []))
    else some (s.popJobs w (k % 2 ^ 32))
  | _, _ => none

/-- What `onPopStart` is asked. -/
def popCount (w : ℕ) : ℕ := (s.maxcnt w).elim 1 fun m => if m = 0 then 1 else m

def execute (w : ℕ) : Option (WorkPool J) :=
  match s.phase w with
  | .executing jobs =>
    some { s.setPhase w .looping with executed := s.executed ++ jobs.map (·, w) }
  | _ => none

def exitWorker (w : ℕ) : Option (WorkPool J) :=
  match s.phase w with
  | .leaving => some { (s.setPhase w .ended).notify with wkrcnt := s.wkrcnt - 1 }
  | _ => none

/-- `doStop`, up to its loop. -/
def doStop (τ : ℕ) (wait : Option Stopper) : WorkPool J :=
  { s with
    st := .stopping
    before := s.before <|> some (s.popped.length + s.jobq.length)
    stoppers := update s.stoppers τ wait }

def stop (τ : ℕ) (wait : Bool) : Option (WorkPool J) :=
  if (s.stoppers τ).isSome then none
  else if s.st = .stopped then some s
  else some (s.doStop τ (if wait then some { restart := false } else none))

/-- The end of `start`, without the workers that it creates. -/
def restart : WorkPool J :=
  { s with wkrcnt := 0, st := .running, manned := false, before := none }

def start (τ : ℕ) : Option (WorkPool J) :=
  if (s.stoppers τ).isSome then none
  else match s.st with
    | .running => some s
    | .stopped => some s.restart
    | .stopping => some (s.doStop τ (some { restart := true }))

/-- The threads that are joined: those up to an empty one, whose `join` throws. -/
def joined : List (Option ℕ) := s.threadVec.takeWhile isSome

/-- The loop of `doStop`, and what follows; `none` while a thread cannot be joined.  A thread
    that has been joined is empty. -/
def resume (τ : ℕ) : Option (WorkPool J) := do
  let p ← s.stoppers τ
  if s.wkrcnt ≠ 0 then
    return { s with stoppers := update s.stoppers τ (some { p with waiting := true }) }
  else if ∀ t ∈ s.joined, ∀ w ∈ t, ¬ (s.phase w).Live then
    let s' : WorkPool J := { s with stoppers := update s.stoppers τ none }
    if s.threadVec.all isSome then
      let s' : WorkPool J := { s' with threadVec := [], st := .stopped }
      return if p.restart then s'.restart else s'
    else
      let threadVec := s.joined.map (fun _ => none) ++ s.threadVec.dropWhile isSome
      return { s' with threadVec := threadVec }
  else none

end WorkPool

inductive WorkPoolAction (J : Type) where
  | push (jobs : List J)
  | createWorker (worker : ThreadStart)
  | enterWorker (w : ℕ) (prepared : Bool)
  | pop (w k : ℕ)
  | execute (w : ℕ)
  | exitWorker (w : ℕ)
  | stop (τ : ℕ) (wait : Bool)
  | start (τ : ℕ)
  | resume (τ : ℕ)

/-- The jobs that are pushed. -/
def WorkPoolAction.pushed : WorkPoolAction J → List J
  | push jobs => jobs
  | _ => []

def WorkPool.exec (s : WorkPool J) : WorkPoolAction J → Option (WorkPool J)
  | .push jobs => some (s.push jobs)
  | .createWorker worker => some (s.createWorker worker)
  | .enterWorker w prepared => s.enterWorker w prepared
  | .pop w k => s.pop w k
  | .execute w => s.execute w
  | .exitWorker w => s.exitWorker w
  | .stop τ wait => s.stop τ wait
  | .start τ => s.start τ
  | .resume τ => s.resume τ

/-- The runs of a pool whose steps all meet a condition, with their actions. -/
inductive WorkPoolRun (ok : WorkPool J → WorkPoolAction J → Prop) (s₀ : WorkPool J) :
    List (WorkPoolAction J) → WorkPool J → Prop where
  | start : WorkPoolRun ok s₀ [] s₀
  | step {acts : List (WorkPoolAction J)} {s s' : WorkPool J} (a : WorkPoolAction J) :
      WorkPoolRun ok s₀ acts s →
      ok s a →
      s.exec a = some s' →
      WorkPoolRun ok s₀ (acts ++ [a]) s'

/-- The jobs pushed in a run, in their order. -/
def pushedJobs (acts : List (WorkPoolAction J)) : List J := acts.flatMap WorkPoolAction.pushed

namespace WorkPool
variable {s s' : WorkPool J} {w n k τ : ℕ} {ph : WorkerPhase J}
  {acts : List (WorkPoolAction J)} {a : WorkPoolAction J}

/-! ## What the steps do -/

theorem of_enterWorker (h : s.enterWorker w true = some s') :
    s.phase w = .created ∧ s' = (s.setPhase w .looping).notify := by
  unfold enterWorker at h
  split at h
  next hphase => exact ⟨hphase, (some.inj h).symm⟩
  · cases h

theorem of_execute (h : s.execute w = some s') : ∃ jobs, s.phase w = .executing jobs ∧
    s' = { s.setPhase w .looping with executed := s.executed ++ jobs.map (·, w) } := by
  unfold execute at h
  split at h
  next jobs hphase => exact ⟨jobs, hphase, (some.inj h).symm⟩
  · cases h

theorem of_exitWorker (h : s.exitWorker w = some s') : s.phase w = .leaving ∧
    s' = { (s.setPhase w .ended).notify with wkrcnt := s.wkrcnt - 1 } := by
  unfold exitWorker at h
  split at h
  next hphase => exact ⟨hphase, (some.inj h).symm⟩
  · cases h

theorem of_stop {wait : Bool} (h : s.stop τ wait = some s') :
    s' = s ∨ ∃ p, s' = s.doStop τ p ∧ ∀ q, p = some q → q.waiting = false := by
  unfold stop at h
  repeat' split at h
  all_goals cases h
  · exact .inl rfl
  · exact .inr ⟨_, rfl, by simp⟩
  · exact .inr ⟨_, rfl, by simp⟩

theorem of_start (h : s.start τ = some s') : s' = s ∨ s.st = .stopped ∧ s' = s.restart ∨
    ∃ p, s' = s.doStop τ p ∧ ∀ q, p = some q → q.waiting = false := by
  unfold start at h
  repeat' split at h
  all_goals cases h
  · exact .inl rfl
  next hst => exact .inr (.inl ⟨hst, rfl⟩)
  · exact .inr (.inr ⟨_, rfl, by simp⟩)

/-- What `resume` does: a stopper waits, has joined all threads, or has come to an empty one. -/
inductive Resumes (s : WorkPool J) (τ : ℕ) : WorkPool J → Prop where
  | waits (hwkrcnt : s.wkrcnt ≠ 0) (p : Option Stopper) :
      Resumes s τ { s with stoppers := update s.stoppers τ p }
  | stops (hwkrcnt : s.wkrcnt = 0) (hjoin : ∀ w, some w ∈ s.threadVec → s.phase w = .ended) :
      Resumes s τ
        { s with stoppers := update s.stoppers τ none, threadVec := [], st := .stopped }
  | starts (hwkrcnt : s.wkrcnt = 0) (hjoin : ∀ w, some w ∈ s.threadVec → s.phase w = .ended) :
      Resumes s τ (restart
        { s with stoppers := update s.stoppers τ none, threadVec := [], st := .stopped })
  | throws (threadVec : List (Option ℕ)) :
      (∀ w, some w ∈ s.threadVec → (s.phase w).Live → some w ∈ threadVec) →
      Resumes s τ { s with stoppers := update s.stoppers τ none, threadVec := threadVec }

theorem of_resume (h : s.resume τ = some s') : Resumes s τ s' := by
  obtain ⟨p, -, h⟩ := bind_eq_some_iff.1 h
  have hended (hjoin : ∀ t ∈ s.joined, ∀ w ∈ t, ¬ (s.phase w).Live)
      (hall : s.threadVec.all isSome) (w : ℕ) (hw : some w ∈ s.threadVec) :
      s.phase w = .ended := by
    refine not_not.1 (hjoin (some w) ?_ w rfl)
    rwa [joined, takeWhile_eq_self_iff.2 (List.all_eq_true.1 hall)]
  split_ifs at h with hzero hjoin hall hrestart
  · exact some.inj h ▸ .waits hzero _
  · exact some.inj h ▸ .starts (not_not.1 hzero) (hended hjoin hall)
  · exact some.inj h ▸ .stops (not_not.1 hzero) (hended hjoin hall)
  · refine some.inj h ▸ .throws _ fun w hw hlive => mem_append_right _ ?_
    rw [← takeWhile_append_dropWhile (p := isSome) (l := s.threadVec), mem_append] at hw
    exact hw.resolve_left fun hmem => hjoin _ hmem w rfl hlive

/-- What `pop` does: the worker leaves, takes jobs if there are some, or takes none. -/
inductive Pops (s : WorkPool J) (w k : ℕ) : WorkPool J → Prop where
  | leaves (hk : k = 0) : Pops s w k (s.setPhase w .leaving)
  | takes (n : ℕ) : Pops s w k (s.popJobs w n)
  | skips : Pops s w k (s.setPhase w (.executing []))

theorem of_pop (h : s.pop w k = some s') : s.phase w = .looping ∧ Pops s w k s' := by
  unfold pop at h
  split at h
  next hphase _ =>
    split_ifs at h with hk
    · exact ⟨hphase, some.inj h ▸ .leaves hk⟩
    · exact ⟨hphase, some.inj h ▸ .takes 1⟩
  next hphase _ =>
    split_ifs at h
    · exact ⟨hphase, some.inj h ▸ .skips⟩
    · exact ⟨hphase, some.inj h ▸ .takes _⟩
  · cases h

/-! ## The number of workers -/

/-- The counter is the number of workers whose function has not ended, and nobody waits for
    none. -/
structure Counted (s : WorkPool J) : Prop where
  count : s.wkrcnt = liveCount s.phase s.count
  fresh : ∀ w, s.count ≤ w → s.phase w = .ended
  idle : s.wkrcnt = 0 → ∀ τ p, s.stoppers τ = some p → p.waiting = false

theorem Counted.lt (h : s.Counted) (hw : (s.phase w).Live) : w < s.count := by
  by_contra hle
  exact hw (h.fresh w (not_lt.1 hle))

theorem not_waiting_notify {p : Stopper} (h : s.notify.stoppers τ = some p) :
    p.waiting = false := by
  obtain ⟨q, -, rfl⟩ := map_eq_some_iff.1 h
  rfl

theorem Counted.notify (h : s.Counted) : s.notify.Counted :=
  ⟨h.count, h.fresh, fun _ _ _ => not_waiting_notify⟩

theorem liveCount_update {f : ℕ → WorkerPhase J} (ph : WorkerPhase J) (hn : w < n)
    (hw : (f w).Live) :
    liveCount (update f w ph) n + 1 = liveCount f n + if ph.Live then 1 else 0 := by
  have hcount := count_update (p := WorkerPhase.Live) (f := f) hn ph
  rwa [if_pos hw] at hcount

theorem liveCount_push (f : ℕ → WorkerPhase J) :
    liveCount (update f n .created) (n + 1) = liveCount f n + 1 :=
  count_push (p := WorkerPhase.Live) (f := f) .created

theorem Counted.setPhase (h : s.Counted) (hw : (s.phase w).Live) (ph : WorkerPhase J)
    (hph : ph.Live) : (s.setPhase w ph).Counted := by
  have hcount := liveCount_update ph (h.lt hw) hw
  rw [if_pos hph, add_right_cancel_iff] at hcount
  refine ⟨h.count.trans (congrArg _ hcount.symm), ?_, h.idle⟩
  intro v hv
  have hne : v ≠ w := ne_of_gt (lt_of_lt_of_le (h.lt hw) hv)
  exact (update_of_ne hne _ _).trans (h.fresh v hv)

theorem Counted.createWorker (h : s.Counted) {worker : ThreadStart} (hok : worker ≠ .failed) :
    (s.createWorker worker).Counted := by
  cases worker with
  | declined => exact h.notify
  | failed => exact absurd rfl hok
  | started maxcnt =>
    have hcount := h.count
    refine ⟨?_, ?_, ?_⟩
    · simp only [WorkPool.createWorker, liveCount_push]
      omega
    · intro v hv
      have hv : s.count < v := hv
      exact (update_of_ne (ne_of_gt hv) _ _).trans (h.fresh v hv.le)
    · intro hzero
      have hzero : s.wkrcnt + 1 = 0 := hzero
      omega

theorem Counted.exitWorker (h : s.Counted) (hw : (s.phase w).Live) :
    Counted { (s.setPhase w .ended).notify with wkrcnt := s.wkrcnt - 1 } := by
  have hcount := liveCount_update .ended (h.lt hw) hw
  have heq := h.count
  refine ⟨?_, ?_, fun _ _ _ => not_waiting_notify (s := s.setPhase w .ended)⟩
  · simp only [WorkPool.notify, WorkPool.setPhase]
    rw [if_neg (show ¬ (WorkerPhase.ended : WorkerPhase J).Live from not_not.2 rfl)] at hcount
    omega
  · intro v hv
    rcases eq_or_ne v w with rfl | hne
    · exact update_self _ _ _
    · exact (update_of_ne hne _ _).trans (h.fresh v hv)

/-- Every thread that is to start is started, no worker is refused, and no worker is left when
    a stopped pool is started. -/
def Regular (s : WorkPool J) : WorkPoolAction J → Prop
  | .createWorker worker => worker ≠ .failed
  | .enterWorker _ prepared => prepared = true
  | .start _ => s.st = .stopped → ∀ w, s.phase w = .ended
  | _ => True

theorem Counted.restart (h : s.Counted) (hzero : s.wkrcnt = 0) : s.restart.Counted :=
  ⟨hzero.symm.trans h.count, h.fresh, fun _ => h.idle hzero⟩

theorem Counted.eq_zero (h : s.Counted) (hended : ∀ w, s.phase w = .ended) : s.wkrcnt = 0 := by
  rw [h.count, cast_eq_zero]
  exact count_eq_zero.2 fun w _ hw => hw (hended w)

theorem Counted.update_stoppers (h : s.Counted) (τ : ℕ) (p : Option Stopper)
    (hp : s.wkrcnt = 0 → ∀ q, p = some q → q.waiting = false) :
    Counted { s with stoppers := update s.stoppers τ p } := by
  refine ⟨h.count, h.fresh, fun hzero τ' q hq => ?_⟩
  rcases eq_or_ne τ' τ with rfl | hne
  · exact hp hzero q (by simpa using hq)
  · exact h.idle hzero τ' q (by simpa [hne] using hq)

theorem Counted.popJobs (h : s.Counted) (hw : (s.phase w).Live) : (s.popJobs w n).Counted := by
  unfold WorkPool.popJobs
  split_ifs
  · exact { h.setPhase hw (.executing (s.jobq.take n)) nofun with }
  · exact h
  · exact h.setPhase hw _ nofun

theorem Counted.pop (h : s.Counted) (hexec : s.pop w k = some s') : s'.Counted := by
  obtain ⟨hphase, hpops⟩ := of_pop hexec
  have hw : (s.phase w).Live := hphase.trans_ne nofun
  cases hpops with
  | leaves => exact h.setPhase hw _ nofun
  | takes n => exact h.popJobs hw
  | skips => exact h.setPhase hw _ nofun

theorem Counted.doStop (h : s.Counted) (wait : Option Stopper)
    (hwait : ∀ q, wait = some q → q.waiting = false) : (s.doStop τ wait).Counted :=
  { h.update_stoppers τ wait fun _ => hwait with }

theorem Counted.resume (h : s.Counted) (hexec : s.resume τ = some s') : s'.Counted := by
  have hnone : Counted { s with stoppers := update s.stoppers τ none } :=
    h.update_stoppers τ none (by simp)
  cases of_resume hexec with
  | waits hpos p => exact h.update_stoppers τ p fun heq => absurd heq hpos
  | stops => exact { hnone with }
  | starts hzero =>
    have hstopped : Counted { s with
        stoppers := update s.stoppers τ none, threadVec := [], st := .stopped } := { hnone with }
    exact hstopped.restart hzero
  | throws => exact { hnone with }

theorem Counted.step (h : s.Counted) (hok : s.Regular a) (hexec : s.exec a = some s') :
    s'.Counted := by
  cases a with
  | push jobs =>
    cases hexec
    exact { h with }
  | createWorker worker =>
    cases hexec
    exact h.createWorker hok
  | enterWorker w prepared =>
    obtain rfl : prepared := hok
    obtain ⟨hphase, rfl⟩ := of_enterWorker hexec
    exact (h.setPhase (hphase.trans_ne nofun) .looping nofun).notify
  | pop w k => exact h.pop hexec
  | execute w =>
    obtain ⟨jobs, hphase, rfl⟩ := of_execute hexec
    exact { h.setPhase (hphase.trans_ne nofun) .looping nofun with }
  | exitWorker w =>
    obtain ⟨hphase, rfl⟩ := of_exitWorker hexec
    exact h.exitWorker (hphase.trans_ne nofun)
  | stop τ wait =>
    rcases of_stop hexec with rfl | ⟨p, rfl, hp⟩
    · exact h
    · exact h.doStop p hp
  | start τ =>
    rcases of_start hexec with rfl | ⟨hst, rfl⟩ | ⟨p, rfl, hp⟩
    · exact h
    · exact h.restart (h.eq_zero (hok hst))
    · exact h.doStop p hp
  | resume τ => exact h.resume hexec

/-- In every run in which threads start, no worker is refused and a stopped pool is started
    without workers, the counter is the number of the workers: a stop does not wait for none. -/
theorem wkrcnt_exact (h : WorkPoolRun Regular {} acts s) :
    s.wkrcnt = liveCount s.phase s.count ∧
      ((∀ w, s.phase w = .ended) →
        s.wkrcnt = 0 ∧ ∀ τ p, s.stoppers τ = some p → p.waiting = false) := by
  have hcounted : s.Counted := by
    induction h with
    | start => exact ⟨rfl, fun _ _ => rfl, by simp⟩
    | step a _ hok hexec ih => exact ih.step hok hexec
  refine ⟨hcounted.count, fun hended => ?_⟩
  have hzero := hcounted.eq_zero hended
  exact ⟨hzero, hcounted.idle hzero⟩

/-- Two workers of both kinds, and a thread that is not started; the stop waits for both. -/
theorem wkrcnt_exact_two : ∃ (acts : List (WorkPoolAction ℕ)) (s s' : WorkPool ℕ),
    WorkPoolRun Regular {} acts s ∧ s.stoppers 0 = some { restart := false, waiting := true } ∧
    s.wkrcnt = 2 ∧ s.wkrcnt = liveCount s.phase s.count ∧
    s.exec (.exitWorker 0) >>= (·.exec (.exitWorker 1)) = some s' ∧
    s'.wkrcnt = 0 ∧ ∀ τ p, s'.stoppers τ = some p → p.waiting = false := by
  have hstart : WorkPoolRun Regular ({} : WorkPool ℕ) [] {} := .start
  have hworkers := (((((hstart.step (.start 0) (fun _ _ => rfl) rfl).step
    (.createWorker (.started none)) nofun rfl).step (.createWorker .declined) nofun rfl).step
    (.createWorker (.started (some 2))) nofun rfl).step (.enterWorker 0 true) rfl rfl).step
    (.enterWorker 1 true) rfl rfl
  have hjobs := ((((hworkers.step (.push [7, 8, 9]) trivial rfl).step (.pop 1 2) trivial rfl).step
    (.pop 0 1) trivial rfl).step (.execute 0) trivial rfl).step (.execute 1) trivial rfl
  have hrun := (((hjobs.step (.stop 0 true) trivial rfl).step (.resume 0) trivial rfl).step
    (.pop 0 1) trivial rfl).step (.pop 1 2) trivial rfl
  have hended := (hrun.step (.exitWorker 0) trivial rfl).step (.exitWorker 1) trivial rfl
  have hnone := (wkrcnt_exact hended).2 fun w => by
    match w with
    | 0 | 1 | _ + 2 => rfl
  exact ⟨_, _, _, hrun, rfl, rfl, (wkrcnt_exact hrun).1, rfl, hnone⟩

/-- A worker that is refused stays counted, and a stop waits for it. -/
theorem refused_counted : ∃ (acts : List (WorkPoolAction ℕ)) (s : WorkPool ℕ),
    WorkPoolRun (fun _ _ => True) {} acts s ∧ (∀ w, s.phase w = .ended) ∧
    s.wkrcnt = 1 ∧ s.stoppers 0 = some { restart := false, waiting := true } := by
  have hstart : WorkPoolRun (fun _ _ => True) ({} : WorkPool ℕ) [] {} := .start
  have hrun := ((((hstart.step (.start 0) trivial rfl).step
    (.createWorker (.started none)) trivial rfl).step (.enterWorker 0 false) trivial rfl).step
    (.stop 0 true) trivial rfl).step (.resume 0) trivial rfl
  refine ⟨_, _, hrun, fun w => ?_, rfl, rfl⟩
  simp [setPhase, createWorker, doStop, restart]

/-! ## The jobs -/

/-- The jobs have left the queue in their order, and each worker has executed those that it
    was given up to its last ones. -/
structure Handed (acts : List (WorkPoolAction J)) (s : WorkPool J) : Prop where
  fresh : ∀ w, s.count ≤ w → s.phase w = .ended
  order : s.popped.map Prod.fst ++ s.jobq = pushedJobs acts
  done : ∀ w, s.executed.filter (·.2 = w) ++ (s.phase w).jobs.map (·, w) = s.popped.filter (·.2 = w)

theorem pushedJobs_append (acts acts' : List (WorkPoolAction J)) :
    pushedJobs (acts ++ acts') = pushedJobs acts ++ pushedJobs acts' :=
  flatMap_append

/-- Actions that push nothing. -/
theorem Handed.silent (h : Handed acts s) (ha : a.pushed = []) : Handed (acts ++ [a]) s :=
  { h with order := by simpa [pushedJobs_append, pushedJobs, ha] using h.order }

theorem filter_map_pair (jobs : List J) (v : ℕ) :
    (jobs.map (·, w)).filter (·.2 = v) = if w = v then jobs.map (·, w) else [] := by
  split_ifs with h <;> simp [List.filter_map, comp_def, h]

theorem Handed.push (h : Handed acts s) (jobs : List J) :
    Handed (acts ++ [.push jobs]) (s.push jobs) := by
  refine ⟨h.fresh, ?_, h.done⟩
  simp only [WorkPool.push, pushedJobs_append]
  rw [← append_assoc, h.order, pushedJobs, pushedJobs, flatMap_singleton]
  rfl

/-- A worker is given jobs, or has executed some. -/
theorem Handed.change (h : Handed acts s) (hw : (s.phase w).Live) (ph : WorkerPhase J)
    (given done : List J) {jobq : List J} (hjobq : given ++ jobq = s.jobq)
    (hjobs : done ++ ph.jobs = (s.phase w).jobs ++ given) :
    Handed acts { s.setPhase w ph with
      jobq := jobq
      popped := s.popped ++ given.map (·, w)
      executed := s.executed ++ done.map (·, w) } := by
  refine ⟨fun v hv => ?_, ?_, fun v => ?_⟩
  · have hne : v ≠ w := fun heq => hw (heq ▸ h.fresh v hv)
    exact (update_of_ne hne _ _).trans (h.fresh v hv)
  · have horder := h.order
    rw [← hjobq] at horder
    simpa [comp_def, WorkPool.setPhase] using horder
  · simp only [WorkPool.setPhase, filter_append, filter_map_pair]
    rcases eq_or_ne v w with rfl | hne
    · rw [if_pos rfl, if_pos rfl, update_self, ← h.done, append_assoc, ← map_append, hjobs,
        map_append, append_assoc]
    · simp [hne, hne.symm, h.done]

theorem Handed.setPhase (h : Handed acts s) (hw : (s.phase w).Live) (ph : WorkerPhase J)
    (hjobs : ph.jobs = (s.phase w).jobs) : Handed acts (s.setPhase w ph) := by
  have hsame := h.change hw ph [] [] rfl (hjobs.trans (append_nil _).symm)
  simpa [WorkPool.setPhase] using hsame

theorem Handed.createWorker (h : Handed acts s) (worker : ThreadStart) :
    Handed acts (s.createWorker worker) := by
  cases worker with
  | declined => exact { h with }
  | failed => exact { h with }
  | started maxcnt =>
    refine ⟨fun v hv => ?_, h.order, fun v => ?_⟩
    · have hv : s.count < v := hv
      exact (update_of_ne (ne_of_gt hv) _ _).trans (h.fresh v hv.le)
    · have hdone := h.done v
      rcases eq_or_ne v s.count with rfl | hne
      · rw [h.fresh _ (le_refl _)] at hdone
        simpa [WorkPool.createWorker, WorkerPhase.jobs] using hdone
      · simpa [WorkPool.createWorker, hne] using hdone

theorem Handed.popJobs (h : Handed acts s) (hw : s.phase w = .looping) :
    Handed acts (s.popJobs w n) := by
  have hlive : (s.phase w).Live := hw.trans_ne nofun
  unfold WorkPool.popJobs
  split_ifs
  · have hgiven := h.change hlive (.executing (s.jobq.take n)) _ []
      (take_append_drop n s.jobq) (by simp [hw, WorkerPhase.jobs])
    simpa [WorkPool.setPhase] using hgiven
  · exact h
  · exact h.setPhase hlive _ (by rw [hw]; rfl)

theorem Handed.execute (h : Handed acts s) {jobs : List J} (hw : s.phase w = .executing jobs) :
    Handed acts { s.setPhase w .looping with executed := s.executed ++ jobs.map (·, w) } := by
  have hlive : (s.phase w).Live := hw.trans_ne nofun
  have hdone := h.change hlive .looping [] jobs rfl (by simp [hw, WorkerPhase.jobs])
  simpa [WorkPool.setPhase] using hdone

/-- When no worker is left, the jobs that have left the queue have been executed. -/
theorem Handed.perm (h : Handed acts s) (hended : ∀ w, s.phase w = .ended) :
    s.executed.Perm s.popped := by
  classical
  rw [perm_iff_count]
  rintro ⟨job, w⟩
  have hdone := h.done w
  rw [hended w, show (WorkerPhase.ended : WorkerPhase J).jobs = [] from rfl, map_nil,
    append_nil] at hdone
  have hcount := congrArg (List.count (job, w)) hdone
  rwa [count_filter (by simp), count_filter (by simp)] at hcount

/-! ## A cycle -/

/-- The first `n` jobs that have left the queue have been executed. -/
def Executed (s : WorkPool J) (n : ℕ) : Prop :=
  n ≤ s.popped.length ∧ ((s.popped.map Prod.fst).take n).Subperm (s.executed.map Prod.fst)

/-- The threads that can be joined, and what a cycle with a worker has done: the jobs pushed
    before the first stop are given to workers once all of them have left their loops, and
    executed once the pool is stopped. -/
structure Cycle (s : WorkPool J) : Prop where
  threads : ∀ w, (s.phase w).Live → some w ∈ s.threadVec
  before_le : ∀ n, s.before = some n → n ≤ s.popped.length + s.jobq.length
  running : s.st = .running → s.before = none
  stopping : s.st = .stopping → ∃ n, s.before = some n
  manned : s.manned = true → (∃ n, s.before = some n ∧ n ≤ s.popped.length) ∨
    ∃ w, (s.phase w).InLoop
  stopped : s.st = .stopped → s.manned = true → ∃ n, s.before = some n ∧ s.Executed n

theorem Cycle.setPhase (h : s.Cycle) (hw : (s.phase w).Live) (ph : WorkerPhase J)
    (hmanned : s.manned → (∃ n, s.before = some n ∧ n ≤ s.popped.length) ∨
      ((s.phase w).InLoop → ph.InLoop)) : (s.setPhase w ph).Cycle := by
  refine { h with threads := fun v hv => ?_, manned := fun hm => ?_ }
  · rcases eq_or_ne v w with rfl | hne
    · exact h.threads v hw
    · exact h.threads v (by simpa [WorkPool.setPhase, hne] using hv)
  · rcases hmanned hm, h.manned hm with ⟨hdrained | hph, hdrained | ⟨v, hv⟩⟩
    · exact .inl hdrained
    · exact .inl hdrained
    · exact .inl hdrained
    · refine .inr ⟨v, ?_⟩
      rcases eq_or_ne v w with rfl | hne
      · simpa [WorkPool.setPhase] using hph hv
      · simpa [WorkPool.setPhase, hne] using hv

/-- A worker leaves its loop. -/
theorem Cycle.leave (h : s.Cycle) (hw : (s.phase w).Live) (hjobq : s.jobq = [])
    (hst : s.st ≠ .running) : (s.setPhase w .leaving).Cycle := by
  refine h.setPhase hw _ fun hmanned => .inl ?_
  have hbefore : ∃ n, s.before = some n := by
    cases hcase : s.st with
    | running => exact absurd hcase hst
    | stopping => exact h.stopping hcase
    | stopped => exact (h.stopped hcase hmanned).imp fun _ => And.left
  obtain ⟨n, hn⟩ := hbefore
  have hle := h.before_le n hn
  rw [hjobq] at hle
  exact ⟨n, hn, hle⟩

theorem Cycle.createWorker (h : s.Cycle) (worker : ThreadStart) :
    (s.createWorker worker).Cycle := by
  cases worker with
  | declined => exact { h with }
  | failed => exact { h with threads := fun v hv => mem_append_left _ (h.threads v hv) }
  | started maxcnt =>
    refine { h with threads := fun v hv => ?_, manned := fun _ => ?_, stopped := fun hst hm => ?_ }
    · rcases eq_or_ne v s.count with rfl | hne
      · simp [WorkPool.createWorker]
      · exact mem_append_left _ (h.threads v (by simpa [WorkPool.createWorker, hne] using hv))
    · exact .inr ⟨s.count, by simp [WorkPool.createWorker, WorkerPhase.InLoop]⟩
    · exact h.stopped hst (by simpa [WorkPool.createWorker, show s.st = .stopped from hst] using hm)

theorem Cycle.doStop (h : s.Cycle) (τ : ℕ) (wait : Option Stopper) : (s.doStop τ wait).Cycle := by
  cases hbefore : s.before with
  | none =>
    have heq : (s.doStop τ wait).before = some (s.popped.length + s.jobq.length) := by
      simp [WorkPool.doStop, hbefore]
    refine { h with
      before_le := ?_, running := nofun, stopping := fun _ => ⟨_, heq⟩, manned := ?_
      stopped := nofun }
    · intro n hn
      rw [heq, some_inj] at hn
      exact hn.ge
    · intro hm
      refine (h.manned hm).imp_left ?_
      rintro ⟨n, hn, -⟩
      rw [hbefore] at hn
      cases hn
  | some m =>
    have heq : (s.doStop τ wait).before = s.before := by simp [WorkPool.doStop, hbefore]
    refine { h with
      before_le := ?_, running := nofun, stopping := ?_, manned := ?_, stopped := nofun }
    · rw [heq]
      exact h.before_le
    · rw [heq]
      exact fun _ => ⟨m, hbefore⟩
    · rw [heq]
      exact h.manned

/-- When all threads have ended, the jobs are executed. -/
theorem Cycle.executed (h : s.Cycle) (hs : Handed acts s)
    (hjoin : ∀ w, some w ∈ s.threadVec → s.phase w = .ended) (hmanned : s.manned) :
    ∃ n, s.before = some n ∧ s.Executed n := by
  have hended : ∀ w, s.phase w = .ended := by
    intro w
    by_contra hw
    exact hw (hjoin w (h.threads w hw))
  rcases h.manned hmanned with ⟨n, hn, hlen⟩ | ⟨w, hw⟩
  · refine ⟨n, hn, hlen, ?_⟩
    have hperm := ((hs.perm hended).map Prod.fst).symm.subperm
    exact (take_sublist n _).subperm.trans hperm
  · rw [hended w] at hw
    exact hw.elim

/-- The controllers whose `onPopStart` returns its argument and which refuse no worker. -/
def Answers (s : WorkPool J) : WorkPoolAction J → Prop
  | .enterWorker _ prepared => prepared = true
  | .pop w k => k = s.popCount w
  | _ => True

theorem Cycle.popJobs (h : s.Cycle) (hw : s.phase w = .looping) : (s.popJobs w n).Cycle := by
  have hlive : (s.phase w).Live := hw.trans_ne nofun
  unfold WorkPool.popJobs
  split_ifs with hjobq hst
  · have hgiven := h.setPhase hlive (.executing (s.jobq.take n)) fun _ => .inr fun _ => trivial
    refine { hgiven with before_le := ?_, manned := ?_, stopped := ?_ }
    · intro m hm
      have hle := h.before_le m hm
      simp only [length_append, length_map, length_take, length_drop]
      omega
    · intro hm
      refine (hgiven.manned hm).imp_left ?_
      rintro ⟨m, hm, hle⟩
      exact ⟨m, hm, hle.trans (by simp [WorkPool.setPhase])⟩
    · intro hst hm
      obtain ⟨m, hm, hle, hdone⟩ := h.stopped hst hm
      refine ⟨m, hm, hle.trans (by simp), ?_⟩
      rwa [map_append, take_append_of_le_length (by simpa using hle)]
  · exact h
  · exact h.leave hlive (by simpa using hjobq) hst

theorem popCount_ne_zero : s.popCount w ≠ 0 := by
  unfold popCount
  cases s.maxcnt w with
  | none => exact one_ne_zero
  | some m =>
    simp only [elim_some]
    split_ifs with hm
    · exact one_ne_zero
    · exact hm

/-- A worker leaves its loop only if there is no job and the pool is not running. -/
theorem leaving_of_pop (h : s.pop w (s.popCount w) = some s') (hw : s'.phase w = .leaving) :
    s.jobq = [] ∧ s.st ≠ .running := by
  obtain ⟨hphase, hpops⟩ := of_pop h
  cases hpops with
  | leaves hk => exact absurd hk popCount_ne_zero
  | takes n =>
    unfold WorkPool.popJobs at hw
    split_ifs at hw with hjobq hst
    · simp [WorkPool.setPhase] at hw
    · simp [hphase] at hw
    · exact ⟨by simpa using hjobq, hst⟩
  | skips => simp [WorkPool.setPhase] at hw

theorem Cycle.restart (h : s.Cycle) : s.restart.Cycle :=
  ⟨h.threads, nofun, fun _ => rfl, nofun, nofun, nofun⟩

theorem Cycle.resume (h : s.Cycle) (hs : Handed acts s) (hexec : s.resume τ = some s') :
    s'.Cycle := by
  have hstopped (hjoin : ∀ w, some w ∈ s.threadVec → s.phase w = .ended) : Cycle { s with
      stoppers := update s.stoppers τ none, threadVec := [], st := .stopped } :=
    { h with
      threads := fun w hw => absurd (hjoin w (h.threads w hw)) hw
      running := nofun
      stopping := nofun
      stopped := fun _ => h.executed hs hjoin }
  cases of_resume hexec with
  | waits => exact { h with }
  | stops _ hjoin => exact hstopped hjoin
  | starts _ hjoin => exact (hstopped hjoin).restart
  | throws threadVec hlive => exact { h with threads := fun w hw => hlive w (h.threads w hw) hw }

theorem Handed.resume (h : Handed acts s) (hexec : s.resume τ = some s') : Handed acts s' := by
  cases of_resume hexec with
  | waits => exact { h with }
  | stops => exact { h with }
  | starts => exact { h with }
  | throws => exact { h with }

theorem Handed.step (h : Handed acts s) (hok : s.Answers a) (hexec : s.exec a = some s') :
    Handed (acts ++ [a]) s' := by
  cases a with
  | push jobs =>
    cases hexec
    exact h.push jobs
  | createWorker worker =>
    cases hexec
    exact (h.createWorker worker).silent rfl
  | enterWorker w prepared =>
    obtain rfl : prepared := hok
    obtain ⟨hphase, rfl⟩ := of_enterWorker hexec
    have hsame := h.setPhase (hphase.trans_ne nofun) .looping (by rw [hphase]; rfl)
    exact Handed.silent { hsame with } rfl
  | pop w k =>
    obtain ⟨hphase, hpops⟩ := of_pop hexec
    refine Handed.silent ?_ rfl
    have hlive : (s.phase w).Live := hphase.trans_ne nofun
    cases hpops with
    | leaves => exact h.setPhase hlive _ (by rw [hphase]; rfl)
    | takes n => exact h.popJobs hphase
    | skips => exact h.setPhase hlive _ (by rw [hphase]; rfl)
  | execute w =>
    obtain ⟨jobs, hphase, rfl⟩ := of_execute hexec
    exact (h.execute hphase).silent rfl
  | exitWorker w =>
    obtain ⟨hphase, rfl⟩ := of_exitWorker hexec
    have hsame := h.setPhase (hphase.trans_ne nofun) .ended (by rw [hphase]; rfl)
    exact Handed.silent { hsame with } rfl
  | stop τ wait =>
    refine Handed.silent ?_ rfl
    rcases of_stop hexec with rfl | ⟨p, rfl, -⟩
    · exact h
    · exact { h with }
  | start τ =>
    refine Handed.silent ?_ rfl
    rcases of_start hexec with rfl | ⟨-, rfl⟩ | ⟨p, rfl, -⟩
    · exact h
    · exact { h with }
    · exact { h with }
  | resume τ => exact (h.resume hexec).silent rfl

theorem Cycle.step (h : s.Cycle) (hs : Handed acts s) (hok : s.Answers a)
    (hexec : s.exec a = some s') : s'.Cycle := by
  cases a with
  | push jobs =>
    cases hexec
    refine { h with before_le := fun m hm => (h.before_le m hm).trans ?_ }
    simp [WorkPool.push]
  | createWorker worker =>
    cases hexec
    exact h.createWorker worker
  | enterWorker w prepared =>
    obtain rfl : prepared := hok
    obtain ⟨hphase, rfl⟩ := of_enterWorker hexec
    have h' := h.setPhase (hphase.trans_ne nofun) .looping fun _ => .inr fun _ => trivial
    exact { h' with }
  | pop w k =>
    obtain rfl : k = s.popCount w := hok
    obtain ⟨hphase, hpops⟩ := of_pop hexec
    cases hpops with
    | leaves hk => exact absurd hk popCount_ne_zero
    | takes n => exact h.popJobs hphase
    | skips => exact h.setPhase (hphase.trans_ne nofun) _ fun _ => .inr fun _ => trivial
  | execute w =>
    obtain ⟨jobs, hphase, rfl⟩ := of_execute hexec
    have h' := h.setPhase (hphase.trans_ne nofun) .looping fun _ => .inr fun _ => trivial
    refine { h' with stopped := fun hst hm => ?_ }
    obtain ⟨n, hn, hle, hdone⟩ := h.stopped hst hm
    refine ⟨n, hn, hle, hdone.trans ?_⟩
    simp only [map_append]
    exact (sublist_append_left _ _).subperm
  | exitWorker w =>
    obtain ⟨hphase, rfl⟩ := of_exitWorker hexec
    have h' := h.setPhase (hphase.trans_ne nofun) .ended fun _ =>
      .inr fun hin => by rwa [hphase] at hin
    exact { h' with }
  | stop τ wait =>
    rcases of_stop hexec with rfl | ⟨p, rfl, -⟩
    · exact h
    · exact h.doStop τ p
  | start τ =>
    rcases of_start hexec with rfl | ⟨-, rfl⟩ | ⟨p, rfl, -⟩
    · exact h
    · exact h.restart
    · exact h.doStop τ p
  | resume τ => exact h.resume hs hexec

/-! ## Runs -/

theorem before_doStop (wait : Option Stopper) : (s.doStop τ wait).before = s.before ∨
    (s.doStop τ wait).before = some (s.popped.length + s.jobq.length) := by
  cases hbefore : s.before with
  | none => exact .inr (by simp [doStop, hbefore])
  | some n => exact .inl (by simp [doStop, hbefore])

/-- A step keeps the number of jobs at the first stop, forgets it, or takes it. -/
theorem before_step (hexec : s.exec a = some s') : s'.before = s.before ∨ s'.before = none ∨
    s'.before = some (s.popped.length + s.jobq.length) := by
  cases a with
  | push jobs =>
    cases hexec
    exact .inl rfl
  | createWorker worker =>
    cases hexec
    cases worker <;> exact .inl rfl
  | enterWorker w prepared =>
    simp only [exec, enterWorker] at hexec
    split at hexec
    · split_ifs at hexec <;> exact .inl (some.inj hexec ▸ rfl)
    · cases hexec
  | pop w k =>
    cases (of_pop hexec).2 with
    | leaves => exact .inl rfl
    | takes n =>
      unfold popJobs
      split_ifs <;> exact .inl rfl
    | skips => exact .inl rfl
  | execute w =>
    obtain ⟨jobs, -, rfl⟩ := of_execute hexec
    exact .inl rfl
  | exitWorker w =>
    obtain ⟨-, rfl⟩ := of_exitWorker hexec
    exact .inl rfl
  | stop τ wait =>
    rcases of_stop hexec with rfl | ⟨p, rfl, -⟩
    · exact .inl rfl
    · exact (before_doStop p).imp_right .inr
  | start τ =>
    rcases of_start hexec with rfl | ⟨-, rfl⟩ | ⟨p, rfl, -⟩
    · exact .inl rfl
    · exact .inr (.inl rfl)
    · exact (before_doStop p).imp_right .inr
  | resume τ =>
    cases of_resume hexec with
    | waits => exact .inl rfl
    | stops => exact .inl rfl
    | starts => exact .inr (.inl rfl)
    | throws => exact .inl rfl

theorem handed_of_run {s₀ : WorkPool J} {acts₀ : List (WorkPoolAction J)}
    (h : WorkPoolRun Answers s₀ acts s) (h₀ : Handed acts₀ s₀ ∧ s₀.Cycle) :
    Handed (acts₀ ++ acts) s ∧ s.Cycle := by
  induction h with
  | start => simpa using h₀
  | step a _ hok hexec ih =>
    rw [← append_assoc]
    exact ⟨ih.1.step hok hexec, ih.2.step ih.1 hok hexec⟩

theorem handed_initial : Handed [] ({} : WorkPool J) ∧ ({} : WorkPool J).Cycle :=
  ⟨⟨fun _ _ => rfl, rfl, fun _ => rfl⟩,
    ⟨fun _ h => absurd rfl h, nofun, nofun, nofun, nofun, nofun⟩⟩

/-- The jobs that were there while the pool was running are counted at the first stop. -/
theorem le_before {acts' : List (WorkPoolAction J)} (h₀ : Handed acts s ∧ s.Cycle)
    (hst : s.st = .running) (h : WorkPoolRun Answers s acts' s') {n : ℕ}
    (hn : s'.before = some n) : (pushedJobs acts).length ≤ n := by
  induction h generalizing n with
  | start =>
    rw [h₀.2.running hst] at hn
    cases hn
  | step a hrun hok hexec ih =>
    rcases before_step hexec with heq | heq | heq
    · exact ih (heq ▸ hn)
    · rw [heq] at hn
      cases hn
    · have horder := congrArg List.length (handed_of_run hrun h₀).1.order
      rw [heq, some_inj] at hn
      simp only [length_append, length_map, pushedJobs_append] at horder
      omega

/-- In every run the jobs leave the queue in the order in which they were pushed, each for one
    worker, which executes it once; a worker leaves its loop only if there is no job and the pool
    is not running; and whenever the pool, having had a worker, is stopped later on, all jobs that
    were pushed while it was running have been executed. -/
theorem jobs_executed_once (h : WorkPoolRun Answers {} acts s) :
    s.popped.map Prod.fst ++ s.jobq = pushedJobs acts ∧
    (∀ w, s.executed.filter (·.2 = w) ++ (s.phase w).jobs.map (·, w) = s.popped.filter (·.2 = w)) ∧
    (∀ w s', s.pop w (s.popCount w) = some s' → s'.phase w = .leaving →
      s.jobq = [] ∧ s.st ≠ .running) ∧
    (s.st = .running → ∀ acts' s', WorkPoolRun Answers s acts' s' →
      s'.st = .stopped → s'.manned = true →
        (pushedJobs acts).Subperm (s'.executed.map Prod.fst)) := by
  have hs := handed_of_run h handed_initial
  refine ⟨hs.1.order, hs.1.done, fun w s' => leaving_of_pop, ?_⟩
  intro hst acts' s' h' hst' hmanned
  have hs' := handed_of_run h' hs
  obtain ⟨n, hn, hle, hdone⟩ := hs'.2.stopped hst' hmanned
  have hlen := le_before hs hst h' hn
  -- the jobs pushed by then are the first ones of those that have left the queue
  have htake : pushedJobs acts = (s'.popped.map Prod.fst).take (pushedJobs acts).length := by
    have horder := hs'.1.order
    rw [nil_append, pushedJobs_append] at horder
    have hpopped : (pushedJobs acts).length ≤ (s'.popped.map Prod.fst).length := by
      simpa using hlen.trans hle
    calc pushedJobs acts
        = (s'.popped.map Prod.fst ++ s'.jobq).take (pushedJobs acts).length := by
          rw [horder, take_left]
      _ = (s'.popped.map Prod.fst).take (pushedJobs acts).length :=
          take_append_of_le_length hpopped
  rw [htake]
  exact ((take_prefix_take_left hlen).sublist.subperm).trans hdone

/-- Two workers, of both kinds, execute three jobs; a fourth one comes after the stop. -/
theorem jobs_executed_once_two : ∃ (acts acts' : List (WorkPoolAction ℕ)) (s s' : WorkPool ℕ),
    WorkPoolRun Answers {} acts s ∧ s.st = .running ∧ pushedJobs acts = [7, 8, 9] ∧
    WorkPoolRun Answers s acts' s' ∧ s'.st = .stopped ∧ s'.manned = true ∧
    pushedJobs acts' = [6] ∧ s'.executed = [(9, 0), (7, 1), (8, 1), (6, 0)] ∧
    [7, 8, 9].Subperm (s'.executed.map Prod.fst) := by
  have hstart : WorkPoolRun Answers ({} : WorkPool ℕ) [] {} := .start
  have hrun := ((((((((hstart.step (.start 0) trivial rfl).step
    (.createWorker (.started none)) trivial rfl).step
    (.createWorker (.started (some 2))) trivial rfl).step (.enterWorker 0 true) rfl rfl).step
    (.enterWorker 1 true) rfl rfl).step (.push [7]) trivial rfl).step
    (.push [8, 9]) trivial rfl).step (.pop 1 2) rfl rfl).step (.pop 0 1) rfl rfl
  have hend {acts : List (WorkPoolAction ℕ)} {s : WorkPool ℕ} (_ : WorkPoolRun Answers {} acts s) :
      WorkPoolRun Answers s [] s := .start
  have hstop := ((((((hend hrun).step (.stop 0 true) trivial rfl).step
    (.push [6]) trivial rfl).step (.resume 0) trivial rfl).step (.execute 0) trivial rfl).step
    (.execute 1) trivial rfl).step (.pop 0 1) rfl rfl
  have hrun' := ((((((hstop.step (.execute 0) trivial rfl).step (.pop 0 1) rfl rfl).step
    (.pop 1 2) rfl rfl).step (.exitWorker 1) trivial rfl).step (.exitWorker 0) trivial rfl).step
    (.resume 0) trivial rfl)
  exact ⟨_, _, _, _, hrun, rfl, rfl, hrun', rfl, rfl, rfl, rfl,
    (jobs_executed_once hrun).2.2.2 rfl _ _ hrun' rfl rfl⟩

end WorkPool
end SolidFrame
