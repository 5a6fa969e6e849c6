/-
  SolidFrame formalization — the reactor of the aio objects
  (solid/frame/aio/src/aioreactor.cpp, solid/frame/src/object.cpp).

  A reactor runs its objects on one thread.  Other threads hand it new objects (`push`) and
  events for its objects (`raise`); both wait in a vector until the reactor fetches them
  (`doCompleteEvents`) and queues them for execution.  An iteration of `run` completes I/O and
  timers, fetches, and executes the entries that are queued at that moment
  (`doCompleteExec`); what the handlers post meanwhile waits for the next iteration.

  * the vectors exist twice: the threads fill one (`pushtskvec`, `raisevec`), the reactor
    empties the other (`fetchedtsks`, `fetchedevents`), and a fetch swaps them;
  * the queue `exeq` of the code is `due ++ exeq`: the entries `doCompleteExec` still has to
    execute in this iteration (its counter `sz` is their number) and those behind them;
  * a handler is free in what it does: `postStop` and `post` are actions of their own, taken
    while I/O and timers are completed or while an entry is being executed.

  A notification of the manager holds the lock of the object and `disableVisits` takes it, so
  `raise` is possible only while visits are enabled.  The manager enables them when it
  registers the object, in the same step in which it pushes the object.

  Left out: devices, channels and timers (a handler of an object may run at any time while
  they are completed), the post of `increase_event_vector_size` to the reactor's own object
  when a device is added and the vector of events is full, the services of the objects, and
  the end of the loop.
-/
import SolidFrame.Frame.SharedStore

namespace SolidFrame.Aio

/-! ## Data -/

structure ObjectStub (O : Type) where
  unique : ℕ
  objptr : Option O
  deriving DecidableEq, Repr

structure NewTaskStub (O E : Type) where
  uid : UniqueId
  objptr : O
  event : E
  deriving DecidableEq, Repr

structure RaiseEventStub (E : Type) where
  uid : UniqueId
  event : E
  deriving DecidableEq, Repr

/-- The functions of the entries: `call_object_on_event` with its event, the two steps of a
    stop, and a function that a handler posted. -/
inductive EventFunction (E : Type) where
  | callObjectOnEvent (e : E)
  | stopObjectRepost
  | stopObject
  | posted
  deriving DecidableEq, Repr

structure ExecStub (E : Type) where
  objuid : UniqueId
  exefnc : EventFunction E
  deriving DecidableEq, Repr

/-- A posted function may be tied to a channel; the other entries are for the channel of the
    reactor itself, which stays. -/
def ExecStub.onChannel {E : Type} (x : ExecStub E) (sameChannel : Bool) : Bool :=
  match x.exefnc with
  | .posted => sameChannel
  | _ => true

inductive Phase where
  /-- in `doCompleteIo` or `doCompleteTimer` -/
  | io
  /-- in `doCompleteEvents` after the swap, called by `run` or by the event handler -/
  | loading (fromRun : Bool)
  /-- between `doCompleteEvents` and `doCompleteExec` -/
  | fetched
  /-- in `doCompleteExec`, between two entries -/
  | exec
  /-- in `doCompleteExec`, executing the first entry -/
  | running
  deriving DecidableEq, Repr

/-- `runId` is the id an object got when it was pushed, `visits` whether the manager lets
    other threads visit it. -/
structure Reactor (O E : Type) where
  pushtskvec : List (NewTaskStub O E)
  fetchedtsks : List (NewTaskStub O E)
  raisevec : List (RaiseEventStub E)
  fetchedevents : List (RaiseEventStub E)
  uidstk : List UniqueId
  crtidx : ℕ
  freeuidvec : List UniqueId
  objdq : ℕ → ObjectStub O
  due : List (ExecStub E)
  exeq : List (ExecStub E)
  phase : Phase
  runId : O → Option UniqueId
  visits : O → Bool

inductive Action (O E : Type) where
  | push (o : O) (e : E)
  | raise (o : O) (e : E)
  | postStop (i : ℕ)
  | post (i : ℕ)
  | swap (fromRun : Bool)
  | load
  | beginExec
  | execute (sameChannel : Bool)
  | complete
  | endExec
  deriving DecidableEq, Repr

/-- What a step does to an object: nothing, execute an event on it, or stop it. -/
inductive Outcome (O E : Type) where
  | quiet
  | executed (o : O) (e : E)
  | stopped (o : O)
  deriving DecidableEq, Repr

namespace Reactor

variable {O E : Type}

/-! ## The calls of other threads -/

/-- `Reactor::start`: index `0` is the object of the reactor that waits for other threads. -/
def start : Reactor O E where
  pushtskvec := []
  fetchedtsks := []
  raisevec := []
  fetchedevents := []
  uidstk := []
  crtidx := 1
  freeuidvec := []
  objdq _ := ⟨0, none⟩
  due := []
  exeq := []
  phase := .io
  runId _ := none
  visits _ := false

/-- `ReactorBase::popUid`: a freed id, or the next index. -/
def popUid (s : Reactor O E) : UniqueId × Reactor O E :=
  match s.uidstk with
  | uid :: uids => (uid, { s with uidstk := uids })
  | [] => (⟨s.crtidx, 0⟩, { s with crtidx := s.crtidx + 1 })

/-- An object is pushed once, when it is registered. -/
def push [DecidableEq O] (s : Reactor O E) (o : O) (e : E) : Option (Reactor O E) :=
  if (s.runId o).isSome then none
  else
    let (uid, s) := s.popUid
    some { s with
      pushtskvec := s.pushtskvec ++ [⟨uid, o, e⟩]
      runId := Function.update s.runId o (some uid)
      visits := Function.update s.visits o true }

def raise (s : Reactor O E) (o : O) (e : E) : Option (Reactor O E) := do
  let uid ← s.runId o
  if s.visits o then some { s with raisevec := s.raisevec ++ [⟨uid, e⟩] } else none

/-! ## What a handler does -/

/-- A handler of the object at `i` may be running. -/
def handles (s : Reactor O E) (i : ℕ) : Bool :=
  match s.phase, s.due with
  | .io, _ => (s.objdq i).objptr.isSome
  | .running, x :: _ => decide (x.objuid.index = i) && match x.exefnc with
    | .stopObjectRepost => false
    | _ => true
  | _, _ => false

def objectUid (s : Reactor O E) (i : ℕ) : UniqueId := ⟨i, (s.objdq i).unique⟩

def pushExec (s : Reactor O E) (i : ℕ) (f : EventFunction E) : Reactor O E :=
  { s with exeq := s.exeq ++ [⟨s.objectUid i, f⟩] }

/-- `disableVisits` succeeds only the first time. -/
def postStop [DecidableEq O] (s : Reactor O E) (i : ℕ) : Option (Reactor O E) :=
  if s.handles i then do
    let o ← (s.objdq i).objptr
    if s.visits o then
      some { s.pushExec i .stopObjectRepost with visits := Function.update s.visits o false }
    else some s
  else none

def post (s : Reactor O E) (i : ℕ) : Option (Reactor O E) :=
  if s.handles i then some (s.pushExec i .posted) else none

/-! ## Fetching

`doCompleteEvents` in two steps: the swap of the vectors, under the lock, and the rest. -/

/-- With both vectors empty nothing is fetched, and freed ids are not made available. -/
def swap (s : Reactor O E) (fromRun : Bool) : Option (Reactor O E) :=
  if s.phase = .io then
    if s.pushtskvec = [] ∧ s.raisevec = [] then
      some { s with phase := if fromRun then .fetched else .io }
    else
      some { s with
        pushtskvec := []
        fetchedtsks := s.pushtskvec
        raisevec := []
        fetchedevents := s.raisevec
        uidstk := s.freeuidvec.foldl (fun stk uid => uid :: stk) s.uidstk
        freeuidvec := []
        phase := .loading fromRun }
  else none

/-- The slot of a new object is filled and its first event queued. -/
def loadTask (s : Reactor O E) (t : NewTaskStub O E) : Reactor O E :=
  { s with
    objdq := Function.update s.objdq t.uid.index
      { s.objdq t.uid.index with objptr := some t.objptr }
    exeq := s.exeq ++ [⟨t.uid, .callObjectOnEvent t.event⟩] }

def loadEvent (s : Reactor O E) (r : RaiseEventStub E) : Reactor O E :=
  { s with exeq := s.exeq ++ [⟨r.uid, .callObjectOnEvent r.event⟩] }

def load (s : Reactor O E) : Option (Reactor O E) :=
  match s.phase with
  | .loading fromRun =>
    let s' := s.fetchedevents.foldl loadEvent (s.fetchedtsks.foldl loadTask s)
    some { s' with
      fetchedtsks := []
      fetchedevents := []
      phase := if fromRun then .fetched else .io }
  | _ => none

/-! ## Executing -/

def beginExec (s : Reactor O E) : Option (Reactor O E) :=
  if s.phase = .fetched then some { s with due := s.exeq, exeq := [], phase := .exec } else none

/-- An entry is skipped when its object is gone, or when it was posted for a channel
    that is gone. -/
def execute (s : Reactor O E) (sameChannel : Bool) : Option (Reactor O E) :=
  match s.phase, s.due with
  | .exec, x :: xs =>
    if (s.objdq x.objuid.index).unique = x.objuid.unique ∧ x.onChannel sameChannel then
      some { s with phase := .running }
    else some { s with due := xs }
  | _, _ => none

def uniqueLimit : ℕ := 2 ^ 64

def doStopObject (s : Reactor O E) (i : ℕ) : Reactor O E :=
  let unique := ((s.objdq i).unique + 1) % uniqueLimit
  { s with
    objdq := Function.update s.objdq i ⟨unique, none⟩
    freeuidvec := s.freeuidvec ++ [⟨i, unique⟩] }

/-- The entry being executed has returned, and is popped. -/
def complete (s : Reactor O E) : Option (Reactor O E × Outcome O E) :=
  match s.phase, s.due with
  | .running, x :: xs =>
    let s' := { s with due := xs, phase := .exec }
    let i := x.objuid.index
    match x.exefnc with
    | .callObjectOnEvent e => do
      let o ← (s.objdq i).objptr
      some (s', .executed o e)
    | .stopObjectRepost => some (s'.pushExec i .stopObject, .quiet)
    | .stopObject => do
      let o ← (s.objdq i).objptr
      some (s'.doStopObject i, .stopped o)
    | .posted => some (s', .quiet)
  | _, _ => none

def endExec (s : Reactor O E) : Option (Reactor O E) :=
  if s.phase = .exec ∧ s.due = [] then some { s with phase := .io } else none

/-! ## Runs -/

def exec [DecidableEq O] (s : Reactor O E) : Action O E → Option (Reactor O E × Outcome O E)
  | .push o e => (s.push o e).map (·, .quiet)
  | .raise o e => (s.raise o e).map (·, .quiet)
  | .postStop i => (s.postStop i).map (·, .quiet)
  | .post i => (s.post i).map (·, .quiet)
  | .swap fromRun => (s.swap fromRun).map (·, .quiet)
  | .load => s.load.map (·, .quiet)
  | .beginExec => s.beginExec.map (·, .quiet)
  | .execute sameChannel => (s.execute sameChannel).map (·, .quiet)
  | .complete => s.complete
  | .endExec => s.endExec.map (·, .quiet)

end Reactor

/-- A run with its steps, the last one first. -/
inductive Run {O E : Type} [DecidableEq O] :
    List (Action O E × Outcome O E) → Reactor O E → Prop where
  | start : Run [] .start
  | step {tr} {s s' : Reactor O E} {out} (h : Run tr s) (a : Action O E) :
      s.exec a = some (s', out) →
      Run ((a, out) :: tr) s'

/-! ## What a run raises and executes -/

section
variable {O E : Type} [DecidableEq O]

/-- The object and the event that the reactor accepts: the first event of a new object, or a
    raised one. -/
def Action.accepts : Action O E → Option (O × E)
  | .push o e | .raise o e => some (o, e)
  | _ => none

def Outcome.executes : Outcome O E → Option (O × E)
  | .executed o e => some (o, e)
  | _ => none

def eventOf (o : O) : Option (O × E) → List E
  | some (p, e) => if p = o then [e] else []
  | none => []

/-- The events accepted for an object, in order. -/
def raised (o : O) : List (Action O E × Outcome O E) → List E
  | [] => []
  | (a, _) :: tr => raised o tr ++ eventOf o a.accepts

def executed (o : O) : List (Action O E × Outcome O E) → List E
  | [] => []
  | (_, out) :: tr => executed o tr ++ eventOf o out.executes

end

end SolidFrame.Aio
