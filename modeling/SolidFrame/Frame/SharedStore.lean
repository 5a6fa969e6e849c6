/-
  SolidFrame formalization — the store of shared objects
  (solid/frame/sharedstore.hpp, solid/frame/src/sharedstore.cpp).

  A `shared::Store` keeps its objects in stubs.  Clients reach an object through
  pointers: an alive pointer only keeps the object from being cleared, a unique
  or a shared pointer gives access to it.  A request that cannot be served waits
  in the queue of the stub.  A released pointer leaves the id of its object in
  the fill vector, and the store serves the waiters of these objects, and frees
  the indices of those nobody uses, when it is next executed.

  * the state of the clients is the list of live pointers (`System.live`);
    `Action` has one constructor for every call of a client and for every
    critical section of `doExecute`, so that client calls may come between them;
  * the controller (a template argument) is what `requestReinit` is told by
    `prepareIndex` and `preparePointer`; it adds no ids to the erase vectors.
-/
import Mathlib.Tactic

namespace SolidFrame

/-- `UniqueId`: an index and the counter that tells its successive uses apart. -/
structure UniqueId where
  index : ℕ
  unique : ℕ
  deriving DecidableEq, Repr

namespace Shared

/-! ## Stubs -/

inductive WaitKind where
  | uniqueWait | sharedWait | reinitWait
  deriving DecidableEq, Repr

inductive StubState where
  | unlocked | uniqueLock | sharedLock
  deriving DecidableEq, Repr

/-- What a pointer was obtained for; `Pointer::alive()` holds of the first kind
    only.  A reinit pointer is a unique one. -/
inductive Lock where
  | alive | unique | shared
  deriving DecidableEq, Repr

/-- A non-empty `PointerT`. -/
structure Pointer where
  uid : UniqueId
  lock : Lock
  deriving DecidableEq, Repr

/-- The four `doTryGet…` functions of the store. -/
inductive Access where
  | alive | unique | shared | reinit
  deriving DecidableEq, Repr

/-- The pointer a successful `doTryGet…` returns. -/
def Access.lock : Access → Lock
  | .alive => .alive
  | .unique | .reinit => .unique
  | .shared => .shared

def WaitKind.access : WaitKind → Access
  | .uniqueWait => .unique
  | .sharedWait => .shared
  | .reinitWait => .reinit

structure WaitStub (F : Type) where
  kind : WaitKind
  fnc : F
  deriving DecidableEq, Repr

/-- `Stub`; `waits` is the chain from `pwaitfirst` to `pwaitlast`. -/
structure Stub (F : Type) where
  uid : ℕ := 0
  alivecnt : ℕ := 0
  usecnt : ℕ := 0
  state : StubState := .unlocked
  waits : List (WaitStub F) := []
  deriving DecidableEq, Repr

variable {F : Type}

namespace Stub

/-- `++uid` on a 32-bit counter. -/
def clear (rs : Stub F) : Stub F :=
  { rs with uid := (rs.uid + 1) % 2 ^ 32, state := .unlocked }

def canClear (rs : Stub F) : Bool :=
  rs.usecnt == 0 && rs.alivecnt == 0 && rs.waits.isEmpty

/-- `doTryGetAlive` always succeeds, and always writes the state. -/
def doTryGetAlive (rs : Stub F) : Option (Stub F) :=
  some { rs with alivecnt := rs.alivecnt + 1, state := .uniqueLock }

def doTryGetShared (rs : Stub F) : Option (Stub F) :=
  if rs.state = .sharedLock ∧ rs.waits = [] then some { rs with usecnt := rs.usecnt + 1 } else none

/-- `doTryGetUnique`; that nobody waits is asserted and not checked. -/
def doTryGetUnique (rs : Stub F) : Option (Stub F) :=
  if rs.usecnt = 0 then some { rs with usecnt := rs.usecnt + 1, state := .uniqueLock } else none

def doTryGetReinit (rs : Stub F) : Option (Stub F) :=
  if rs.usecnt = 0 ∧ rs.alivecnt = 0 ∧ rs.waits = [] then
    some { rs with usecnt := rs.usecnt + 1, state := .uniqueLock }
  else none

def doTryGet (rs : Stub F) : Access → Option (Stub F)
  | .alive => rs.doTryGetAlive
  | .unique => rs.doTryGetUnique
  | .shared => rs.doTryGetShared
  | .reinit => rs.doTryGetReinit

def doSwitchUniqueToShared (rs : Stub F) : Option (Stub F) :=
  if rs.state = .uniqueLock then some { rs with state := .sharedLock } else none

def doPushWait (rs : Stub F) (kind : WaitKind) (f : F) : Stub F :=
  { rs with waits := rs.waits ++ [⟨kind, f⟩] }

/-- `doDecrementObjectUseCount`: nothing for a pointer to an earlier object. -/
def doDecrementObjectUseCount (rs : Stub F) (p : Pointer) : Stub F :=
  if rs.uid = p.uid.unique then
    if p.lock = .alive then { rs with alivecnt := rs.alivecnt - 1 }
    else { rs with usecnt := rs.usecnt - 1 }
  else rs

/-- The switch in the loop of `doExecuteErase`: the state in which a waiter can
    be delivered. -/
def deliver (rs : Stub F) : WaitKind → Option StubState
  | .uniqueWait => if rs.usecnt = 0 then some .uniqueLock else none
  | .sharedWait =>
    if rs.usecnt = 0 ∨ rs.state = .sharedLock then some .sharedLock else none
  | .reinitWait => if rs.usecnt = 0 ∧ rs.alivecnt = 0 then some .uniqueLock else none

/-- The loop of `doExecuteErase` on the chain of waiters: the stub it leaves, and
    the waiters delivered, in order. -/
def eraseLoop (rs : Stub F) : List (WaitStub F) → Stub F × List (WaitStub F)
  | [] => ({ rs with waits := [] }, [])
  | w :: ws =>
    match rs.deliver w.kind with
    | none => ({ rs with waits := w :: ws }, [])
    | some st =>
      let r := eraseLoop { rs with state := st, usecnt := rs.usecnt + 1 } ws
      (r.1, w :: r.2)

def doExecuteErase (rs : Stub F) : Stub F × List (WaitStub F) :=
  rs.eraseLoop rs.waits

end Stub

/-! ## The store -/

/-- The stubs and `StoreBase::Data`.  `consEraseVec` is the part of the consume
    vector that `doExecute` has still to visit. -/
structure Store (F : Type) where
  stubvec : ℕ → Stub F := fun _ => {}
  objmaxcnt : ℕ := 0
  cacheobjidxstk : List ℕ := []
  fillEraseVec : List UniqueId := []
  consEraseVec : List UniqueId := []
  cacheobjidxvec : List ℕ := []

namespace Store

def setStub (s : Store F) (i : ℕ) (rs : Stub F) : Store F :=
  { s with stubvec := Function.update s.stubvec i rs }

def nextIndex (s : Store F) : ℕ := s.cacheobjidxstk.head?.getD s.objmaxcnt

/-- `doAllocateIndex`: the top of the stack of free indices; when it is empty the
    stubs grow by 1024, all but the first of which are free. -/
def doAllocateIndex (s : Store F) : Store F :=
  match s.cacheobjidxstk with
  | _ :: stk => { s with cacheobjidxstk := stk }
  | [] => { s with
      objmaxcnt := s.objmaxcnt + 1024
      cacheobjidxstk := (List.range 1023).map (s.objmaxcnt + 1 + ·) }

def doCacheObjectIndex (s : Store F) (i : ℕ) : Store F :=
  { s with cacheobjidxstk := i :: s.cacheobjidxstk }

def notifyObject (s : Store F) (uid : UniqueId) : Store F :=
  { s with fillEraseVec := s.fillEraseVec ++ [uid] }

/-- The check every call with an id makes. -/
def Knows (s : Store F) (uid : UniqueId) : Prop :=
  uid.index < s.objmaxcnt ∧ (s.stubvec uid.index).uid = uid.unique

instance (s : Store F) (uid : UniqueId) : Decidable (s.Knows uid) :=
  inferInstanceAs (Decidable (_ ∧ _))

end Store

/-! ## The store and its clients -/

/-- The store and the live pointers.  A pointer made for a waiter is live from
    the moment `doExecuteErase` counts it. -/
structure System (F : Type) where
  store : Store F := {}
  live : List Pointer := []

/-- One pointer obtained in a step: by the caller (`request = none`) or by a
    waiter. -/
structure Grant (F : Type) where
  index : ℕ
  lock : Lock
  request : Option F
  deriving DecidableEq, Repr

/-- What a step did besides changing the state: the index taken from the free
    ones, the index freed, the pointers obtained. -/
structure Outcome (F : Type) where
  allocated : Option ℕ := none
  freed : Option ℕ := none
  grants : List (Grant F) := []
  deriving DecidableEq, Repr

inductive Action (F : Type) where
  | insertAlive | insertShared | insertUnique
  | alive (uid : UniqueId)
  | unique (uid : UniqueId)
  | shared (uid : UniqueId)
  | requestShared (f : F) (uid : UniqueId)
  | requestUnique (f : F) (uid : UniqueId)
  | requestReinit (f : F) (uid : UniqueId)
  /-- `requestReinit` without an id: the index `prepareIndex` found, if any, and
      the answer of `preparePointer`, which on `false` has kept the pointer -/
  | requestReinitPrepared (f : F) (found : Option ℕ) (prepared : Bool)
  | uniqueToShared (p : Pointer)
  /-- `PointerBase::doClear` of a live pointer -/
  | release (p : Pointer)
  /-- `onEvent`: the fill vector becomes the consume vector -/
  | exchange
  /-- the next id of the consume vector -/
  | erase
  /-- the next index of `cacheobjidxvec` -/
  | cache
  deriving DecidableEq, Repr

namespace System

/-- A `doTryGet…` that left `rs` in the stub at `i` has returned a pointer. -/
def grant (s : System F) (a : Access) (i : ℕ) (rs : Stub F) : System F where
  store := s.store.setStub i rs
  live := ⟨⟨i, rs.uid⟩, a.lock⟩ :: s.live

/-- A `doTryGet…` on the stub at `i` on behalf of a client. -/
def tryGet (s : System F) (a : Access) (i : ℕ) : System F × Outcome F :=
  match (s.store.stubvec i).doTryGet a with
  | some rs => (s.grant a i rs, { grants := [⟨i, a.lock, none⟩] })
  | none => (s, {})

def allocate (s : System F) : System F := { s with store := s.store.doAllocateIndex }

/-- `insertAlive`, `insertShared`, `insertUnique`. -/
def insert (s : System F) (a : Access) : System F × Outcome F :=
  let r := s.allocate.tryGet a s.store.nextIndex
  (r.1, { r.2 with allocated := some s.store.nextIndex })

/-- `alive`, `unique`, `shared`. -/
def get (s : System F) (a : Access) (uid : UniqueId) : System F × Outcome F :=
  if s.store.Knows uid then s.tryGet a uid.index else (s, {})

def pushWait (s : System F) (kind : WaitKind) (f : F) (i : ℕ) : System F :=
  { s with store := s.store.setStub i ((s.store.stubvec i).doPushWait kind f) }

/-- A `doTryGet…`, and the queue of the stub if it fails. -/
def getOrWait (s : System F) (kind : WaitKind) (f : F) (i : ℕ) : System F × Outcome F :=
  if ((s.store.stubvec i).doTryGet kind.access).isSome then s.tryGet kind.access i
  else (s.pushWait kind f i, {})

/-- `requestShared`, `requestUnique`, `requestReinit`; an unknown id is an error
    passed to the function. -/
def request (s : System F) (kind : WaitKind) (f : F) (uid : UniqueId) : System F × Outcome F :=
  if s.store.Knows uid then s.getOrWait kind f uid.index else (s, {})

/-- `requestReinit` without an id, once it has its index: if `preparePointer` is
    not content the controller keeps the pointer and the request waits. -/
def reinitAt (s : System F) (f : F) (prepared : Bool) (i : ℕ) : System F × Outcome F :=
  let r := s.getOrWait .reinitWait f i
  if prepared || r.2.grants.isEmpty then r else (r.1.pushWait .reinitWait f i, {})

/-- `requestReinit` on the index of `prepareIndex`, or on a new one. -/
def requestReinitPrepared (s : System F) (f : F) (prepared : Bool) : Option ℕ → System F × Outcome F
  | some i => s.reinitAt f prepared i
  | none =>
    let r := s.allocate.reinitAt f prepared s.store.nextIndex
    (r.1, { r.2 with allocated := some s.store.nextIndex })

/-- `uniqueToShared`: the notification is for a shared request at the head of the
    queue only. -/
def uniqueToShared (s : System F) (p : Pointer) : System F :=
  let rs := s.store.stubvec p.uid.index
  if s.store.Knows p.uid then
    match rs.doSwitchUniqueToShared with
    | none => s
    | some rs' =>
      let t := s.store.setStub p.uid.index rs'
      { store := if rs.waits.head?.any (·.kind = .sharedWait) then t.notifyObject p.uid else t
        live := ⟨p.uid, .shared⟩ :: s.live.erase p }
  else s

/-- `erasePointer`: whatever `doDecrementObjectUseCount` answers, the store is
    notified. -/
def release (s : System F) (p : Pointer) : System F where
  store :=
    if p.uid.index < s.store.objmaxcnt then
      (s.store.setStub p.uid.index
        ((s.store.stubvec p.uid.index).doDecrementObjectUseCount p)).notifyObject p.uid
    else s.store
  live := s.live.erase p

/-- One turn of the first loop of `doExecute`: the id is looked at only if it is
    still that of its stub. -/
def erase (s : System F) (uid : UniqueId) (rest : List UniqueId) : System F × Outcome F :=
  let rs := s.store.stubvec uid.index
  let t := { s.store with consEraseVec := rest }
  if uid.unique = rs.uid then
    if rs.canClear then
      ({ s with store := { t with cacheobjidxvec := t.cacheobjidxvec ++ [uid.index] } }, {})
    else
      let r := rs.doExecuteErase
      ({ store := t.setStub uid.index r.1
         live := r.2.map (fun w => ⟨uid, w.kind.access.lock⟩) ++ s.live },
        { grants := r.2.map fun w => ⟨uid.index, w.kind.access.lock, some w.fnc⟩ })
  else ({ s with store := t }, {})

/-- One turn of the last loop of `doExecute`. -/
def cache (s : System F) (i : ℕ) (rest : List ℕ) : System F × Outcome F :=
  let rs := s.store.stubvec i
  let t := { s.store with cacheobjidxvec := rest }
  if rs.canClear then
    ({ s with store := (t.setStub i rs.clear).doCacheObjectIndex i }, { freed := some i })
  else ({ s with store := t }, {})

/-- One step; `none` where the action is not one of this state.  Only the pointer
    that holds the unique lock is converted, and only live pointers are
    released. -/
def exec (s : System F) : Action F → Option (System F × Outcome F)
  | .insertAlive => some (s.insert .alive)
  | .insertShared => some (s.insert .shared)
  | .insertUnique => some (s.insert .unique)
  | .alive uid => some (s.get .alive uid)
  | .unique uid => some (s.get .unique uid)
  | .shared uid => some (s.get .shared uid)
  | .requestShared f uid => some (s.request .sharedWait f uid)
  | .requestUnique f uid => some (s.request .uniqueWait f uid)
  | .requestReinit f uid => some (s.request .reinitWait f uid)
  | .requestReinitPrepared f found prepared =>
    if found.all (· < s.store.objmaxcnt) then some (s.requestReinitPrepared f prepared found)
    else none
  | .uniqueToShared p =>
    if p ∈ s.live ∧ p.lock = .unique then some (s.uniqueToShared p, {}) else none
  | .release p => if p ∈ s.live then some (s.release p, {}) else none
  | .exchange =>
    if s.store.consEraseVec = [] ∧ s.store.cacheobjidxvec = [] then
      some ({ s with store := { s.store with
        consEraseVec := s.store.fillEraseVec, fillEraseVec := [] } }, {})
    else none
  | .erase =>
    match s.store.consEraseVec with
    | uid :: rest => some (s.erase uid rest)
    | [] => none
  | .cache =>
    match s.store.consEraseVec, s.store.cacheobjidxvec with
    | [], i :: rest => some (s.cache i rest)
    | _, _ => none

/-! ## What one step can do

A call of a client makes one `doTryGet…`, on a stub that is fixed before the
call, and the answer depends on this stub only. -/

end System

namespace Action

def allocates : Action F → Bool
  | .insertAlive | .insertShared | .insertUnique => true
  | .requestReinitPrepared _ found _ => found.isNone
  | _ => false

def fnc? : Action F → Option F
  | .requestShared f _ | .requestUnique f _ | .requestReinit f _
  | .requestReinitPrepared f _ _ => some f
  | _ => none

/-- The `doTryGet…` the call makes, and the stub it makes it on. -/
def wanted (s : System F) : Action F → Option (Access × ℕ)
  | .insertAlive => some (.alive, s.store.nextIndex)
  | .insertShared => some (.shared, s.store.nextIndex)
  | .insertUnique => some (.unique, s.store.nextIndex)
  | .alive uid => if s.store.Knows uid then some (.alive, uid.index) else none
  | .unique uid | .requestUnique _ uid =>
    if s.store.Knows uid then some (.unique, uid.index) else none
  | .shared uid | .requestShared _ uid =>
    if s.store.Knows uid then some (.shared, uid.index) else none
  | .requestReinit _ uid => if s.store.Knows uid then some (.reinit, uid.index) else none
  | .requestReinitPrepared _ found _ => some (.reinit, found.getD s.store.nextIndex)
  | _ => none

end Action

namespace System

/-- The state in which the `doTryGet…` of a call is made. -/
def prepare (s : System F) (a : Action F) : System F := if a.allocates then s.allocate else s

@[simp] theorem prepare_stubvec (s : System F) (a : Action F) :
    (s.prepare a).store.stubvec = s.store.stubvec := by
  unfold prepare allocate Store.doAllocateIndex
  split_ifs
  · cases s.store.cacheobjidxstk <;> rfl
  · rfl

@[simp] theorem prepare_live (s : System F) (a : Action F) : (s.prepare a).live = s.live := by
  unfold prepare
  split_ifs <;> rfl

/-- The answers to a `doTryGet…` for `acc` on the stub at `i`. -/
inductive Answer (s : System F) (a : Action F) (acc : Access) (i : ℕ) :
    System F → List (Grant F) → Prop where
  | granted {rs} :
      (s.store.stubvec i).doTryGet acc = some rs →
      Answer s a acc i (s.grant acc i rs) [⟨i, acc.lock, none⟩]
  | refused (h : (s.store.stubvec i).doTryGet acc = none) : Answer s a acc i s []
  | queued {kind : WaitKind} {f} (hk : kind.access = acc) (hf : a.fnc? = some f) (h :
      (s.store.stubvec i).doTryGet acc = none) : Answer s a acc i (s.pushWait kind f i) []
  | kept {f rs} :
      acc = .reinit →
      a.fnc? = some f →
      (s.store.stubvec i).doTryGet acc = some rs →
      Answer s a acc i ((s.grant acc i rs).pushWait .reinitWait f i) []

/-- What an action can do, with the guards of its state. -/
inductive Step (s : System F) : Action F → System F → Outcome F → Prop where
  | call {a : Action F} {acc i s'} {o : Outcome F} :
      a.wanted s = some (acc, i) →
      (a.allocates = false → i < s.store.objmaxcnt) →
      (a.allocates = true → i = s.store.nextIndex) →
      (o.allocated = if a.allocates then some i else none) →
      o.freed = none →
      (s.prepare a).Answer a acc i s' o.grants →
      Step s a s' o
  | ignored {a : Action F} (hw : a.wanted s = none) : Step s a s {}
  | uniqueToShared {p : Pointer} (hp : p ∈ s.live) (hl : p.lock = .unique) :
      Step s (.uniqueToShared p) (s.uniqueToShared p) {}
  | release {p} (hp : p ∈ s.live) : Step s (.release p) (s.release p) {}
  | exchange (hc : s.store.consEraseVec = []) (hv : s.store.cacheobjidxvec = []) :
      Step s .exchange { s with store := { s.store with
        consEraseVec := s.store.fillEraseVec, fillEraseVec := [] } } {}
  | erase {uid rest} :
      s.store.consEraseVec = uid :: rest →
      Step s .erase (s.erase uid rest).1 (s.erase uid rest).2
  | cache {i rest} :
      s.store.consEraseVec = [] →
      s.store.cacheobjidxvec = i :: rest →
      Step s .cache (s.cache i rest).1 (s.cache i rest).2

theorem tryGet_answer (s : System F) (a : Action F) (acc : Access) (i : ℕ) :
    s.Answer a acc i (s.tryGet acc i).1 (s.tryGet acc i).2.grants := by
  unfold tryGet
  cases h : (s.store.stubvec i).doTryGet acc with
  | some rs => exact .granted h
  | none => exact .refused h

@[simp] theorem tryGet_freed (s : System F) (acc : Access) (i : ℕ) :
    (s.tryGet acc i).2.freed = none := by
  unfold tryGet
  split <;> rfl

@[simp] theorem tryGet_allocated (s : System F) (acc : Access) (i : ℕ) :
    (s.tryGet acc i).2.allocated = none := by
  unfold tryGet
  split <;> rfl

variable {a : Action F} {s : System F} {f : F}

theorem getOrWait_answer (s : System F) (kind : WaitKind) (hf : a.fnc? = some f) (i : ℕ) :
    s.Answer a kind.access i (s.getOrWait kind f i).1 (s.getOrWait kind f i).2.grants := by
  unfold getOrWait
  split_ifs with h
  · exact s.tryGet_answer a kind.access i
  · exact .queued rfl hf (by simpa using h)

@[simp] theorem getOrWait_freed (s : System F) (kind : WaitKind) (f : F) (i : ℕ) :
    (s.getOrWait kind f i).2.freed = none := by
  unfold getOrWait
  split_ifs <;> simp

@[simp] theorem getOrWait_allocated (s : System F) (kind : WaitKind) (f : F) (i : ℕ) :
    (s.getOrWait kind f i).2.allocated = none := by
  unfold getOrWait
  split_ifs <;> simp

theorem insert_step {acc : Access} (ha : a.allocates)
    (hw : a.wanted s = some (acc, s.store.nextIndex)) :
    s.Step a (s.insert acc).1 (s.insert acc).2 := by
  refine .call hw (fun h => absurd (ha.symm.trans h) (by decide)) (fun _ => rfl) ?_ ?_ ?_
  · simp [insert, ha]
  · simp [insert]
  · simp only [prepare, ha, if_true]
    exact tryGet_answer _ a acc _

theorem get_step {acc : Access} {uid : UniqueId} (ha : a.allocates = false)
    (hw : a.wanted s = if s.store.Knows uid then some (acc, uid.index) else none) :
    s.Step a (s.get acc uid).1 (s.get acc uid).2 := by
  unfold get
  split_ifs at hw ⊢ with hk
  · refine .call hw (fun _ => hk.1) (fun h => absurd (ha.symm.trans h) (by decide)) ?_ ?_ ?_
    · simp [ha]
    · simp
    · simpa [prepare, ha] using s.tryGet_answer a acc uid.index
  · exact .ignored hw

theorem request_step {kind : WaitKind} {uid : UniqueId}
    (ha : a.allocates = false) (hf : a.fnc? = some f)
    (hw : a.wanted s = if s.store.Knows uid then some (kind.access, uid.index) else none) :
    s.Step a (s.request kind f uid).1 (s.request kind f uid).2 := by
  unfold request
  split_ifs at hw ⊢ with hk
  · refine .call hw (fun _ => hk.1) (fun h => absurd (ha.symm.trans h) (by decide)) ?_ ?_ ?_
    · simp [ha]
    · simp
    · simpa [prepare, ha] using s.getOrWait_answer kind hf uid.index
  · exact .ignored hw

theorem reinitAt_answer (s : System F) (hf : a.fnc? = some f) (prepared : Bool) (i : ℕ) :
    s.Answer a .reinit i (s.reinitAt f prepared i).1 (s.reinitAt f prepared i).2.grants := by
  unfold reinitAt
  dsimp only
  split_ifs with hp
  · exact s.getOrWait_answer .reinitWait hf i
  · unfold getOrWait tryGet at hp ⊢
    cases hget : (s.store.stubvec i).doTryGet WaitKind.reinitWait.access with
    | none => simp [hget] at hp
    | some rs =>
      simp only [Option.isSome_some, if_true]
      exact .kept rfl hf hget

@[simp] theorem reinitAt_freed (s : System F) (f : F) (prepared : Bool) (i : ℕ) :
    (s.reinitAt f prepared i).2.freed = none := by
  simp only [reinitAt]
  split_ifs <;> simp

@[simp] theorem reinitAt_allocated (s : System F) (f : F) (prepared : Bool) (i : ℕ) :
    (s.reinitAt f prepared i).2.allocated = none := by
  simp only [reinitAt]
  split_ifs <;> simp

theorem requestReinitPrepared_step (f : F) {found : Option ℕ} (prepared : Bool)
    (hi : found.all (· < s.store.objmaxcnt)) :
    s.Step (.requestReinitPrepared f found prepared) (s.requestReinitPrepared f prepared found).1
      (s.requestReinitPrepared f prepared found).2 := by
  cases found with
  | none =>
    refine .call rfl (fun h => Bool.noConfusion h) (fun _ => rfl) rfl ?_ ?_
    · simp [requestReinitPrepared]
    · exact reinitAt_answer _ rfl prepared _
  | some i =>
    refine .call rfl (fun _ => by simpa using hi) (fun h => Bool.noConfusion h) ?_ ?_ ?_
    · simp [requestReinitPrepared, Action.allocates]
    · simp [requestReinitPrepared]
    · exact reinitAt_answer _ rfl prepared _

theorem Step.of_eq {s' : System F} {o : Outcome F} {r : System F × Outcome F}
    (h : some r = some (s', o)) (hs : s.Step a r.1 r.2) : s.Step a s' o := by
  cases h
  exact hs

theorem exec_step {s' : System F} {o : Outcome F}
    (h : s.exec a = some (s', o)) : s.Step a s' o := by
  cases a with
  | insertAlive | insertShared | insertUnique => exact .of_eq h (insert_step rfl rfl)
  | alive uid | unique uid | shared uid => exact .of_eq h (get_step rfl rfl)
  | requestShared f uid | requestUnique f uid | requestReinit f uid =>
    exact .of_eq h (request_step rfl rfl rfl)
  | requestReinitPrepared f found prepared =>
    simp only [exec] at h
    split_ifs at h with hi
    exact .of_eq h (requestReinitPrepared_step f prepared hi)
  | uniqueToShared p =>
    simp only [exec] at h
    split_ifs at h with hp
    exact .of_eq h (.uniqueToShared hp.1 hp.2)
  | release p =>
    simp only [exec] at h
    split_ifs at h with hp
    exact .of_eq h (.release hp)
  | exchange =>
    simp only [exec] at h
    split_ifs at h with hc
    exact .of_eq h (.exchange hc.1 hc.2)
  | erase =>
    simp only [exec] at h
    split at h
    · next uid rest hc => exact .of_eq h (.erase hc)
    · cases h
  | cache =>
    simp only [exec] at h
    split at h
    · next i rest hc hv => exact .of_eq h (.cache hc hv)
    · cases h

end System

end Shared

end SolidFrame
