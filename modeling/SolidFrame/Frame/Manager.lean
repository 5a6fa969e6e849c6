/-
  SolidFrame formalization — the manager of services and objects
  (solid/frame/src/manager.cpp).

  A service has an index in a table of stubs; an object has an index in a table of
  chunks, each of `objchkcnt` object stubs and each of one service.  The chunks of a
  service are linked by `nextchk`.  Freed indices are kept on stacks: `svccache` for
  services, `objcache` of a service for its objects, `chkcache` for chunks.

  * both tables exist twice (`Copies`): a writer fills the copy that nobody reads and
    makes it the current one;
  * pointers are positions: a `ServiceStub*` in `svcdq`, an `ObjectChunk*` in the order
    of allocation; an invalid index or a null pointer is `none`;
  * each call runs under the locks it takes, so it is one step; a call that waits for
    ever or uses an invalid index or pointer has no result (`none`);
  * `capacity()` of the vector of services is a parameter of the registration that grows it.

  Left out: the mutexes, the conditions that wake waiting threads, and starting and
  stopping.  What a visit does with an object is up to the caller, so the calls return
  the visited objects with their reactors.
-/
import SolidFrame.Frame.SharedStore

namespace SolidFrame.Frame

open Function

/-! ## Data -/

inductive State where
  | starting | running | stopping | stopped
  deriving DecidableEq, Repr

structure ObjectStub (O R : Type) where
  pobject : Option O
  preactor : Option R
  unique : ℕ
  deriving DecidableEq, Repr

/-- The stubs are `object 0`, …, `object (objchkcnt - 1)`. -/
structure ObjectChunk (O R : Type) where
  svcidx : Option ℕ
  nextchk : Option ℕ
  objcnt : ℕ
  object : ℕ → ObjectStub O R

structure ServiceStub (S : Type) where
  psvc : Option S
  firstchk : Option ℕ
  lastchk : Option ℕ
  state : State
  crtobjidx : Option ℕ
  endobjidx : Option ℕ
  objcnt : ℕ
  objcache : List ℕ

/-- A table kept twice, with the numbers of readers of the two copies. -/
structure Copies (β : Type) where
  cur : List β
  other : List β
  usecnt : ℕ
  otherusecnt : ℕ

/-- `svcId` and `objId` are the indices that services and objects hold. -/
structure Manager (S O R : Type) where
  objchkcnt : ℕ
  state : State
  svcstore : Copies (Option ℕ)
  svcdq : ℕ → ServiceStub S
  crtsvcidx : ℕ
  svccnt : ℕ
  svccache : List ℕ
  objstore : Copies ℕ
  chunk : ℕ → ObjectChunk O R
  /-- the number of chunks allocated -/
  allocated : ℕ
  maxobjcnt : ℕ
  chkcache : List (Option ℕ)
  svcId : S → Option ℕ
  objId : O → Option ℕ

inductive ErrorCode where
  | serviceUnknown | serviceNotRunning | objectSchedule
  deriving DecidableEq, Repr

inductive Action (S O R : Type) where
  | registerService (s : S) (capacity : ℕ)
  | unregisterService (s : S)
  /-- `scheduled` is the answer of the schedule function -/
  | registerObject (s : S) (o : O) (r : R) (scheduled : Bool)
  | disableObjectVisits (o : O)
  | unregisterObject (o : O)
  | notify (uid : UniqueId)
  | notifyAll (s : S)

inductive Outcome (O R : Type) where
  | registered (ok : Bool)
  | unregistered
  | id (uid : UniqueId)
  | failed (e : ErrorCode)
  | disabled (ok : Bool)
  /-- the index that the object had -/
  | released (x : ℕ)
  | visited (os : List (O × R))
  deriving DecidableEq

/-- The copy `vec` becomes the current one. -/
def Copies.switch {β : Type} (t : Copies β) (vec : List β) : Copies β :=
  { cur := vec, other := t.cur, usecnt := 0, otherusecnt := t.usecnt }

namespace ObjectStub
variable {O R : Type}

def empty : ObjectStub O R := ⟨none, none, 0⟩

def target (u : ObjectStub O R) : Option (O × R) :=
  match u.pobject, u.preactor with
  | some o, some r => some (o, r)
  | _, _ => none

end ObjectStub

namespace ObjectChunk
variable {O R : Type}

def allocateChunk : ObjectChunk O R := ⟨none, none, 0, fun _ => .empty⟩

def clear (k : ObjectChunk O R) : ObjectChunk O R :=
  { k with svcidx := none, nextchk := none, objcnt := 0 }

def setObject (k : ObjectChunk O R) (j : ℕ) (u : ObjectStub O R) : ObjectChunk O R :=
  { k with object := update k.object j u }

/-- The visits of one chunk from position `i` on; `cnt` objects were visited, and no
    more than `objcnt` are. -/
def visitFrom (k : ObjectChunk O R) : ℕ → ℕ → ℕ → List (O × R)
  | 0, _, _ => []
  | n + 1, i, cnt =>
    if cnt < k.objcnt then
      match (k.object i).target with
      | some v => v :: k.visitFrom n (i + 1) (cnt + 1)
      | none => k.visitFrom n (i + 1) cnt
    else []

end ObjectChunk

namespace ServiceStub
variable {S : Type}

/-- The constructor, and `reset()`. -/
def reset : ServiceStub S := ⟨none, none, none, .stopped, none, none, 0, []⟩

/-- `reset(_psvc)` -/
def resetTo (s : S) : ServiceStub S := ⟨some s, none, none, .running, none, none, 0, []⟩

/-- `crtobjidx`, if it is before `endobjidx` -/
def nextIndex (u : ServiceStub S) : Option ℕ :=
  match u.crtobjidx, u.endobjidx with
  | some i, some e => if i < e then some i else none
  | _, _ => none

end ServiceStub

namespace Manager
variable {S O R : Type} [DecidableEq S] [DecidableEq O]

def new (objchkcnt : ℕ) : Manager S O R where
  objchkcnt := objchkcnt
  state := .running
  svcstore := ⟨[], [], 0, 0⟩
  svcdq := fun _ => .reset
  crtsvcidx := 0
  svccnt := 0
  svccache := []
  objstore := ⟨[], [], 0, 0⟩
  chunk := fun _ => .allocateChunk
  allocated := 0
  maxobjcnt := 0
  chkcache := []
  svcId := fun _ => none
  objId := fun _ => none

/-! ## Services -/

def svcPtr (m : Manager S O R) (i : ℕ) : Option ℕ := m.svcstore.cur[i]?.join

def setStub (m : Manager S O R) (p : ℕ) (u : ServiceStub S) : Manager S O R :=
  { m with svcdq := update m.svcdq p u }

@[simp] theorem svcdq_setStub {S O R : Type} (m : Manager S O R) (p : ℕ) (u : ServiceStub S) :
    (m.setStub p u).svcdq = update m.svcdq p u := rfl

/-- The index of a new service; the top of `svccache` is read and not popped. -/
def takeServiceIndex (m : Manager S O R) (capacity : ℕ) : Option (Manager S O R × ℕ) :=
  match m.svccache with
  | i :: _ => some (m, i)
  | [] =>
    let i := m.crtsvcidx
    let m' := { m.setStub i .reset with crtsvcidx := i + 1 }
    if i < m.svcstore.cur.length then
      some ({ m' with svcstore := { m.svcstore with cur := m.svcstore.cur.set i (some i) } }, i)
    else if m.svcstore.otherusecnt ≠ 0 then none
    else
      let vec := m.svcstore.cur ++ [none]
      let vec := vec ++ List.replicate (capacity - vec.length) none
      some ({ m' with svcstore := m.svcstore.switch (vec.set i (some i)) }, i)

def registerService (m : Manager S O R) (s : S) (capacity : ℕ) : Option (Manager S O R × Bool) :=
  if (m.svcId s).isSome then some (m, false)
  else if m.state ≠ .running then some (m, false)
  else do
    let (m, i) ← m.takeServiceIndex capacity
    let p ← m.svcPtr i
    some ({ m.setStub p (.resetTo s) with
      svcId := update m.svcId s (some i)
      svccnt := m.svccnt + 1 }, true)

/-- The loop of `doUnregisterService` over the chunks of the service; it has at most one
    turn for each chunk.  The index pushed is that of the next chunk. -/
def clearChunks : ℕ → Manager S O R → Option ℕ → Option (Manager S O R)
  | _, m, none => some m
  | 0, _, some _ => none
  | turns + 1, m, some chkidx => do
    let q ← m.objstore.cur[chkidx]?
    let next := (m.chunk q).nextchk
    clearChunks turns { m with
      chunk := update m.chunk q (m.chunk q).clear
      chkcache := next :: m.chkcache } next

def doUnregisterService (m : Manager S O R) (p : ℕ) : Option (Manager S O R) := do
  let s ← (m.svcdq p).psvc
  let i ← m.svcId s
  let m' ← clearChunks m.allocated m (m.svcdq p).firstchk
  some { m'.setStub p .reset with
    svccache := i :: m.svccache
    svcId := update m.svcId s none
    svccnt := m.svccnt - 1 }

/-- A stub of another service is left alone, and the table stays in use. -/
def unregisterService (m : Manager S O R) (s : S) : Option (Manager S O R) :=
  match m.svcId s with
  | none => some m
  | some i => do
    let p ← m.svcPtr i
    if (m.svcdq p).psvc ≠ some s then
      some { m with svcstore := { m.svcstore with usecnt := m.svcstore.usecnt + 1 } }
    else m.doUnregisterService p

/-! ## Objects -/

def chkPtr (m : Manager S O R) (x : ℕ) : Option ℕ := m.objstore.cur[x / m.objchkcnt]?

def setChunk (m : Manager S O R) (q : ℕ) (k : ObjectChunk O R) : Manager S O R :=
  { m with chunk := update m.chunk q k }

@[simp] theorem chunk_setChunk {S O R : Type} (m : Manager S O R) (q : ℕ) (k : ObjectChunk O R) :
    (m.setChunk q k).chunk = update m.chunk q k := rfl

/-- A chunk from the cache, or a new one at the end of the table. -/
def takeChunk (m : Manager S O R) : Option (Manager S O R × ℕ) :=
  match m.chkcache with
  | some chkidx :: rest => some ({ m with chkcache := rest }, chkidx)
  | none :: _ => none
  | [] =>
    if m.objstore.otherusecnt ≠ 0 then none
    else
      let vec := m.objstore.other ++ m.objstore.cur.drop m.objstore.other.length
      some ({ m.setChunk m.allocated .allocateChunk with
        objstore := m.objstore.switch (vec ++ [m.allocated])
        allocated := m.allocated + 1 }, vec.length)

/-- A chunk for the service with the stub `p`, linked behind its last one; the index is
    the first of the chunk. -/
def openChunk (m : Manager S O R) (p : ℕ) : Option (Manager S O R × ℕ) := do
  let (m, chkidx) ← m.takeChunk
  let x := chkidx * m.objchkcnt
  let m := { m with maxobjcnt := max m.maxobjcnt (x + m.objchkcnt) }
  let stub : ServiceStub S := { m.svcdq p with
    crtobjidx := some (x + 1)
    endobjidx := some (x + m.objchkcnt)
    lastchk := some chkidx }
  if stub.firstchk = none then
    some (m.setStub p { stub with firstchk := some chkidx }, x)
  else do
    let q ← (m.svcdq p).lastchk.bind fun l => m.objstore.cur[l]?
    some ((m.setChunk q { m.chunk q with nextchk := some chkidx }).setStub p stub, x)

def takeObjectIndex (m : Manager S O R) (p : ℕ) : Option (Manager S O R × ℕ) :=
  match (m.svcdq p).objcache with
  | x :: rest => some (m.setStub p { m.svcdq p with objcache := rest }, x)
  | [] =>
    match (m.svcdq p).nextIndex with
    | some x => some (m.setStub p { m.svcdq p with crtobjidx := some (x + 1) }, x)
    | none => m.openChunk p

/-- The object is put in its slot if it was scheduled; else the index is cached. -/
def placeObject (m : Manager S O R) (p x : ℕ) (s : S) (o : O) (r : R) (scheduled : Bool) :
    Option (Manager S O R × Outcome O R) := do
  let q ← m.chkPtr x
  let k := if (m.chunk q).svcidx = none then { m.chunk q with svcidx := m.svcId s } else m.chunk q
  let j := x % m.objchkcnt
  if scheduled then
    let u := k.object j
    let k' := { k.setObject j ⟨some o, some r, u.unique⟩ with objcnt := k.objcnt + 1 }
    let stub := { m.svcdq p with objcnt := (m.svcdq p).objcnt + 1 }
    some ({ (m.setChunk q k').setStub p stub with
      objId := update m.objId o (some x) }, .id ⟨x, u.unique⟩)
  else
    let stub := { m.svcdq p with objcache := x :: (m.svcdq p).objcache }
    some ((m.setChunk q k).setStub p stub, .failed .objectSchedule)

/-- The object is not registered. -/
def registerObject (m : Manager S O R) (s : S) (o : O) (r : R) (scheduled : Bool) :
    Option (Manager S O R × Outcome O R) :=
  if (m.objId o).isSome then none
  else
    match m.svcId s with
    | none => some (m, .failed .serviceUnknown)
    | some i => do
      let p ← m.svcPtr i
      if (m.svcdq p).psvc ≠ some s ∨ (m.svcdq p).state ≠ .running then
        some (m, .failed .serviceNotRunning)
      else do
        let (m, x) ← m.takeObjectIndex p
        m.placeObject p x s o r scheduled

/-- The counter of a slot has the width of `size_t`. -/
def uniqueLimit : ℕ := 2 ^ 64

def unregisterObject (m : Manager S O R) (o : O) : Option (Manager S O R × ℕ) := do
  let x ← m.objId o
  let q ← m.chkPtr x
  let k := m.chunk q
  let j := x % m.objchkcnt
  let i ← k.svcidx
  let p ← m.svcPtr i
  let u : ObjectStub O R := ⟨none, none, ((k.object j).unique + 1) % uniqueLimit⟩
  let k' := { k.setObject j u with objcnt := k.objcnt - 1 }
  let stub := { m.svcdq p with
    objcache := x :: (m.svcdq p).objcache
    objcnt := (m.svcdq p).objcnt - 1 }
  some ({ (m.setChunk q k').setStub p stub with objId := update m.objId o none }, x)

def disableObjectVisits (m : Manager S O R) (o : O) : Option (Manager S O R × Bool) :=
  match m.objId o with
  | none => some (m, false)
  | some x => do
    let q ← m.chkPtr x
    let k := m.chunk q
    let u := k.object (x % m.objchkcnt)
    some (m.setChunk q (k.setObject (x % m.objchkcnt) { u with preactor := none }),
      u.preactor.isSome)

/-! ## Visits -/

def doVisit (m : Manager S O R) (uid : UniqueId) : Option (List (O × R)) :=
  if uid.index < m.maxobjcnt then do
    let q ← m.chkPtr uid.index
    let u := (m.chunk q).object (uid.index % m.objchkcnt)
    some (if u.unique = uid.unique then u.target.toList else [])
  else some []

/-- The loop over the chunks of a service, with at most one turn for each chunk. -/
def visitChunks (m : Manager S O R) : ℕ → Option ℕ → Option (List (O × R))
  | _, none => some []
  | 0, some _ => none
  | turns + 1, some chkidx => do
    let q ← m.objstore.cur[chkidx]?
    let rest ← m.visitChunks turns (m.chunk q).nextchk
    some ((m.chunk q).visitFrom m.objchkcnt 0 0 ++ rest)

def doForEachServiceObject (m : Manager S O R) (s : S) : Option (List (O × R)) :=
  match m.svcId s with
  | none => some []
  | some i => do
    let p ← m.svcPtr i
    m.visitChunks m.allocated (m.svcdq p).firstchk

def exec (m : Manager S O R) : Action S O R → Option (Manager S O R × Outcome O R)
  | .registerService s capacity => (m.registerService s capacity).map fun r =>
    (r.1, .registered r.2)
  | .unregisterService s => (m.unregisterService s).map fun m' => (m', .unregistered)
  | .registerObject s o r scheduled => m.registerObject s o r scheduled
  | .disableObjectVisits o => (m.disableObjectVisits o).map fun r => (r.1, .disabled r.2)
  | .unregisterObject o => (m.unregisterObject o).map fun r => (r.1, .released r.2)
  | .notify uid => (m.doVisit uid).map fun os => (m, .visited os)
  | .notifyAll s => (m.doForEachServiceObject s).map fun os => (m, .visited os)

end Manager

/-! ## Runs -/

/-- The calls made on a new manager one after the other, all of them `ok`, with their
    outcomes, the last one first. -/
inductive Run {S O R : Type} [DecidableEq S] [DecidableEq O] (objchkcnt : ℕ)
    (ok : Manager S O R → Action S O R → Prop) :
    List (Action S O R × Outcome O R) → Manager S O R → Prop where
  | start : Run objchkcnt ok [] (.new objchkcnt)
  | step {tr} {m m' : Manager S O R} {out} (h : Run objchkcnt ok tr m) (a : Action S O R) :
      ok m a →
      m.exec a = some (m', out) →
      Run objchkcnt ok ((a, out) :: tr) m'

end SolidFrame.Frame
