/-
  SolidFrame formalization — the temporary files of the file store
  (`Utf8Controller` in `solid/frame/file/src/filestore.cpp`).

  A request for a temporary file waits in a vector until the store is executed.  The
  controller then looks for a storage with enough free space, and makes the temp there; the
  id of the request is scheduled for erase, which lets the store give the file to the client.
  A request that finds no space waits in a queue, with an entry for every storage that could
  take it.  A file that nobody uses is cleared, and its space is free again.

  * `executeBeforeErase` is the actions `consume`, a turn of its loop over the requests, and
    `deliver`, what follows; other threads may make requests between them;
  * an action `execute` begins an execution of the store, with or without a signal before it.

  Left out: the files that are no temps, the devices of the temps and the way they are
  removed.  The index of a request is the choice of the store.
-/
import SolidFrame.Frame.SharedStore

namespace SolidFrame

/-! ## Data -/

def memoryLevelFlag : ℕ := 1

/-- `TempConfiguration::Storage`. -/
structure TempStorageConfiguration where
  path : String
  level : ℕ
  capacity : UInt64
  minsize : UInt64
  maxsize : UInt64
  deriving DecidableEq, Repr

inductive TempKind where
  | memory | file
  deriving DecidableEq, Repr

/-- `TempBase`, made as a `TempMemory` or a `TempFile`. -/
structure TempBase where
  tempstorageid : ℕ
  tempid : ℕ
  tempsize : UInt64
  kind : TempKind
  deriving DecidableEq, Repr

/-- `TempWaitStub`: the file is the one of the object, or null; `value` holds the flags of the
    request and, in the queue, the index of a storage. -/
structure TempWaitStub where
  objuid : UniqueId
  pfile : Option ℕ
  size : UInt64
  value : ℕ
  deriving DecidableEq, Repr

/-- `TempConfigurationImpl::Storage`; the top of `idcache` is its head. -/
structure TempStorage where
  path : String
  level : ℕ
  capacity : UInt64
  minsize : UInt64
  maxsize : UInt64
  waitcount : ℕ := 0
  waitsizefirst : UInt64 := 0
  usedsize : UInt64 := 0
  currentid : ℕ := 0
  idcache : List ℕ := []
  enqued : Bool := false
  deriving DecidableEq, Repr

namespace TempStorage

def ofConfiguration (cfg : TempStorageConfiguration) : TempStorage where
  path := cfg.path
  level := cfg.level
  capacity := cfg.capacity
  minsize := cfg.minsize
  maxsize := if cfg.capacity < cfg.maxsize ∨ cfg.maxsize = 0 then cfg.capacity else cfg.maxsize

variable (strg : TempStorage)

def canUse (sz : UInt64) (flags : ℕ) : Bool :=
  flags &&& strg.level != 0 && decide (sz ≤ strg.maxsize) && decide (strg.minsize ≤ sz)

def shouldUse (sz : UInt64) : Bool :=
  strg.waitcount == 0 && decide (sz ≤ strg.capacity - strg.usedsize)

def canDeliver : Bool :=
  strg.waitcount != 0 && decide (strg.waitsizefirst ≤ strg.capacity - strg.usedsize)

/-- The id of a new temp: one that was given back, or the next one. -/
def fileid : ℕ := strg.idcache.head?.getD strg.currentid

/-- What `doPrepareOpenTemp` does to the storage. -/
def take (sz : UInt64) : TempStorage :=
  match strg.idcache with
  | _ :: ids => { strg with idcache := ids, usedsize := strg.usedsize + sz }
  | [] => { strg with currentid := strg.currentid + 1, usedsize := strg.usedsize + sz }

/-- What `doCloseTemp` does to the storage. -/
def giveBack (temp : TempBase) : TempStorage :=
  { strg with usedsize := strg.usedsize - temp.tempsize, idcache := temp.tempid :: strg.idcache }

/-- The temp that `doPrepareOpenTemp` makes. -/
def newTemp (storeid : ℕ) (sz : UInt64) : TempBase where
  tempstorageid := storeid
  tempid := strg.fileid
  tempsize := sz
  kind := if strg.level &&& memoryLevelFlag ≠ 0 ∧ strg.path = "" then .memory else .file

end TempStorage

/-- What can be seen of an execution: a temp is made for the request with the id, and an id
    is added to the erase vector. -/
inductive TempEvent where
  | prepared (uid : UniqueId) (storeid : ℕ)
  | scheduled (uid : UniqueId)
  deriving DecidableEq, Repr

inductive ExecPhase where
  | idle
  /-- in the loop of `executeBeforeErase`, with the requests that are left -/
  | consuming (rest : List TempWaitStub)
  /-- after `executeBeforeErase`, where files are cleared -/
  | clearing
  deriving DecidableEq, Repr

/-- `Utf8Controller::Data`, as far as temps go, with the temps of the files and the phase of
    the execution.  `storagevec` has `storageCount` elements. -/
structure TempStore where
  storagevec : ℕ → TempStorage
  storageCount : ℕ
  tempidxvec : List ℕ
  tempwaitdq : List TempWaitStub
  pfilltempwaitvec : List TempWaitStub
  pconstempwaitvec : List TempWaitStub
  /-- `ptmp` of the file at an index of the store -/
  ptmp : ℕ → Option TempBase
  phase : ExecPhase

namespace TempStore

def new (cfg : List TempStorageConfiguration) : TempStore where
  storagevec i := .ofConfiguration (cfg.getD i ⟨"", 0, 0, 0, 0⟩)
  storageCount := cfg.length
  tempidxvec := []
  tempwaitdq := []
  pfilltempwaitvec := []
  pconstempwaitvec := []
  ptmp _ := none
  phase := .idle

variable (s : TempStore)

def modifyStorage (i : ℕ) (f : TempStorage → TempStorage) : TempStore :=
  { s with storagevec := Function.update s.storagevec i (f (s.storagevec i)) }

/-! ## Temps are made and closed -/

def doPrepareOpenTemp (idx : ℕ) (sz : UInt64) (storeid : ℕ) : TempStore :=
  { s.modifyStorage storeid (·.take sz) with
    ptmp := Function.update s.ptmp idx (some ((s.storagevec storeid).newTemp storeid sz)) }

def doCloseTemp (temp : TempBase) : TempStore :=
  s.modifyStorage temp.tempstorageid (·.giveBack temp)

/-- The storage is listed for delivery, unless it is already. -/
def enqueStorage (storeid : ℕ) : TempStore :=
  if (s.storagevec storeid).canDeliver ∧ (s.storagevec storeid).enqued = false then
    { s.modifyStorage storeid fun strg => { strg with enqued := true } with
      tempidxvec := s.tempidxvec ++ [storeid] }
  else s

def clear (idx : ℕ) : TempStore :=
  match s.ptmp idx with
  | none => s
  | some temp =>
    { s.doCloseTemp temp with ptmp := Function.update s.ptmp idx none }.enqueStorage
      temp.tempstorageid

/-! ## Requests are consumed -/

def preparePointer (uid : UniqueId) (size : UInt64) (openflags : ℕ) : TempStore :=
  { s with pfilltempwaitvec := s.pfilltempwaitvec ++ [⟨uid, some uid.index, size, openflags⟩] }

/-- `executeOnSignal`: the vectors are exchanged, and the one to fill is emptied. -/
def executeOnSignal : TempStore :=
  { s with pfilltempwaitvec := [], pconstempwaitvec := s.pfilltempwaitvec }

/-- The entry that waits for a storage. -/
def pushWaiting (waitit : TempWaitStub) (strgidx : ℕ) : TempStore :=
  { s.modifyStorage strgidx fun strg => { strg with
      waitcount := strg.waitcount + 1
      waitsizefirst := if strg.waitcount = 0 then waitit.size else strg.waitsizefirst } with
    tempwaitdq := s.tempwaitdq ++ [{ waitit with value := strgidx }] }

/-- The request at a storage that can be used: the temp is made there, and the queue is cut
    back to the size it had before the request, or the request waits for the storage. -/
def useStorage (waitit : TempWaitStub) (tempwaitdqsize strgidx : ℕ) : TempStore × List TempEvent :=
  if (s.storagevec strgidx).shouldUse waitit.size then
    ({ s with tempwaitdq := s.tempwaitdq.take tempwaitdqsize }.doPrepareOpenTemp
        waitit.objuid.index waitit.size strgidx,
      [.prepared waitit.objuid strgidx, .scheduled waitit.objuid])
  else (s.pushWaiting waitit strgidx, [])

/-- The loop over the storages, for one request.  A storage that takes the request does not
    end it. -/
def offer (waitit : TempWaitStub) (tempwaitdqsize : ℕ) :
    List ℕ → TempStore → TempStore × List TempEvent
  | [], s => (s, [])
  | i :: is, s =>
    if (s.storagevec i).canUse waitit.size waitit.value then
      let r := s.useStorage waitit tempwaitdqsize i
      let q := offer waitit tempwaitdqsize is r.1
      (q.1, r.2 ++ q.2)
    else offer waitit tempwaitdqsize is s

def canuse (waitit : TempWaitStub) : Bool :=
  (List.range s.storageCount).any fun i => (s.storagevec i).canUse waitit.size waitit.value

/-- A turn of the loop over the requests. -/
def consume (waitit : TempWaitStub) : TempStore × List TempEvent :=
  let r := offer waitit s.tempwaitdq.length (List.range s.storageCount) s
  (r.1, if s.canuse waitit then r.2 else r.2 ++ [.scheduled waitit.objuid])

/-! ## Waiting requests are delivered -/

/-- The loop that looks for the first entry waiting for a storage.  `passed` are the entries
    before the iterator `waitit`, `run` those from it on. -/
def findWaiting (storeid : ℕ) (passed run : List TempWaitStub) : List TempWaitStub →
    Option (List TempWaitStub × List TempWaitStub × TempWaitStub × List TempWaitStub)
  | [] => none
  | e :: es =>
    let same := run.head?.all (·.objuid.index = e.objuid.index)
    let passed' := if same then passed else passed ++ run
    let run' := if same then run else []
    if e.value = storeid then some (passed', run', e, es)
    else findWaiting storeid passed' (run' ++ [e]) es

/-- The loop of `doDeliverTemp` from an iterator on, for at most `n` turns: `done` are the
    entries before it, `todo` those from it on; `none` when an iterator at the end or a null
    file is used. -/
def deliverLoop (storeid : ℕ) :
    ℕ → List TempWaitStub → List TempWaitStub → TempStore → Option (TempStore × List TempEvent)
  | 0, done, todo, s => some ({ s with tempwaitdq := done ++ todo }, [])
  | n + 1, done, todo, s => do
    if todo = [] then return ({ s with tempwaitdq := done }, [])
    let (passed, run, it, after) ← findWaiting storeid [] [] todo
    let s₁ := s.modifyStorage storeid fun strg =>
      if strg.waitsizefirst = 0 then { strg with waitsizefirst := it.size } else strg
    if (s₁.storagevec storeid).canDeliver then
      let idx ← it.pfile
      let s₂ := (s₁.modifyStorage storeid fun strg => { strg with
        waitcount := strg.waitcount - 1, waitsizefirst := 0 }).doPrepareOpenTemp idx it.size storeid
      let gone := fun e : TempWaitStub => e.objuid.index = it.objuid.index ∨ e.pfile = none
      let erased := (run ++ it :: after).takeWhile gone
      let left := (run ++ it :: after).dropWhile gone
      -- at the front of the queue the entries are erased, elsewhere they get a null file
      let done' := if done ++ passed = [] then []
        else done ++ passed ++ erased.map fun e => { e with pfile := none }
      let events := [.prepared it.objuid storeid, .scheduled it.objuid]
      if (s₂.storagevec storeid).waitcount = 0 then
        return ({ s₂ with tempwaitdq := done' ++ left }, events)
      let r ← deliverLoop storeid n done' left s₂
      return (r.1, events ++ r.2)
    else return ({ s₁ with tempwaitdq := done ++ todo }, [])

def doDeliverTemp (storeid : ℕ) : Option (TempStore × List TempEvent) :=
  deliverLoop storeid s.tempwaitdq.length [] s.tempwaitdq
    (s.modifyStorage storeid fun strg => { strg with enqued := false })

/-- The loop over the listed storages, from the iterator `first` to the iterator `last`. -/
def deliverRange (first last : ℕ) : Option (TempStore × List TempEvent) :=
  ((s.tempidxvec.take last).drop first).foldlM (fun r storeid =>
    (r.1.doDeliverTemp storeid).map fun q => (q.1, r.2 ++ q.2)) (s, [])

/-- The end of `executeBeforeErase`; both iterators of its loop are `begin()`. -/
def deliver : Option (TempStore × List TempEvent) :=
  if s.tempidxvec = [] then some (s, [])
  else (s.deliverRange 0 0).map fun r => ({ r.1 with tempidxvec := [] }, r.2)

/-! ## Steps -/

/-- The requests that the loop of `executeBeforeErase` has still to look at. -/
def todo : List TempWaitStub :=
  match s.phase with
  | .consuming rest => rest
  | _ => []

/-- `onEvent` up to the loop of `executeBeforeErase`.  Without a signal the vector to consume
    is the one of the execution before. -/
def execute (signal : Bool) : TempStore :=
  let s' := if signal then s.executeOnSignal else s
  { s' with phase := .consuming s'.pconstempwaitvec }

end TempStore

inductive TempAction where
  | request (uid : UniqueId) (size : UInt64) (openflags : ℕ)
  | execute (signal : Bool)
  | consume
  | deliver
  | clear (idx : ℕ)
  | finish
  deriving DecidableEq, Repr

namespace TempStore

variable (s : TempStore)

/-- A step; `none` when it is not one of this state. -/
def exec : TempAction → Option (TempStore × List TempEvent)
  | .request uid size openflags => some (s.preparePointer uid size openflags, [])
  | .execute signal => if s.phase = .idle then some (s.execute signal, []) else none
  | .consume =>
    match s.phase with
    | .consuming (waitit :: rest) => some ({ s with phase := .consuming rest }.consume waitit)
    | _ => none
  | .deliver =>
    if s.phase = .consuming [] then
      s.deliver.map fun r => ({ r.1 with phase := .clearing }, r.2)
    else none
  | .clear idx => if s.phase = .clearing then some (s.clear idx, []) else none
  | .finish => if s.phase = .clearing then some ({ s with phase := .idle }, []) else none

/-- The requests that were made and not yet consumed, the oldest one first. -/
def pending : List TempWaitStub := s.todo ++ s.pfilltempwaitvec

end TempStore

def TempAction.requests : TempAction → List TempWaitStub
  | .request uid size openflags => [⟨uid, some uid.index, size, openflags⟩]
  | _ => []

/-- The runs of a store whose steps all meet a condition, with the requests that were made
    and with what was seen of the executions. -/
inductive TempRun (ok : TempStore → TempAction → Prop) (cfg : List TempStorageConfiguration) :
    List TempWaitStub → List TempEvent → TempStore → Prop where
  | start : TempRun ok cfg [] [] (.new cfg)
  | step {rs tr ev} {s s' : TempStore} (a : TempAction) :
      TempRun ok cfg rs tr s →
      ok s a →
      s.exec a = some (s', ev) →
      TempRun ok cfg (rs ++ a.requests) (tr ++ ev) s'

end SolidFrame
