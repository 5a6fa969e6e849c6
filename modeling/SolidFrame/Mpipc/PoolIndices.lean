/-
  SolidFrame formalization — the indices of the connection pools
  (`Service` in `solid/frame/mpipc/src/mpipcservice.cpp`).

  A pool is a place in `pooldq`; the indices of the places that are free are kept on a stack,
  and `doPushNewConnectionPool` makes new places when the stack is empty.
-/
import Mathlib.Data.List.Nodup

namespace SolidFrame

open List

/-- A place of `pooldq`.  `connections` stands for its three 16-bit counters: it is their sum as
    long as the pool has less than 65536 connections. -/
structure PoolSlot where
  unique : UInt32 := 0
  connections : ℕ := 0
  deriving DecidableEq, Repr

/-- `Service::Data`, as far as the indices of the pools go; the top of the stack is its
    head. -/
structure PoolTable where
  mtxsarrcp : UInt64
  pooldq : List PoolSlot := []
  conpoolcachestk : List UInt64 := []
  deriving DecidableEq, Repr

def PoolSlot.clear (p : PoolSlot) : PoolSlot := ⟨p.unique + 1, 0⟩

namespace PoolTable
variable (t : PoolTable)

def setPool (idx : UInt64) (p : PoolSlot) : PoolTable :=
  { t with pooldq := t.pooldq.set idx.toNat p }

def pushIndex (idx : UInt64) : PoolTable :=
  { t with conpoolcachestk := idx :: t.conpoolcachestk }

/-- The loop of `doPushNewConnectionPool`, for `n` turns. -/
def pushNewPools : ℕ → PoolTable → PoolTable
  | 0, t => t
  | n + 1, t => pushNewPools n { t with
      pooldq := t.pooldq ++ [({} : PoolSlot)]
      conpoolcachestk :=
        (t.mtxsarrcp - UInt64.ofNat t.pooldq.length - 1) :: t.conpoolcachestk }

/-- The index on top of the stack; `none` when the stack is empty. -/
def popIndex : Option (UInt64 × PoolTable) :=
  match t.conpoolcachestk with
  | idx :: rest => some (idx, { t with conpoolcachestk := rest })
  | [] => none

def doPushNewConnectionPool : Option (UInt64 × PoolTable) :=
  (pushNewPools t.mtxsarrcp.toNat t).popIndex

def takeIndex : Option (UInt64 × PoolTable) :=
  if t.conpoolcachestk = [] then t.doPushNewConnectionPool else t.popIndex

/-- A pool is made, and its first connection started or not; `none` when the stack is empty
    or the index is not one of `pooldq`. -/
def newPool (started : Bool) : Option PoolTable := do
  let (idx, t') ← t.takeIndex
  let rpool ← t'.pooldq[idx.toNat]?
  if started then return t'.setPool idx { rpool with connections := rpool.connections + 1 }
  else return (t'.setPool idx rpool.clear).pushIndex idx

def doSendMessageToNewPool (started : Bool) : Option PoolTable := t.newPool started

def acceptIncomingConnection (started : Bool) : Option PoolTable := t.newPool started

def startConnection (idx : UInt64) : Option PoolTable := do
  let rpool ← t.pooldq[idx.toNat]?
  if rpool.connections = 0 then none
  else return t.setPool idx { rpool with connections := rpool.connections + 1 }

def connectionStop (idx : UInt64) (unique : UInt32) : Option PoolTable := do
  let rpool ← t.pooldq[idx.toNat]?
  if rpool.unique ≠ unique then return t
  else if rpool.connections = 0 then none
  else if rpool.connections = 1 then return (t.setPool idx rpool.clear).pushIndex idx
  else return t.setPool idx { rpool with connections := rpool.connections - 1 }

end PoolTable

inductive PoolAction where
  | doSendMessageToNewPool (started : Bool)
  | acceptIncomingConnection (started : Bool)
  | startConnection (idx : UInt64)
  | connectionStop (idx : UInt64) (unique : UInt32)
  deriving DecidableEq, Repr

def PoolTable.exec (t : PoolTable) : PoolAction → Option PoolTable
  | .doSendMessageToNewPool started => t.doSendMessageToNewPool started
  | .acceptIncomingConnection started => t.acceptIncomingConnection started
  | .startConnection idx => t.startConnection idx
  | .connectionStop idx unique => t.connectionStop idx unique

/-- The runs of a service with an array of `m` mutexes, whose steps all meet a condition. -/
inductive PoolRun (ok : PoolTable → PoolAction → Prop) (m : UInt64) : PoolTable → Prop where
  | start : PoolRun ok m ⟨m, [], []⟩
  | step {t t' : PoolTable} (a : PoolAction) :
      PoolRun ok m t →
      ok t a →
      t.exec a = some t' →
      PoolRun ok m t'

namespace PoolTable
variable {t t' : PoolTable} {idx : UInt64} {p : PoolSlot}

/-! ## The stack -/

def Free (t : PoolTable) (idx : UInt64) : Prop :=
  ∃ p, t.pooldq[idx.toNat]? = some p ∧ p.connections = 0

/-- The stack holds different indices of pools that are not in use. -/
structure Indices (t : PoolTable) : Prop where
  nodup : t.conpoolcachestk.Nodup
  free : ∀ idx ∈ t.conpoolcachestk, t.Free idx

theorem Indices.setPool (h : t.Indices) (hidx : idx ∉ t.conpoolcachestk) :
    (t.setPool idx p).Indices := by
  refine ⟨h.nodup, fun idx' hmem => ?_⟩
  have hne : idx.toNat ≠ idx'.toNat := by
    intro heq
    rw [UInt64.toNat_inj.1 heq] at hidx
    exact hidx hmem
  obtain ⟨q, hq, hfree⟩ := h.free idx' hmem
  exact ⟨q, (getElem?_set_ne hne).trans hq, hfree⟩

/-- **An index is given back**: that of a pool that was cleared. -/
theorem Indices.push (h : t.Indices) (hidx : idx ∉ t.conpoolcachestk)
    (hlt : idx.toNat < t.pooldq.length) (hp : p.connections = 0) :
    ((t.setPool idx p).pushIndex idx).Indices := by
  refine ⟨nodup_cons.2 ⟨hidx, h.nodup⟩, fun idx' hmem => ?_⟩
  rcases mem_cons.1 hmem with rfl | hmem
  · exact ⟨p, getElem?_set_self hlt, hp⟩
  · exact (h.setPool hidx).free idx' hmem

/-- **An index is taken**: it is that of a free pool, and no longer on the stack. -/
theorem Indices.popIndex (h : t.Indices) (hpop : t.popIndex = some (idx, t')) :
    t'.Indices ∧ t'.Free idx ∧ idx ∉ t'.conpoolcachestk := by
  unfold PoolTable.popIndex at hpop
  split at hpop
  · rename_i idx' rest hstk
    cases hpop
    have hnodup := h.nodup
    have hfree := h.free
    rw [hstk] at hnodup hfree
    obtain ⟨hidx, hnodup⟩ := nodup_cons.1 hnodup
    exact ⟨⟨hnodup, fun i hi => hfree i (mem_cons_of_mem _ hi)⟩, hfree _ mem_cons_self, hidx⟩
  · cases hpop

/-! ## New places -/

/-- The loop of `doPushNewConnectionPool` after `k` turns, when no place was made before. -/
structure Growing (t : PoolTable) (k : ℕ) : Prop where
  length : t.pooldq.length = k
  unused : ∀ p ∈ t.pooldq, p.connections = 0
  count : t.conpoolcachestk.length = k
  bounds : ∀ idx ∈ t.conpoolcachestk,
    t.mtxsarrcp.toNat - k ≤ idx.toNat ∧ idx.toNat < t.mtxsarrcp.toNat
  nodup : t.conpoolcachestk.Nodup

theorem Growing.turn {k : ℕ} (h : t.Growing k) (hk : k < t.mtxsarrcp.toNat) : ({ t with
      pooldq := t.pooldq ++ [({} : PoolSlot)]
      conpoolcachestk :=
        (t.mtxsarrcp - UInt64.ofNat t.pooldq.length - 1) :: t.conpoolcachestk }).Growing
      (k + 1) := by
  have hm := t.mtxsarrcp.toNat_lt
  have hofNat : (UInt64.ofNat k).toNat = k := UInt64.toNat_ofNat_of_lt (by show k < 2 ^ 64; omega)
  have hsub : (t.mtxsarrcp - UInt64.ofNat k).toNat = t.mtxsarrcp.toNat - k := by
    rw [UInt64.toNat_sub_of_le _ _ (UInt64.le_iff_toNat_le.2 (by omega)), hofNat]
  have hidx : (t.mtxsarrcp - UInt64.ofNat k - 1).toNat = t.mtxsarrcp.toNat - k - 1 := by
    have hone : (1 : UInt64).toNat = 1 := rfl
    rw [UInt64.toNat_sub_of_le _ _ (UInt64.le_iff_toNat_le.2 (by omega)), hsub, hone]
  simp only [h.length]
  refine ⟨?_, ?_, ?_, ?_, ?_⟩
  · simp [h.length]
  · intro p hp
    rcases mem_append.1 hp with hp | hp
    · exact h.unused p hp
    · rw [mem_singleton.1 hp]
  · simp [h.count]
  · intro idx hmem
    show t.mtxsarrcp.toNat - (k + 1) ≤ idx.toNat ∧ idx.toNat < t.mtxsarrcp.toNat
    rcases mem_cons.1 hmem with rfl | hmem
    · omega
    · have hbounds := h.bounds idx hmem
      omega
  · refine nodup_cons.2 ⟨fun hmem => ?_, h.nodup⟩
    have hbounds := h.bounds _ hmem
    omega

theorem Growing.pushNewPools (n : ℕ) {k : ℕ} (h : t.Growing k) (hk : k + n ≤ t.mtxsarrcp.toNat) :
    (pushNewPools n t).Growing (k + n) ∧ (pushNewPools n t).mtxsarrcp = t.mtxsarrcp := by
  induction n generalizing t k with
  | zero => exact ⟨h, rfl⟩
  | succ n ih =>
    obtain ⟨hgrown, hm⟩ := ih (h.turn (by omega)) (by show k + 1 + n ≤ t.mtxsarrcp.toNat; omega)
    rw [Nat.add_right_comm, Nat.add_assoc k n 1] at hgrown
    exact ⟨hgrown, hm⟩

/-- **The first places**: all of them are free, and the stack has their indices. -/
theorem indices_pushNewPools (hdq : t.pooldq = []) (hstk : t.conpoolcachestk = []) :
    (pushNewPools t.mtxsarrcp.toNat t).Indices ∧
      (pushNewPools t.mtxsarrcp.toNat t).conpoolcachestk.length = t.mtxsarrcp.toNat := by
  have hstart : t.Growing 0 := by
    constructor <;> simp [hdq, hstk]
  obtain ⟨hgrown, hm⟩ := hstart.pushNewPools t.mtxsarrcp.toNat (by omega)
  rw [Nat.zero_add] at hgrown
  refine ⟨⟨hgrown.nodup, fun idx hmem => ?_⟩, hgrown.count⟩
  have hlt : idx.toNat < (pushNewPools t.mtxsarrcp.toNat t).pooldq.length := by
    rw [hgrown.length, ← hm]
    exact (hgrown.bounds idx hmem).2
  exact ⟨_, getElem?_eq_getElem hlt, hgrown.unused _ (getElem_mem hlt)⟩

/-! ## Steps -/

/-- The condition of a creation: an index is on the stack, or no place was made before and
    the array of mutexes is not empty. -/
def HasRoom (t : PoolTable) : Prop :=
  t.conpoolcachestk ≠ [] ∨ t.pooldq = [] ∧ 0 < t.mtxsarrcp.toNat

def Roomy (t : PoolTable) : PoolAction → Prop
  | .doSendMessageToNewPool _ => t.HasRoom
  | .acceptIncomingConnection _ => t.HasRoom
  | _ => True

/-- **With room an index is taken**, that of a pool that is not in use. -/
theorem Indices.takeIndex (h : t.Indices) (hroom : t.HasRoom) :
    ∃ idx t', t.takeIndex = some (idx, t') ∧ t'.Indices ∧ t'.Free idx ∧
      idx ∉ t'.conpoolcachestk := by
  have hpop : ∀ u : PoolTable, u.Indices → u.conpoolcachestk ≠ [] →
      ∃ idx t', u.popIndex = some (idx, t') ∧ t'.Indices ∧ t'.Free idx ∧
        idx ∉ t'.conpoolcachestk := by
    intro u hu hne
    obtain ⟨idx, rest, hstk⟩ := exists_cons_of_ne_nil hne
    have hsome : u.popIndex = some (idx, { u with conpoolcachestk := rest }) := by
      simp only [PoolTable.popIndex, hstk]
    exact ⟨idx, _, hsome, hu.popIndex hsome⟩
  unfold PoolTable.takeIndex
  by_cases hstk : t.conpoolcachestk = []
  · obtain ⟨hdq, hm⟩ := hroom.resolve_left (not_not_intro hstk)
    obtain ⟨hindices, hlength⟩ := indices_pushNewPools hdq hstk
    rw [if_pos hstk]
    refine hpop _ hindices fun hnil => ?_
    rw [hnil, length_nil] at hlength
    omega
  · rw [if_neg hstk]
    exact hpop t h hstk

theorem Indices.newPool (h : t.Indices) (hroom : t.HasRoom) {started : Bool}
    (hnew : t.newPool started = some t') : t'.Indices := by
  obtain ⟨idx, u, htake, hu, ⟨rpool, hget, hfree⟩, hidx⟩ := h.takeIndex hroom
  have hlt : idx.toNat < u.pooldq.length := (List.getElem?_eq_some_iff.1 hget).1
  simp only [PoolTable.newPool, htake, hget, Option.bind_eq_bind, Option.bind_some] at hnew
  split_ifs at hnew <;> cases hnew
  · exact hu.setPool hidx
  · exact hu.push hidx hlt rfl

/-- **One step.** -/
theorem Indices.exec {a : PoolAction} (h : t.Indices) (hok : t.Roomy a)
    (hexec : t.exec a = some t') : t'.Indices := by
  -- the index of a pool with a connection is not on the stack
  have hused : ∀ {idx : UInt64} {p : PoolSlot}, t.pooldq[idx.toNat]? = some p →
      p.connections ≠ 0 → idx ∉ t.conpoolcachestk := by
    intro idx p hp hne hmem
    obtain ⟨q, hq, hfree⟩ := h.free idx hmem
    rw [hp] at hq
    cases hq
    exact hne hfree
  cases a with
  | doSendMessageToNewPool started => exact h.newPool hok hexec
  | acceptIncomingConnection started => exact h.newPool hok hexec
  | startConnection idx =>
    obtain ⟨rpool, hget, hexec⟩ := Option.bind_eq_some_iff.1 hexec
    split_ifs at hexec with hzero
    cases hexec
    exact h.setPool (hused hget hzero)
  | connectionStop idx unique =>
    obtain ⟨rpool, hget, hexec⟩ := Option.bind_eq_some_iff.1 hexec
    have hlt : idx.toNat < t.pooldq.length := (List.getElem?_eq_some_iff.1 hget).1
    split_ifs at hexec with hunique hzero hone <;> cases hexec
    · exact h
    · exact h.push (hused hget hzero) hlt rfl
    · exact h.setPool (hused hget hzero)

end PoolTable

/-! ## Runs -/

namespace PoolRun
open PoolTable
variable {m : UInt64} {t : PoolTable}

theorem stack (h : PoolRun Roomy m t) : t.Indices := by
  induction h with
  | start => exact ⟨nodup_nil, fun _ h => by cases h⟩
  | step a _ hok hexec ih => exact ih.exec hok hexec

/-- **Every index that is taken is one of a free pool**, and no index is on the stack twice,
    in every run whose creations have room. -/
theorem indices_free (h : PoolRun Roomy m t) :
    t.conpoolcachestk.Nodup ∧ (t.HasRoom → ∃ idx t', t.takeIndex = some (idx, t') ∧
      ∃ hlt : idx.toNat < t'.pooldq.length, t'.pooldq[idx.toNat].connections = 0) := by
  refine ⟨h.stack.nodup, fun hroom => ?_⟩
  obtain ⟨idx, t', htake, -, ⟨p, hp, hfree⟩, -⟩ := h.stack.takeIndex hroom
  obtain ⟨hlt, rfl⟩ := List.getElem?_eq_some_iff.1 hp
  exact ⟨idx, t', htake, hlt, hfree⟩

/-- Two pools, one that a message opens and one that is accepted. -/
theorem indices_two_pools :
    ∃ t, PoolRun Roomy 2 t ∧ t.conpoolcachestk.Nodup ∧ t.pooldq = [⟨0, 1⟩, ⟨0, 1⟩] := by
  have hrun := (PoolRun.start : PoolRun Roomy 2 _).step (.doSendMessageToNewPool true)
    (.inr ⟨rfl, by decide⟩) rfl
    |>.step (.acceptIncomingConnection true) (.inl (by decide)) rfl
  exact ⟨_, hrun, hrun.indices_free.1, by decide⟩

/-- **The second growth pushes indices that do not exist**: from the size of `mtxsarrcp` the
    running size of `pooldq` is subtracted, which is greater by then. -/
theorem indices_second_growth :
    ∃ t idx t', PoolRun (fun _ _ => True) 1 t ∧ t.takeIndex = some (idx, t') ∧
      t'.pooldq.length ≤ idx.toNat := by
  have hrun := (PoolRun.start : PoolRun (fun _ _ => True) 1 _).step
    (.doSendMessageToNewPool true) trivial rfl
  exact ⟨_, _, _, hrun, rfl, by decide⟩

end PoolRun

end SolidFrame
