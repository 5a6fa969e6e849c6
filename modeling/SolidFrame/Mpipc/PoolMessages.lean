/-
  SolidFrame formalization — the messages of a connection pool
  (`ConnectionPoolStub` in `solid/frame/mpipc/src/mpipcservice.cpp`).

  A pool keeps the messages that no connection has taken yet.  Their stubs are the
  elements of `msgvec`; the order list and the cache list use one link field, the list of
  asynchronous messages another.
-/
import SolidFrame.Mpipc.Message
import SolidFrame.Utility.InnerList

namespace SolidFrame

open Function List

abbrev ObjectId := ℕ

def MessageFlags.isAsynchronous (f : MessageFlags) : Bool := !f.synchronous

namespace PoolMessages

/-- `MessageStub` of a pool, without its links. -/
structure MessageStub (β F : Type) where
  msgbundle : MessageBundle β F := {}
  msgid : MessageId := {}
  objid : Option ObjectId := none
  unique : ℕ := 0
  cancelable : Bool := false

namespace MessageStub
variable {β F : Type}

def clear (s : MessageStub β F) : MessageStub β F where
  unique := (s.unique + 1) % 2 ^ 32

def isAsynchronous (s : MessageStub β F) : Bool := s.msgbundle.messageFlags.isAsynchronous

end MessageStub

end PoolMessages

/-- The members of `ConnectionPoolStub` that hold messages: `msgvec` (the first `vecSize`
    stubs) with its two link fields, and the lists. -/
structure PoolMessages (β F : Type) where
  msgvec : ℕ → PoolMessages.MessageStub β F
  vecSize : ℕ
  orderLinks : Links
  asyncLinks : Links
  msgorderInnerList : InnerList
  msgcacheInnerList : InnerList
  msgasyncInnerList : InnerList

namespace PoolMessages
variable {β F : Type}

def new : PoolMessages β F where
  msgvec _ := {}
  vecSize := 0
  orderLinks _ := ⟨none, none⟩
  asyncLinks _ := ⟨none, none⟩
  msgorderInnerList := .empty
  msgcacheInnerList := .empty
  msgasyncInnerList := .empty

section Model
variable (m : PoolMessages β F)

/-! ## Stubs and lists -/

def modifyStub (i : ℕ) (f : MessageStub β F → MessageStub β F) : PoolMessages β F :=
  { m with msgvec := update m.msgvec i (f (m.msgvec i)) }

def withOrder (l : InnerList × Links) : PoolMessages β F :=
  { m with msgorderInnerList := l.1, orderLinks := l.2 }

def withCache (l : InnerList × Links) : PoolMessages β F :=
  { m with msgcacheInnerList := l.1, orderLinks := l.2 }

def withAsync (l : InnerList × Links) : PoolMessages β F :=
  { m with msgasyncInnerList := l.1, asyncLinks := l.2 }

def messageId (i : ℕ) : MessageId := ⟨some i, (m.msgvec i).unique⟩

/-- The stub becomes the last of the order list and, when it is asynchronous, of the
    asynchronous one. -/
def linkBack (i : ℕ) (async : Bool) : PoolMessages β F :=
  let m₁ := m.withOrder (m.msgorderInnerList.pushBack m.orderLinks i)
  if async then m₁.withAsync (m₁.msgasyncInnerList.pushBack m₁.asyncLinks i) else m₁

def linkFront (i : ℕ) (async : Bool) : PoolMessages β F :=
  let m₁ := m.withOrder (m.msgorderInnerList.pushFront m.orderLinks i)
  if async then m₁.withAsync (m₁.msgasyncInnerList.pushFront m₁.asyncLinks i) else m₁

def unlink (i : ℕ) (async : Bool) : PoolMessages β F :=
  let m₁ := m.withOrder (m.msgorderInnerList.erase m.orderLinks i)
  if async then m₁.withAsync (m₁.msgasyncInnerList.erase m₁.asyncLinks i) else m₁

def cachePushBack (i : ℕ) : PoolMessages β F :=
  m.withCache (m.msgcacheInnerList.pushBack m.orderLinks i)

/-- The stub that `insertMessage` uses: the first of the cache, or a new one. -/
def allocateStub : Option (ℕ × PoolMessages β F) :=
  if m.msgcacheInnerList.size ≠ 0 then
    (m.msgcacheInnerList.popFront m.orderLinks).map fun r => (r.1, m.withCache r.2)
  else
    some (m.vecSize, { m with
      vecSize := m.vecSize + 1
      msgvec := update m.msgvec m.vecSize {}
      orderLinks := update m.orderLinks m.vecSize ⟨none, none⟩
      asyncLinks := update m.asyncLinks m.vecSize ⟨none, none⟩ })

/-! ## Functions of the pool -/

/-- `insertMessage`, with the index of the message. -/
def insertMessage (b : MessageBundle β F) : Option (ℕ × PoolMessages β F) :=
  m.allocateStub.map fun r => (r.1, r.2.modifyStub r.1 fun s => { s with msgbundle := b })

def pushBackMessage (b : MessageBundle β F) : Option (ℕ × PoolMessages β F) :=
  (m.insertMessage b).map fun r => (r.1, r.2.linkBack r.1 b.messageFlags.isAsynchronous)

def pushFrontMessage (b : MessageBundle β F) : Option (ℕ × PoolMessages β F) :=
  (m.insertMessage b).map fun r => (r.1, r.2.linkFront r.1 b.messageFlags.isAsynchronous)

def reinsertFrontMessage (i : ℕ) (b : MessageBundle β F) : PoolMessages β F :=
  (m.modifyStub i fun s => { s with msgbundle := b }).linkFront i b.messageFlags.isAsynchronous

def clearAndCacheMessage (i : ℕ) : PoolMessages β F :=
  (m.modifyStub i MessageStub.clear).cachePushBack i

def clearPopAndCacheMessage (i : ℕ) : PoolMessages β F :=
  ((m.unlink i (m.msgvec i).isAsynchronous).cachePushBack i).modifyStub i MessageStub.clear

def cacheMessageId (id : MessageId) : PoolMessages β F :=
  match id.index with
  | none => m
  | some i =>
    if i < m.vecSize ∧ (m.msgvec i).unique = id.unique then m.clearAndCacheMessage i else m

/-- `hasNoMessage`: a close request at the front is no message. -/
def hasNoMessage : Bool :=
  if m.msgorderInnerList.size = 0 then true
  else
    match m.msgorderInnerList.front with
    | none => true
    | some i => (m.msgvec i).msgbundle.messagePtr.isNone

def isFull (maxMessageQueueSize : ℕ) : Bool :=
  decide (m.msgcacheInnerList.size = 0 ∧ maxMessageQueueSize ≤ m.vecSize)

end Model

/-! ## Lists -/

/-- The lists of a pool, front first: all messages, the asynchronous ones, and the stubs
    that are not used. -/
structure Lists (m : PoolMessages β F) (O A C : List ℕ) : Prop where
  order : m.msgorderInnerList.Repr m.orderLinks O
  cache : m.msgcacheInnerList.Repr m.orderLinks C
  async : m.msgasyncInnerList.Repr m.asyncLinks A
  disjoint : O.Disjoint C
  asyncSub : A ⊆ O
  orderLt : ∀ i ∈ O, i < m.vecSize
  cacheLt : ∀ i ∈ C, i < m.vecSize

theorem lists_new : (new : PoolMessages β F).Lists [] [] [] :=
  ⟨InnerList.repr_empty _, InnerList.repr_empty _, InnerList.repr_empty _,
    disjoint_nil_left _, List.Subset.refl _, by simp, by simp⟩

namespace Lists
variable {m : PoolMessages β F} {O A C : List ℕ} {i : ℕ}

section
variable (h : m.Lists O A C)
include h

theorem modifyStub (i : ℕ) (f : MessageStub β F → MessageStub β F) :
    (m.modifyStub i f).Lists O A C :=
  ⟨h.order, h.cache, h.async, h.disjoint, h.asyncSub, h.orderLt, h.cacheLt⟩

theorem linkBack (hO : i ∉ O) (hC : i ∉ C) (hlt : i < m.vecSize) (async : Bool) :
    (m.linkBack i async).Lists (O ++ [i]) (if async then A ++ [i] else A) C := by
  obtain ⟨horder, hframe⟩ := h.order.pushBack hO
  have hcache := h.cache.congr fun x hx => hframe x (fun hxO => h.disjoint hxO hx)
    fun heq : x = i => hC (heq ▸ hx)
  have hdisj : (O ++ [i]).Disjoint C := by
    rw [disjoint_append_left, singleton_disjoint]
    exact ⟨h.disjoint, hC⟩
  have hlt' : ∀ j ∈ O ++ [i], j < m.vecSize := by
    intro j hj
    rcases mem_append.1 hj with hj | hj
    · exact h.orderLt j hj
    · exact mem_singleton.1 hj ▸ hlt
  cases async with
  | false =>
    exact ⟨horder, hcache, h.async, hdisj, fun j hj => mem_append_left _ (h.asyncSub hj),
      hlt', h.cacheLt⟩
  | true =>
    have hA := (h.async.pushBack fun hi => hO (h.asyncSub hi)).1
    refine ⟨horder, hcache, hA, hdisj, fun j hj => ?_, hlt', h.cacheLt⟩
    rcases mem_append.1 hj with hj | hj
    · exact mem_append_left _ (h.asyncSub hj)
    · exact mem_append_right _ hj

theorem linkFront (hO : i ∉ O) (hC : i ∉ C) (hlt : i < m.vecSize)
    (async : Bool) : (m.linkFront i async).Lists (i :: O) (if async then i :: A else A) C := by
  obtain ⟨horder, hframe⟩ := h.order.pushFront hO
  have hcache := h.cache.congr fun x hx => hframe x (fun hxO => h.disjoint hxO hx)
    fun heq : x = i => hC (heq ▸ hx)
  have hdisj : (i :: O).Disjoint C := disjoint_cons_left.2 ⟨hC, h.disjoint⟩
  have hlt' : ∀ j ∈ i :: O, j < m.vecSize := forall_mem_cons.2 ⟨hlt, h.orderLt⟩
  cases async with
  | false =>
    exact ⟨horder, hcache, h.async, hdisj, fun j hj => mem_cons_of_mem i (h.asyncSub hj),
      hlt', h.cacheLt⟩
  | true =>
    have hA := (h.async.pushFront fun hi => hO (h.asyncSub hi)).1
    exact ⟨horder, hcache, hA, hdisj, cons_subset_cons i h.asyncSub, hlt', h.cacheLt⟩

theorem unlink (hO : i ∈ O) {async : Bool} (hasync : async ↔ i ∈ A) :
    (m.unlink i async).Lists (O.erase i) (A.erase i) C := by
  obtain ⟨horder, hframe⟩ := h.order.erase_mem hO
  have hcache := h.cache.congr fun x hx => hframe x fun hxO => h.disjoint hxO hx
  have hdisj : (O.erase i).Disjoint C := fun j hj => h.disjoint (mem_of_mem_erase hj)
  have hlt : ∀ j ∈ O.erase i, j < m.vecSize := fun j hj => h.orderLt j (mem_of_mem_erase hj)
  have hsub : A.erase i ⊆ O.erase i := by
    intro j hj
    rw [h.async.nodup.mem_erase_iff] at hj
    exact (h.order.nodup.mem_erase_iff).2 ⟨hj.1, h.asyncSub hj.2⟩
  cases async with
  | false =>
    have hA : i ∉ A := fun hi => absurd (hasync.2 hi) (by simp)
    rw [erase_of_not_mem hA] at hsub ⊢
    exact ⟨horder, hcache, h.async, hdisj, hsub, hlt, h.cacheLt⟩
  | true => exact ⟨horder, hcache, (h.async.erase_mem (hasync.1 rfl)).1, hdisj, hsub, hlt,
    h.cacheLt⟩

theorem cachePushBack (hO : i ∉ O) (hC : i ∉ C) (hlt : i < m.vecSize) :
    (m.cachePushBack i).Lists O A (C ++ [i]) := by
  obtain ⟨hcache, hframe⟩ := h.cache.pushBack hC
  have horder := h.order.congr fun x hx => hframe x (fun hxC => h.disjoint hx hxC)
    fun heq : x = i => hO (heq ▸ hx)
  refine ⟨horder, hcache, h.async, ?_, h.asyncSub, h.orderLt, fun j hj => ?_⟩
  · rw [disjoint_append_right, disjoint_singleton]
    exact ⟨h.disjoint, hO⟩
  · rcases mem_append.1 hj with hj | hj
    · exact h.cacheLt j hj
    · exact mem_singleton.1 hj ▸ hlt

theorem clearAndCacheMessage (hO : i ∉ O) (hC : i ∉ C) (hlt : i < m.vecSize) :
    (m.clearAndCacheMessage i).Lists O A (C ++ [i]) :=
  (h.modifyStub i _).cachePushBack hO hC hlt

theorem clearPopAndCacheMessage (hO : i ∈ O) (hasync : (m.msgvec i).isAsynchronous ↔ i ∈ A) :
    (m.clearPopAndCacheMessage i).Lists (O.erase i) (A.erase i) (C ++ [i]) := by
  have hunlink := h.unlink hO hasync
  have hlt : i < (m.unlink i (m.msgvec i).isAsynchronous).vecSize := by
    unfold PoolMessages.unlink
    split_ifs <;> exact h.orderLt i hO
  exact (hunlink.cachePushBack h.order.nodup.not_mem_erase (fun hC => h.disjoint hO hC)
    hlt).modifyStub i _

end

end Lists

/-! ## Stubs -/

section Stubs
variable (m : PoolMessages β F) (i : ℕ) (async : Bool)

@[simp] theorem linkBack_msgvec : (m.linkBack i async).msgvec = m.msgvec := by
  cases async <;> rfl

@[simp] theorem unlink_msgvec : (m.unlink i async).msgvec = m.msgvec := by
  cases async <;> rfl

@[simp] theorem linkBack_vecSize : (m.linkBack i async).vecSize = m.vecSize := by
  cases async <;> rfl

@[simp] theorem unlink_vecSize : (m.unlink i async).vecSize = m.vecSize := by
  cases async <;> rfl

@[simp] theorem modifyStub_self (f : MessageStub β F → MessageStub β F) :
    (m.modifyStub i f).msgvec i = f (m.msgvec i) := update_self _ _ _

theorem modifyStub_of_ne {j : ℕ} (h : j ≠ i) (f : MessageStub β F → MessageStub β F) :
    (m.modifyStub i f).msgvec j = m.msgvec j := update_of_ne h _ _

end Stubs

section Insert
variable {m : PoolMessages β F} {O A C : List ℕ}

/-- A stub that was not used holds the bundle, and the other stubs are as before. -/
structure Placed (m m' : PoolMessages β F) (O C C' : List ℕ) (i : ℕ) (b : MessageBundle β F) :
    Prop where
  notOrder : i ∉ O
  notCache : i ∉ C'
  cacheSub : C' ⊆ C
  unused : i ∈ C ∨ m.vecSize ≤ i
  lt : i < m'.vecSize
  size_le : m.vecSize ≤ m'.vecSize
  bundle : (m'.msgvec i).msgbundle = b
  frame : ∀ j, j ≠ i → m'.msgvec j = m.msgvec j

theorem insertMessage_spec (h : m.Lists O A C) (b : MessageBundle β F) :
    ∃ i m' C', m.insertMessage b = some (i, m') ∧ m'.Lists O A C' ∧ Placed m m' O C C' i b := by
  unfold insertMessage allocateStub
  cases C with
  | nil =>
    have hsize : m.msgcacheInnerList.size = 0 := h.cache.size
    have hO : m.vecSize ∉ O := fun hmem => absurd (h.orderLt _ hmem) (Nat.lt_irrefl _)
    have hA : m.vecSize ∉ A := fun hmem => hO (h.asyncSub hmem)
    rw [if_neg (not_not.2 hsize), Option.map_some]
    refine ⟨m.vecSize, _, [], rfl, Lists.modifyStub ?_ _ _, ⟨hO, not_mem_nil,
      List.Subset.refl _, .inr (Nat.le_refl _), Nat.lt_succ_self _, Nat.le_succ _, ?_, ?_⟩⟩
    · refine ⟨?_, ?_, ?_, h.disjoint, h.asyncSub, fun j hj => ?_, fun j hj => ?_⟩
      · exact h.order.congr fun x hx =>
          update_of_ne (fun heq : x = m.vecSize => hO (heq ▸ hx)) _ _
      · exact h.cache.congr fun x hx => absurd hx not_mem_nil
      · exact h.async.congr fun x hx =>
          update_of_ne (fun heq : x = m.vecSize => hA (heq ▸ hx)) _ _
      · exact Nat.lt_succ_of_lt (h.orderLt j hj)
      · exact absurd hj not_mem_nil
    · rw [modifyStub_self]
    · intro j hj
      rw [modifyStub_of_ne _ _ hj]
      exact update_of_ne hj _ _
  | cons i C =>
    obtain ⟨hpop, hcache, hframe⟩ := h.cache.popFront
    have hi : i ∈ i :: C := mem_cons_self
    have hO : i ∉ O := fun hmem => h.disjoint hmem hi
    have hC : i ∉ C := (nodup_cons.1 h.cache.nodup).1
    rw [if_pos h.cache.size_pos, hpop]
    refine ⟨i, _, C, rfl, Lists.modifyStub ?_ _ _, ⟨hO, hC, subset_cons_self i C, .inl hi,
      h.cacheLt i hi, Nat.le_refl _, ?_, fun j hj => ?_⟩⟩
    · refine ⟨?_, hcache, h.async, ?_, h.asyncSub, h.orderLt, ?_⟩
      · exact h.order.congr fun x hx => hframe x fun hxC => h.disjoint hx hxC
      · exact fun x hx hxC => h.disjoint hx (mem_cons_of_mem i hxC)
      · exact fun j hj => h.cacheLt j (mem_cons_of_mem i hj)
    · rw [modifyStub_self]
    · rw [modifyStub_of_ne _ _ hj]
      rfl

theorem pushBackMessage_spec (h : m.Lists O A C) (b : MessageBundle β F) :
    ∃ i m' C', m.pushBackMessage b = some (i, m') ∧
      m'.Lists (O ++ [i]) (if b.messageFlags.isAsynchronous then A ++ [i] else A) C' ∧
      Placed m m' O C C' i b := by
  obtain ⟨i, m', C', hins, hlists, hp⟩ := insertMessage_spec h b
  refine ⟨i, m'.linkBack i b.messageFlags.isAsynchronous, C', ?_,
    hlists.linkBack hp.notOrder hp.notCache hp.lt _, ?_⟩
  · rw [pushBackMessage, hins, Option.map_some]
  · exact ⟨hp.notOrder, hp.notCache, hp.cacheSub, hp.unused, by simpa using hp.lt,
      by simpa using hp.size_le, by simpa using hp.bundle, by simpa using hp.frame⟩

end Insert

end PoolMessages

end SolidFrame
