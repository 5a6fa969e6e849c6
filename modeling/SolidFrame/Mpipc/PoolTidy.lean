/-
  SolidFrame formalization — a pool whose lists and stubs agree
  (`ConnectionPoolStub` in `solid/frame/mpipc/src/mpipcservice.cpp`).

  The order list and the cache use one link field, and `contains` looks at the links of a
  stub only.  It tells whether a message is in the order list when the stubs of the cache are
  cleared and the stubs of neither list have no links.
-/
import SolidFrame.Mpipc.PoolMessages

namespace SolidFrame

namespace PoolMessages
variable {β F : Type}

/-- The lists of a pool agree with its stubs: the asynchronous list has the asynchronous
    messages of the order list, the stubs of the cache are cleared, and the other stubs have
    no links. -/
structure Tidy (m : PoolMessages β F) (O A C : List ℕ) : Prop extends m.Lists O A C where
  flags : ∀ i ∈ O, (m.msgvec i).isAsynchronous = true ↔ i ∈ A
  cleared : ∀ i ∈ C, (m.msgvec i).msgbundle.messagePtr = none ∧ (m.msgvec i).objid = none
  free : ∀ i, i ∉ O → i ∉ C → m.orderLinks i = ⟨none, none⟩

/-- The stub is in the order list or in the cache. -/
def isLinked (m : PoolMessages β F) (i : ℕ) : Bool :=
  m.msgorderInnerList.contains m.orderLinks i || m.msgcacheInnerList.contains m.orderLinks i

theorem tidy_new : (new : PoolMessages β F).Tidy [] [] [] :=
  { lists_new with
    flags := by simp
    cleared := by simp
    free := fun _ _ _ => rfl }

section Frame
variable {m : PoolMessages β F} {i j : ℕ}

theorem clearAndCacheMessage_of_ne (hj : j ≠ i) :
    (m.clearAndCacheMessage i).msgvec j = m.msgvec j :=
  modifyStub_of_ne _ _ hj _

theorem clearPopAndCacheMessage_of_ne (hj : j ≠ i) :
    (m.clearPopAndCacheMessage i).msgvec j = m.msgvec j := by
  rw [clearPopAndCacheMessage, modifyStub_of_ne _ _ hj]
  exact congrFun (unlink_msgvec m i _) j

end Frame

namespace Tidy
variable {m : PoolMessages β F} {O A C : List ℕ} {i : ℕ}

theorem contains_iff (h : m.Tidy O A C) (hC : i ∉ C) :
    m.msgorderInnerList.contains m.orderLinks i ↔ i ∈ O := by
  constructor
  · intro hcontains
    by_contra hO
    rw [h.order.not_contains hO (h.free i hO hC)] at hcontains
    cases hcontains
  · exact h.order.contains_of_mem

theorem notMem_of_isLinked (h : m.Tidy O A C) (hi : m.isLinked i = false) : i ∉ O ∧ i ∉ C := by
  obtain ⟨horder, hcache⟩ := Bool.or_eq_false_iff.1 hi
  constructor
  · intro hO
    rw [h.order.contains_of_mem hO] at horder
    cases horder
  · intro hC
    rw [h.cache.contains_of_mem hC] at hcache
    cases hcache

/-- A stub that is not cached has changed, but is asynchronous or not as before. -/
theorem modifyStub (h : m.Tidy O A C) {f : MessageStub β F → MessageStub β F}
    (hasync : (f (m.msgvec i)).isAsynchronous = (m.msgvec i).isAsynchronous) (hC : i ∉ C) :
    (m.modifyStub i f).Tidy O A C := by
  refine ⟨h.toLists.modifyStub i f, fun j hj => ?_, fun j hj => ?_, h.free⟩
  · rcases eq_or_ne j i with rfl | hne
    · rw [modifyStub_self, hasync]
      exact h.flags j hj
    · rw [modifyStub_of_ne _ _ hne]
      exact h.flags j hj
  · rw [modifyStub_of_ne _ _ fun heq : j = i => hC (heq ▸ hj)]
    exact h.cleared j hj

/-! ## Messages are added -/

theorem insertMessage_links (h : m.Tidy O A C) {b : MessageBundle β F} {m' : PoolMessages β F}
    {C' : List ℕ} (hins : m.insertMessage b = some (i, m')) (hlists : m'.Lists O A C') :
    ∀ j, j ∉ O → j ∉ C' → m'.orderLinks j = ⟨none, none⟩ := by
  intro j hO hC'
  unfold insertMessage allocateStub at hins
  cases C with
  | nil =>
    have hsize : m.msgcacheInnerList.size = 0 := h.cache.size
    rw [if_neg (not_not.2 hsize)] at hins
    cases hins
    show Function.update m.orderLinks m.vecSize ⟨none, none⟩ j = ⟨none, none⟩
    rcases eq_or_ne j m.vecSize with rfl | hne
    · exact Function.update_self _ _ _
    · rw [Function.update_of_ne hne]
      exact h.free j hO List.not_mem_nil
  | cons k C =>
    obtain ⟨hpop, hcache, hframe⟩ := h.cache.popFront
    rw [if_pos h.cache.size_pos, hpop] at hins
    cases hins
    have heq : C' = C := hlists.cache.unique hcache
    show (m.msgcacheInnerList.erase m.orderLinks k).2 j = ⟨none, none⟩
    rcases eq_or_ne j k with rfl | hne
    · exact InnerList.erase_links_self _ _ _
    · have hC : j ∉ k :: C := by
        rw [List.mem_cons, not_or]
        exact ⟨hne, heq ▸ hC'⟩
      rw [hframe j hC]
      exact h.free j hO hC

theorem linkBack_links {C' : List ℕ} (h : m.Lists O A C') (hi : i ∉ O) (async : Bool)
    (hfree : ∀ j, j ∉ O → j ∉ C' → m.orderLinks j = ⟨none, none⟩) :
    ∀ j, j ∉ O ++ [i] → j ∉ C' → (m.linkBack i async).orderLinks j = ⟨none, none⟩ := by
  intro j hj hC
  rw [List.mem_append, List.mem_singleton, not_or] at hj
  have hlinks : (m.linkBack i async).orderLinks =
      (m.msgorderInnerList.pushBack m.orderLinks i).2 := by
    cases async <;> rfl
  rw [hlinks, (h.order.pushBack hi).2 j hj.1 hj.2]
  exact hfree j hj.1 hC

theorem pushBackMessage (h : m.Tidy O A C) (b : MessageBundle β F) :
    ∃ i m' C', m.pushBackMessage b = some (i, m') ∧
      m'.Tidy (O ++ [i]) (if b.messageFlags.isAsynchronous then A ++ [i] else A) C' ∧
      Placed m m' O C C' i b := by
  obtain ⟨i, m1, C', hins, hlists, hp⟩ := insertMessage_spec h.toLists b
  have hlinks := linkBack_links hlists hp.notOrder b.messageFlags.isAsynchronous
    (h.insertMessage_links hins hlists)
  obtain ⟨i', m', C'', hpush, hlists', hp'⟩ := pushBackMessage_spec h.toLists b
  have heq : some (i, m1.linkBack i b.messageFlags.isAsynchronous) = some (i', m') := by
    rw [← hpush, PoolMessages.pushBackMessage, hins, Option.map_some]
  cases heq
  have hC : C'' = C' := hlists'.cache.unique (hlists.linkBack hp.notOrder hp.notCache hp.lt _).cache
  subst hC
  refine ⟨i, _, C'', hpush, ⟨hlists', fun j hj => ?_, fun j hj => ?_, hlinks⟩, hp'⟩
  · rcases List.mem_append.1 hj with hj | hj
    · have hne : j ≠ i := fun heq => hp.notOrder (heq ▸ hj)
      rw [hp'.frame j hne, h.flags j hj]
      split_ifs
      · simp [hne]
      · exact Iff.rfl
    · obtain rfl := List.mem_singleton.1 hj
      have hasync : ((m1.linkBack j b.messageFlags.isAsynchronous).msgvec j).isAsynchronous =
          b.messageFlags.isAsynchronous := by
        rw [MessageStub.isAsynchronous, hp'.bundle]
      have hA : j ∉ A := fun hmem => hp.notOrder (h.asyncSub hmem)
      rw [hasync]
      split_ifs with hb
      · simp [hb]
      · simp [hb, hA]
  · have hne : j ≠ i := fun heq => hp'.notCache (heq ▸ hj)
    rw [hp'.frame j hne]
    exact h.cleared j (hp'.cacheSub hj)

/-! ## Messages are removed -/

theorem unlink (h : m.Tidy O A C) (hi : i ∈ O) :
    (m.unlink i (m.msgvec i).isAsynchronous).Tidy (O.erase i) (A.erase i) C := by
  have hlinks : (m.unlink i (m.msgvec i).isAsynchronous).orderLinks =
      (m.msgorderInnerList.erase m.orderLinks i).2 := by
    unfold PoolMessages.unlink
    split_ifs <;> rfl
  refine ⟨h.toLists.unlink hi (h.flags i hi), fun j hj => ?_, fun j hj => ?_, fun j hj hC => ?_⟩
  · obtain ⟨hne, hjO⟩ := h.order.nodup.mem_erase_iff.1 hj
    rw [unlink_msgvec, h.flags j hjO, h.async.nodup.mem_erase_iff]
    exact ⟨fun hA => ⟨hne, hA⟩, And.right⟩
  · rw [unlink_msgvec]
    exact h.cleared j hj
  · rw [hlinks]
    rcases eq_or_ne j i with rfl | hne
    · exact InnerList.erase_links_self _ _ _
    · have hjO : j ∉ O := fun hmem => hj (h.order.nodup.mem_erase_iff.2 ⟨hne, hmem⟩)
      rw [(h.order.erase_mem hi).2 j hjO]
      exact h.free j hjO hC

theorem clearAndCacheMessage (h : m.Tidy O A C) (hO : i ∉ O) (hC : i ∉ C) (hlt : i < m.vecSize) :
    (m.clearAndCacheMessage i).Tidy O A (C ++ [i]) := by
  refine ⟨h.toLists.clearAndCacheMessage hO hC hlt, fun j hj => ?_, fun j hj => ?_,
    fun j hj hjC => ?_⟩
  · rw [clearAndCacheMessage_of_ne fun heq : j = i => hO (heq ▸ hj)]
    exact h.flags j hj
  · rcases List.mem_append.1 hj with hj | hj
    · rw [clearAndCacheMessage_of_ne fun heq : j = i => hC (heq ▸ hj)]
      exact h.cleared j hj
    · obtain rfl := List.mem_singleton.1 hj
      have hself : (m.clearAndCacheMessage j).msgvec j = (m.msgvec j).clear :=
        modifyStub_self _ _ _
      rw [hself]
      exact ⟨rfl, rfl⟩
  · rw [List.mem_append, List.mem_singleton, not_or] at hjC
    have hlinks : (m.clearAndCacheMessage i).orderLinks j = m.orderLinks j :=
      (h.cache.pushBack hC).2 j hjC.1 hjC.2
    rw [hlinks]
    exact h.free j hj hjC.1

theorem clearPopAndCacheMessage (h : m.Tidy O A C) (hi : i ∈ O) :
    (m.clearPopAndCacheMessage i).Tidy (O.erase i) (A.erase i) (C ++ [i]) := by
  have hlt : i < (m.unlink i (m.msgvec i).isAsynchronous).vecSize := by
    rw [unlink_vecSize]
    exact h.orderLt i hi
  exact (h.unlink hi).clearAndCacheMessage h.order.nodup.not_mem_erase
    (fun hC => h.disjoint hi hC) hlt

end Tidy

end PoolMessages

end SolidFrame
