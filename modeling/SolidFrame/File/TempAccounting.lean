/-
  SolidFrame formalization — what the temporary files of a storage take up
  (`Utf8Controller` in `solid/frame/file/src/filestore.cpp`).

  A storage counts the space of its temps in `usedsize` and numbers them.  Both stay right as
  long as no request is given two temps: the second one takes the place of the first in its
  file, and the space and the number of the first one are lost.
-/
import Mathlib.Algebra.BigOperators.Group.Finset.Basic
import SolidFrame.File.TempStore

namespace SolidFrame

open Function List TempStorage

/-! ## One storage -/

/-- The files whose temp is in the storage. -/
def TempStore.OpenTemps (s : TempStore) (i : ℕ) (T : Finset (ℕ × TempBase)) : Prop :=
  ∀ idx t, (idx, t) ∈ T ↔ s.ptmp idx = some t ∧ t.tempstorageid = i

/-- The ids of the open temps differ, and are not given out again. -/
structure TempStorage.Numbered (strg : TempStorage) (T : Finset (ℕ × TempBase)) : Prop where
  distinct : ∀ p ∈ T, ∀ q ∈ T, p.2.tempid = q.2.tempid → p = q
  lt : ∀ p ∈ T, p.2.tempid < strg.currentid
  notCached : ∀ p ∈ T, p.2.tempid ∉ strg.idcache
  cachedLt : ∀ id ∈ strg.idcache, id < strg.currentid
  nodup : strg.idcache.Nodup

/-- The open temps of a storage, and what it knows of them. -/
structure TempStore.Accounted (s : TempStore) (i : ℕ) (T : Finset (ℕ × TempBase)) : Prop where
  openTemps : s.OpenTemps i T
  used : (s.storagevec i).usedsize.toNat = ∑ p ∈ T, p.2.tempsize.toNat
  le : (s.storagevec i).usedsize ≤ (s.storagevec i).capacity
  numbered : (s.storagevec i).Numbered T

namespace TempStorage
variable {strg strg' : TempStorage} {T : Finset (ℕ × TempBase)} {idx i : ℕ} {sz : UInt64}

@[simp] theorem take_usedsize : (strg.take sz).usedsize = strg.usedsize + sz := by
  unfold take
  split <;> rfl

@[simp] theorem take_capacity : (strg.take sz).capacity = strg.capacity := by
  unfold take
  split <;> rfl

def configuration (strg : TempStorage) : TempStorageConfiguration :=
  ⟨strg.path, strg.level, strg.capacity, strg.minsize, strg.maxsize⟩

@[simp] theorem take_configuration : (strg.take sz).configuration = strg.configuration := by
  unfold take
  split <;> rfl

theorem canUse_congr (h : strg'.configuration = strg.configuration) (size : UInt64)
    (flags : ℕ) : strg'.canUse size flags = strg.canUse size flags := by
  injection h with _ hlevel _ hmin hmax
  rw [canUse, canUse, hlevel, hmin, hmax]

theorem Numbered.congr (h : strg.Numbered T) (hid : strg'.currentid = strg.currentid)
    (hcache : strg'.idcache = strg.idcache) : strg'.Numbered T := by
  refine ⟨h.distinct, ?_, ?_, ?_, ?_⟩
  · rw [hid]; exact h.lt
  · rw [hcache]; exact h.notCached
  · rw [hid, hcache]; exact h.cachedLt
  · rw [hcache]; exact h.nodup

theorem Numbered.fileid_fresh (h : strg.Numbered T) : ∀ p ∈ T, p.2.tempid ≠ strg.fileid := by
  intro p hp heq
  unfold fileid at heq
  cases hcache : strg.idcache with
  | nil =>
    rw [hcache] at heq
    exact absurd (h.lt p hp) (heq ▸ Nat.lt_irrefl _)
  | cons id ids =>
    rw [hcache] at heq
    have heq : p.2.tempid = id := heq
    exact h.notCached p hp (by rw [hcache, heq]; exact mem_cons_self)

theorem Numbered.take (h : strg.Numbered T) :
    (strg.take sz).Numbered (insert (idx, strg.newTemp i sz) T) := by
  have hfresh := h.fileid_fresh
  have hdistinct : ∀ p ∈ insert (idx, strg.newTemp i sz) T,
      ∀ q ∈ insert (idx, strg.newTemp i sz) T, p.2.tempid = q.2.tempid → p = q := by
    intro p hp q hq heq
    rcases Finset.mem_insert.1 hp with rfl | hp <;> rcases Finset.mem_insert.1 hq with rfl | hq
    · rfl
    · exact absurd heq.symm (hfresh q hq)
    · exact absurd heq (hfresh p hp)
    · exact h.distinct p hp q hq heq
  cases hcache : strg.idcache with
  | nil =>
    have htake : strg.take sz = { strg with
        currentid := strg.currentid + 1, usedsize := strg.usedsize + sz } := by
      simp only [TempStorage.take, hcache]
    have hid : strg.fileid = strg.currentid := by simp [fileid, hcache]
    rw [htake]
    refine ⟨hdistinct, ?_, ?_, ?_, ?_⟩
    · intro p hp
      rcases Finset.mem_insert.1 hp with rfl | hp
      · exact hid ▸ Nat.lt_succ_self _
      · exact Nat.lt_succ_of_lt (h.lt p hp)
    · intro p hp
      simp [hcache]
    · intro id hmem
      simp [hcache] at hmem
    · simp [hcache]
  | cons id ids =>
    have htake : strg.take sz = { strg with idcache := ids, usedsize := strg.usedsize + sz } := by
      simp only [TempStorage.take, hcache]
    have hid : strg.fileid = id := by simp [fileid, hcache]
    have hnodup := h.nodup
    rw [hcache, List.nodup_cons] at hnodup
    have hsub : ids ⊆ strg.idcache := by rw [hcache]; exact List.subset_cons_self id ids
    rw [htake]
    refine ⟨hdistinct, ?_, ?_, fun id' hid' => h.cachedLt id' (hsub hid'), hnodup.2⟩
    · intro p hp
      rcases Finset.mem_insert.1 hp with rfl | hp
      · exact h.cachedLt _ (by rw [hcache]; exact hid ▸ List.mem_cons_self)
      · exact h.lt p hp
    · intro p hp
      rcases Finset.mem_insert.1 hp with rfl | hp
      · show strg.fileid ∉ ids
        rw [hid]
        exact hnodup.1
      · exact fun hmem => h.notCached p hp (hsub hmem)

theorem Numbered.giveBack (h : strg.Numbered T) {t : TempBase} (ht : (idx, t) ∈ T) :
    (strg.giveBack t).Numbered (T.erase (idx, t)) := by
  refine ⟨?_, ?_, ?_, ?_, ?_⟩
  · intro p hp q hq heq
    exact h.distinct p (Finset.mem_of_mem_erase hp) q (Finset.mem_of_mem_erase hq) heq
  · intro p hp
    exact h.lt p (Finset.mem_of_mem_erase hp)
  · intro p hp hmem
    obtain ⟨hne, hp⟩ := Finset.mem_erase.1 hp
    rcases mem_cons.1 hmem with heq | hmem
    · exact hne (h.distinct p hp _ ht heq)
    · exact h.notCached p hp hmem
  · intro id hmem
    rcases mem_cons.1 hmem with rfl | hmem
    · exact h.lt _ ht
    · exact h.cachedLt id hmem
  · exact nodup_cons.2 ⟨h.notCached _ ht, h.nodup⟩

end TempStorage

namespace TempStore
variable {s s' : TempStore} {T : Finset (ℕ × TempBase)} {idx i j : ℕ} {sz : UInt64}

@[simp] theorem modifyStorage_self (f : TempStorage → TempStorage) :
    (s.modifyStorage i f).storagevec i = f (s.storagevec i) := update_self _ _ _

theorem modifyStorage_of_ne (h : j ≠ i) (f : TempStorage → TempStorage) :
    (s.modifyStorage i f).storagevec j = s.storagevec j := update_of_ne h _ _

/-- Only the temps of the files, and what the storage knows of its own, count. -/
theorem Accounted.congr (h : s.Accounted i T) (hptmp : s'.ptmp = s.ptmp)
    (hused : (s'.storagevec i).usedsize = (s.storagevec i).usedsize)
    (hcap : (s'.storagevec i).capacity = (s.storagevec i).capacity)
    (hid : (s'.storagevec i).currentid = (s.storagevec i).currentid)
    (hcache : (s'.storagevec i).idcache = (s.storagevec i).idcache) : s'.Accounted i T := by
  refine ⟨?_, ?_, ?_, h.numbered.congr hid hcache⟩
  · intro idx t
    rw [hptmp]
    exact h.openTemps idx t
  · rw [hused]; exact h.used
  · rw [hused, hcap]; exact h.le

/-- A storage of which nothing has changed, when the temp of one file has: neither the old nor
    the new one is in the storage. -/
theorem Accounted.frame (h : s.Accounted i T) (idx : ℕ) (hstrg : s'.storagevec i = s.storagevec i)
    (hold : ∀ t, s.ptmp idx = some t → t.tempstorageid ≠ i)
    (hnew : ∀ t, s'.ptmp idx = some t → t.tempstorageid ≠ i)
    (hother : ∀ idx', idx' ≠ idx → s'.ptmp idx' = s.ptmp idx') : s'.Accounted i T := by
  refine ⟨?_, by rw [hstrg]; exact h.used, by rw [hstrg]; exact h.le,
    by rw [hstrg]; exact h.numbered⟩
  intro idx' t
  rcases eq_or_ne idx' idx with rfl | hne
  · constructor
    · intro hmem
      obtain ⟨hp, ht⟩ := (h.openTemps _ _).1 hmem
      exact absurd ht (hold t hp)
    · intro ⟨hp, ht⟩
      exact absurd ht (hnew t hp)
  · rw [hother idx' hne]
    exact h.openTemps idx' t

/-- **A temp is made** for a file that has none, in a storage with enough free space. -/
theorem Accounted.doPrepareOpenTemp (h : s.Accounted i T) (hnone : s.ptmp idx = none)
    (hsz : sz ≤ (s.storagevec i).capacity - (s.storagevec i).usedsize) :
    (s.doPrepareOpenTemp idx sz i).Accounted i (insert (idx, (s.storagevec i).newTemp i sz) T) := by
  have hle := UInt64.le_iff_toNat_le.1 h.le
  have hsz := UInt64.le_iff_toNat_le.1 hsz
  rw [UInt64.toNat_sub_of_le _ _ h.le] at hsz
  have hcap := (s.storagevec i).capacity.toNat_lt
  have hadd : ((s.storagevec i).usedsize + sz).toNat =
      (s.storagevec i).usedsize.toNat + sz.toNat := by
    rw [UInt64.toNat_add, Nat.mod_eq_of_lt (by omega)]
  have hnew : (idx, (s.storagevec i).newTemp i sz) ∉ T := by
    intro hmem
    rw [(h.openTemps _ _).1 hmem |>.1] at hnone
    cases hnone
  have hstrg : (s.doPrepareOpenTemp idx sz i).storagevec i = (s.storagevec i).take sz :=
    update_self _ _ _
  refine ⟨?_, ?_, ?_, ?_⟩
  · intro idx' t
    rw [Finset.mem_insert, h.openTemps]
    rcases eq_or_ne idx' idx with rfl | hne
    · have hp : (s.doPrepareOpenTemp idx' sz i).ptmp idx' = some ((s.storagevec i).newTemp i sz) :=
        update_self _ _ _
      rw [hp, hnone]
      constructor
      · rintro (heq | ⟨hnone, -⟩)
        · cases heq
          exact ⟨rfl, rfl⟩
        · cases hnone
      · rintro ⟨heq, -⟩
        cases heq
        exact .inl rfl
    · have hp : (s.doPrepareOpenTemp idx sz i).ptmp idx' = s.ptmp idx' :=
        update_of_ne hne _ _
      rw [hp]
      constructor
      · rintro (heq | h)
        · exact absurd (congrArg Prod.fst heq) hne
        · exact h
      · exact .inr
  · rw [hstrg, take_usedsize, hadd, Finset.sum_insert hnew, h.used, Nat.add_comm]
    rfl
  · rw [hstrg, take_usedsize, take_capacity, UInt64.le_iff_toNat_le, hadd]
    omega
  · rw [hstrg]
    exact h.numbered.take

/-- **A temp is closed.** -/
theorem Accounted.doCloseTemp {t : TempBase} (h : s.Accounted i T) (ht : s.ptmp idx = some t)
    (hi : t.tempstorageid = i) :
    ({ s.doCloseTemp t with ptmp := update s.ptmp idx none }).Accounted i (T.erase (idx, t)) := by
  have hmem : (idx, t) ∈ T := (h.openTemps idx t).2 ⟨ht, hi⟩
  have hsum : ∑ p ∈ T, p.2.tempsize.toNat = t.tempsize.toNat +
      ∑ p ∈ T.erase (idx, t), p.2.tempsize.toNat :=
    (Finset.add_sum_erase T (fun p => p.2.tempsize.toNat) hmem).symm
  have hused := h.used
  have hle : t.tempsize ≤ (s.storagevec i).usedsize := by
    rw [UInt64.le_iff_toNat_le]
    omega
  have hsub := UInt64.toNat_sub_of_le _ _ hle
  have hstrg : ({ s.doCloseTemp t with ptmp := update s.ptmp idx none }).storagevec i =
      (s.storagevec i).giveBack t := by
    subst hi
    exact update_self _ _ _
  refine ⟨?_, ?_, ?_, ?_⟩
  · intro idx' t'
    rw [Finset.mem_erase, h.openTemps]
    rcases eq_or_ne idx' idx with rfl | hne
    · have hp : ({ s.doCloseTemp t with ptmp := update s.ptmp idx' none }).ptmp idx' =
          none := update_self _ _ _
      rw [hp, ht]
      constructor
      · rintro ⟨hne, heq, -⟩
        exact absurd (by cases heq; rfl) hne
      · rintro ⟨hnone, -⟩
        cases hnone
    · have hp : ({ s.doCloseTemp t with ptmp := update s.ptmp idx none }).ptmp idx' =
          s.ptmp idx' := update_of_ne hne _ _
      rw [hp]
      constructor
      · exact And.right
      · intro h
        exact ⟨fun heq => hne (congrArg Prod.fst heq), h⟩
  · rw [hstrg]
    show ((s.storagevec i).usedsize - t.tempsize).toNat = _
    omega
  · have hcap := UInt64.le_iff_toNat_le.1 h.le
    rw [hstrg, UInt64.le_iff_toNat_le]
    show ((s.storagevec i).usedsize - t.tempsize).toNat ≤ (s.storagevec i).capacity.toNat
    omega
  · rw [hstrg]
    exact h.numbered.giveBack hmem

/-! ## One request -/

def takes (s : TempStore) (w : TempWaitStub) (i : ℕ) : Bool :=
  (s.storagevec i).canUse w.size w.value && (s.storagevec i).shouldUse w.size

section Offer
variable {w : TempWaitStub} {n : ℕ}

theorem useStorage_of_ne (h : j ≠ i) : (s.useStorage w n i).1.storagevec j = s.storagevec j := by
  unfold useStorage
  split_ifs <;> exact update_of_ne h _ _

theorem useStorage_ptmp_of_ne (h : idx ≠ w.objuid.index) :
    (s.useStorage w n i).1.ptmp idx = s.ptmp idx := by
  unfold useStorage
  split_ifs
  · exact update_of_ne h _ _
  · rfl

theorem takes_useStorage (h : j ≠ i) : (s.useStorage w n i).1.takes w j = s.takes w j := by
  unfold takes
  rw [useStorage_of_ne h]

variable {is : List ℕ}

theorem offer_use (h : (s.storagevec i).canUse w.size w.value) :
    offer w n (i :: is) s = ((offer w n is (s.useStorage w n i).1).1,
      (s.useStorage w n i).2 ++ (offer w n is (s.useStorage w n i).1).2) := by
  rw [offer, if_pos h]

/-- What the loop over the storages makes of the request at the storages that take it. -/
def takenEvents (w : TempWaitStub) (i : ℕ) : List TempEvent :=
  [.prepared w.objuid i, .scheduled w.objuid]

/-- **The storages that take a request are those that should be used before the loop
    begins**: a turn of the loop changes one storage only. -/
theorem offer_events (hnodup : is.Nodup) (s : TempStore) :
    (offer w n is s).2 = (is.filter (s.takes w)).flatMap (takenEvents w) := by
  induction is generalizing s with
  | nil => rfl
  | cons i is ih =>
    obtain ⟨hi, hnodup⟩ := nodup_cons.1 hnodup
    by_cases huse : (s.storagevec i).canUse w.size w.value
    · have hfilter : is.filter ((s.useStorage w n i).1.takes w) = is.filter (s.takes w) :=
        filter_congr fun j hj => takes_useStorage fun heq => hi (heq ▸ hj)
      rw [offer_use huse, ih hnodup, hfilter, filter_cons]
      unfold useStorage takes
      by_cases hshould : (s.storagevec i).shouldUse w.size
      · simp [huse, hshould, takenEvents]
      · simp [huse, hshould]
    · have htakes : s.takes w i = false := by simp [takes, huse]
      rw [offer, if_neg huse, ih hnodup, filter_cons, htakes]
      rfl

/-- The loop leaves the temps of the other files, the vectors and the phase alone. -/
theorem offer_frame (is : List ℕ) (s : TempStore) :
    (∀ idx, idx ≠ w.objuid.index → (offer w n is s).1.ptmp idx = s.ptmp idx) ∧
      (offer w n is s).1.pfilltempwaitvec = s.pfilltempwaitvec ∧
      (offer w n is s).1.pconstempwaitvec = s.pconstempwaitvec ∧
      (offer w n is s).1.phase = s.phase := by
  induction is generalizing s with
  | nil => exact ⟨fun _ _ => rfl, rfl, rfl, rfl⟩
  | cons i is ih =>
    rw [offer]
    split_ifs
    · obtain ⟨hptmp, hfill, hcons, hphase⟩ := ih (s.useStorage w n i).1
      have huse : (s.useStorage w n i).1.pfilltempwaitvec = s.pfilltempwaitvec ∧
          (s.useStorage w n i).1.pconstempwaitvec = s.pconstempwaitvec ∧
          (s.useStorage w n i).1.phase = s.phase := by
        unfold useStorage
        split_ifs <;> exact ⟨rfl, rfl, rfl⟩
      exact ⟨fun idx h => (hptmp idx h).trans (useStorage_ptmp_of_ne h), hfill.trans huse.1,
        hcons.trans huse.2.1, hphase.trans huse.2.2⟩
    · exact ih s

theorem consume_frame (s : TempStore) (w : TempWaitStub) :
    (∀ idx, idx ≠ w.objuid.index → (s.consume w).1.ptmp idx = s.ptmp idx) ∧
      (s.consume w).1.pfilltempwaitvec = s.pfilltempwaitvec ∧
      (s.consume w).1.pconstempwaitvec = s.pconstempwaitvec ∧
      (s.consume w).1.phase = s.phase :=
  offer_frame (List.range s.storageCount) s

theorem accounted_pushWaiting (h : ∀ j, ∃ T, s.Accounted j T) (i j : ℕ) :
    ∃ T, (s.pushWaiting w i).Accounted j T := by
  obtain ⟨T, hT⟩ := h j
  rcases eq_or_ne j i with rfl | hne
  · have hstrg : (s.pushWaiting w j).storagevec j = _ := update_self _ _ _
    refine ⟨T, hT.congr rfl ?_ ?_ ?_ ?_⟩ <;> rw [hstrg]
  · have hstrg : (s.pushWaiting w i).storagevec j = _ := update_of_ne hne _ _
    refine ⟨T, hT.congr rfl ?_ ?_ ?_ ?_⟩ <;> rw [hstrg]

theorem accounted_doPrepareOpenTemp (h : ∀ j, ∃ T, s.Accounted j T) (hnone : s.ptmp idx = none)
    (hsz : sz ≤ (s.storagevec i).capacity - (s.storagevec i).usedsize) (j : ℕ) :
    ∃ T, (s.doPrepareOpenTemp idx sz i).Accounted j T := by
  obtain ⟨T, hT⟩ := h j
  rcases eq_or_ne j i with rfl | hne
  · exact ⟨_, hT.doPrepareOpenTemp hnone hsz⟩
  · have hnew : (s.doPrepareOpenTemp idx sz i).ptmp idx =
        some ((s.storagevec i).newTemp i sz) := update_self _ _ _
    refine ⟨T, hT.frame idx (update_of_ne hne _ _) ?_ ?_ ?_⟩
    · intro t ht
      rw [hnone] at ht
      cases ht
    · intro t ht
      rw [hnew] at ht
      cases ht
      exact hne.symm
    · exact fun idx' h => update_of_ne h _ _

theorem accounted_offer (hnodup : is.Nodup) (h : ∀ j, ∃ T, s.Accounted j T)
    (hone : ∀ i ∈ is, ∀ j ∈ is, s.takes w i → s.takes w j → i = j)
    (hnone : (∃ i ∈ is, s.takes w i) → s.ptmp w.objuid.index = none) (j : ℕ) :
    ∃ T, (offer w n is s).1.Accounted j T := by
  induction is generalizing s with
  | nil => exact h j
  | cons i is ih =>
    obtain ⟨hi, hnodup⟩ := nodup_cons.1 hnodup
    have hne : ∀ k ∈ is, k ≠ i := fun k hk heq => hi (heq ▸ hk)
    have hone' : ∀ k ∈ is, ∀ l ∈ is, s.takes w k → s.takes w l → k = l :=
      fun k hk l hl => hone k (mem_cons_of_mem i hk) l (mem_cons_of_mem i hl)
    rw [offer]
    split_ifs with huse
    · -- after a storage that takes the request there is no other one
      refine ih hnodup ?_ ?_ ?_
      · unfold useStorage
        split_ifs with hshould
        · have htakes : s.takes w i := by rw [takes, huse, hshould]; rfl
          rw [shouldUse, Bool.and_eq_true, decide_eq_true_iff] at hshould
          exact accounted_doPrepareOpenTemp
            (fun j => (h j).imp fun T hT => hT.congr rfl rfl rfl rfl rfl)
            (hnone ⟨i, mem_cons_self, htakes⟩) hshould.2
        · exact accounted_pushWaiting h i
      · intro k hk l hl hk' hl'
        rw [takes_useStorage (hne k hk)] at hk'
        rw [takes_useStorage (hne l hl)] at hl'
        exact hone' k hk l hl hk' hl'
      · rintro ⟨k, hk, hk'⟩
        rw [takes_useStorage (hne k hk)] at hk'
        have hi' : s.takes w i ≠ true := fun htakes =>
          hne k hk (hone k (mem_cons_of_mem i hk) i mem_cons_self hk' htakes)
        have hshould : ¬ (s.storagevec i).shouldUse w.size := fun hs =>
          hi' (by rw [takes, huse, hs]; rfl)
        rw [useStorage, if_neg hshould]
        exact hnone ⟨k, mem_cons_of_mem i hk, hk'⟩
    · exact ih hnodup h hone' fun ⟨k, hk, hk'⟩ => hnone ⟨k, mem_cons_of_mem i hk, hk'⟩

end Offer

/-! ## Runs -/

/-- What becomes of a request in the loop of `executeBeforeErase`. -/
inductive Fate where
  | waiting
  | prepared (storeid : ℕ)
  /-- no storage can be used -/
  | refused
  deriving DecidableEq, Repr

def Fate.events (uid : UniqueId) : Fate → List TempEvent
  | .waiting => []
  | .prepared i => [.prepared uid i, .scheduled uid]
  | .refused => [.scheduled uid]

/-- The condition of a step: the store gives a request the index of a file without a temp, for
    which no other request is pending; an execution without a signal finds nothing to
    consume; and at most one storage that can be used for a request should be used. -/
def Orderly (s : TempStore) : TempAction → Prop
  | .request uid _ _ =>
    s.ptmp uid.index = none ∧ ∀ r ∈ s.pending, r.objuid.index ≠ uid.index
  | .execute signal => signal = false → s.pconstempwaitvec = []
  | .consume => ∀ w ∈ s.todo.head?, ∀ i < s.storageCount, ∀ j < s.storageCount,
      s.takes w i = true → s.takes w j = true → i = j
  | _ => True

structure Sound (s : TempStore) : Prop where
  accounted : ∀ i, ∃ T, s.Accounted i T
  noTemp : ∀ r ∈ s.pending, s.ptmp r.objuid.index = none
  distinct : (s.pending.map fun r => r.objuid.index).Nodup

theorem sound_new (cfg : List TempStorageConfiguration) : (new cfg).Sound := by
  refine ⟨fun i => ⟨∅, ?_, ?_, ?_, ?_⟩, ?_, ?_⟩
  · intro idx t
    simp [new]
  · rfl
  · exact UInt64.le_iff_toNat_le.2 (Nat.zero_le _)
  · constructor <;> simp [new, ofConfiguration]
  · simp [new, pending, todo]
  · simp [new, pending, todo]

variable {w : TempWaitStub} {a : TempAction} {ev : List TempEvent}

/-- **One fate for each request**, when one storage at most takes it. -/
theorem consume_fate (hone : ∀ i < s.storageCount, ∀ j < s.storageCount,
    s.takes w i → s.takes w j → i = j) :
    ∃ f : Fate, (s.consume w).2 = f.events w.objuid ∧ (f = .refused ↔ s.canuse w = false) := by
  have hoffer := offer_events (w := w) (n := s.tempwaitdq.length)
    (nodup_range (n := s.storageCount)) s
  have hcanuse : ∀ i, i < s.storageCount → s.takes w i → s.canuse w := by
    intro i hi htakes
    rw [takes, Bool.and_eq_true] at htakes
    exact any_eq_true.2 ⟨i, mem_range.2 hi, htakes.1⟩
  simp only [consume, hoffer]
  cases htaken : (List.range s.storageCount).filter (s.takes w) with
  | nil =>
    cases huse : s.canuse w with
    | true => exact ⟨.waiting, rfl, by simp⟩
    | false => exact ⟨.refused, rfl, by simp⟩
  | cons i is =>
    have hmem : ∀ j ∈ i :: is, j < s.storageCount ∧ s.takes w j := by
      intro j hj
      rw [← htaken, mem_filter, mem_range] at hj
      exact hj
    obtain ⟨hi, hti⟩ := hmem i mem_cons_self
    have hnil : is = [] := by
      refine eq_nil_iff_forall_not_mem.2 fun j hj => ?_
      obtain ⟨hlt, htj⟩ := hmem j (mem_cons_of_mem i hj)
      have hnodup : (i :: is).Nodup := htaken ▸ nodup_range.filter _
      exact (nodup_cons.1 hnodup).1 (hone i hi j hlt hti htj ▸ hj)
    have huse := hcanuse i hi hti
    exact ⟨.prepared i, by simp [hnil, huse, takenEvents, Fate.events], by simp [huse]⟩

theorem deliver_eq (s : TempStore) : s.deliver = some ({ s with tempidxvec := [] }, []) := by
  unfold deliver
  split_ifs with h
  · rw [← h]
  · rfl

theorem execute_pending {signal : Bool} (hidle : s.phase = .idle)
    (hok : s.Orderly (.execute signal)) : (s.execute signal).pending = s.pending := by
  cases signal with
  | true => simp [pending, todo, execute, executeOnSignal, hidle]
  | false =>
    have hcons : s.pconstempwaitvec = [] := hok rfl
    simp [pending, todo, execute, hidle, hcons]

theorem clear_frame (s : TempStore) (idx : ℕ) :
    (s.clear idx).phase = s.phase ∧ (s.clear idx).pfilltempwaitvec = s.pfilltempwaitvec ∧
      (s.clear idx).pconstempwaitvec = s.pconstempwaitvec := by
  unfold clear enqueStorage
  split
  · exact ⟨rfl, rfl, rfl⟩
  · split_ifs <;> exact ⟨rfl, rfl, rfl⟩

theorem clear_pending (s : TempStore) (idx : ℕ) : (s.clear idx).pending = s.pending := by
  obtain ⟨hphase, hfill, -⟩ := s.clear_frame idx
  rw [pending, pending, todo, todo, hphase, hfill]

/-- What a step is to the requests: a pending one is consumed, or one is added. -/
theorem exec_pending (hok : s.Orderly a) (hexec : s.exec a = some (s', ev)) :
    (∃ w f, s.pending = w :: s'.pending ∧ a.requests = [] ∧ ev = Fate.events w.objuid f ∧
      (f = .refused ↔ s.canuse w = false)) ∨
    s'.pending = s.pending ++ a.requests ∧ ev = [] := by
  cases a with
  | request uid size openflags =>
    cases hexec
    refine .inr ⟨?_, rfl⟩
    simp only [pending, preparePointer, TempAction.requests, todo, append_assoc]
  | execute signal =>
    rw [exec] at hexec
    split_ifs at hexec with hidle
    cases hexec
    exact .inr ⟨(execute_pending hidle hok).trans (append_nil _).symm, rfl⟩
  | consume =>
    rw [exec] at hexec
    split at hexec
    · rename_i w rest hphase
      have htodo : s.todo = w :: rest := by rw [todo, hphase]
      have hone := hok w (by rw [htodo]; rfl)
      obtain ⟨f, hf, hrefused⟩ :=
        consume_fate (s := { s with phase := .consuming rest }) (w := w) hone
      obtain ⟨-, hfill, -, hphase'⟩ := consume_frame { s with phase := .consuming rest } w
      cases hexec
      refine .inl ⟨w, f, ?_, rfl, hf, hrefused⟩
      have hpending : ({ s with phase := .consuming rest }.consume w).1.pending =
          rest ++ s.pfilltempwaitvec := by
        rw [pending, todo, hphase', hfill]
      show s.pending = w :: ({ s with phase := .consuming rest }.consume w).1.pending
      rw [hpending, pending, htodo]
      rfl
    · cases hexec
  | deliver =>
    rw [exec, deliver_eq] at hexec
    split_ifs at hexec with hphase
    cases hexec
    refine .inr ⟨?_, rfl⟩
    simp [pending, todo, hphase, TempAction.requests]
  | clear idx =>
    rw [exec] at hexec
    split_ifs at hexec with hphase
    cases hexec
    exact .inr ⟨(s.clear_pending idx).trans (append_nil _).symm, rfl⟩
  | finish =>
    rw [exec] at hexec
    split_ifs at hexec with hphase
    cases hexec
    refine .inr ⟨?_, rfl⟩
    simp [pending, todo, hphase, TempAction.requests]

theorem Sound.clear (h : s.Sound) (idx : ℕ) : (s.clear idx).Sound := by
  unfold TempStore.clear
  split
  · exact h
  · rename_i t ht
    have hptmp : ∀ idx', s.ptmp idx' = none → Function.update s.ptmp idx none idx' = none := by
      intro idx' hnone
      rcases eq_or_ne idx' idx with rfl | hne
      · exact Function.update_self _ _ _
      · exact (Function.update_of_ne hne _ _).trans hnone
    have hclosed : ∀ i, ∃ T,
        ({ s.doCloseTemp t with ptmp := Function.update s.ptmp idx none }).Accounted i T := by
      intro i
      obtain ⟨T, hT⟩ := h.accounted i
      rcases eq_or_ne t.tempstorageid i with heq | hne
      · exact ⟨_, hT.doCloseTemp ht heq⟩
      · refine ⟨T, hT.frame idx (Function.update_of_ne hne.symm _ _) ?_ ?_ ?_⟩
        · intro t' ht'
          rw [ht] at ht'
          cases ht'
          exact hne
        · intro t' ht'
          cases (Function.update_self (f := s.ptmp) idx none).symm.trans ht'
        · exact fun idx' h => Function.update_of_ne h _ _
    have hsound : ({ s.doCloseTemp t with ptmp := Function.update s.ptmp idx none }).Sound :=
      ⟨hclosed, fun r hr => hptmp _ (h.noTemp r hr), h.distinct⟩
    unfold enqueStorage
    split_ifs
    · -- only `enqued` and the list of storages change
      refine ⟨fun i => ?_, hsound.noTemp, hsound.distinct⟩
      obtain ⟨T, hT⟩ := hsound.accounted i
      rcases eq_or_ne i t.tempstorageid with rfl | hne
      · refine ⟨T, hT.congr rfl ?_ ?_ ?_ ?_⟩ <;> simp only [modifyStorage, Function.update_self]
      · refine ⟨T, hT.congr rfl ?_ ?_ ?_ ?_⟩ <;>
          simp only [modifyStorage, Function.update_of_ne hne]
    · exact hsound

theorem Sound.consume {rest : List TempWaitStub} (h : s.Sound)
    (hphase : s.phase = .consuming (w :: rest))
    (hone : ∀ i < s.storageCount, ∀ j < s.storageCount, s.takes w i → s.takes w j → i = j) :
    ({ s with phase := .consuming rest }.consume w).1.Sound := by
  obtain ⟨hptmp, hfill, -, hphase'⟩ := consume_frame { s with phase := .consuming rest } w
  have hpending : s.pending = w :: (rest ++ s.pfilltempwaitvec) := by
    rw [pending, todo, hphase]
    rfl
  have hpending' : ({ s with phase := .consuming rest }.consume w).1.pending =
      rest ++ s.pfilltempwaitvec := by
    rw [pending, todo, hphase', hfill]
  have hnone := h.noTemp
  have hdistinct := h.distinct
  rw [hpending] at hnone hdistinct
  obtain ⟨hnew, hdistinct⟩ := nodup_cons.1 hdistinct
  refine ⟨?_, ?_, ?_⟩
  · have haccounted : ∀ j, ∃ T, ({ s with phase := .consuming rest }).Accounted j T :=
      fun j => (h.accounted j).imp fun T hT => hT.congr rfl rfl rfl rfl rfl
    refine accounted_offer nodup_range haccounted ?_ fun _ => hnone w mem_cons_self
    exact fun i hi j hj => hone i (mem_range.1 hi) j (mem_range.1 hj)
  · rw [hpending']
    intro r hr
    have hne : r.objuid.index ≠ w.objuid.index := fun heq =>
      hnew (mem_map.2 ⟨r, hr, heq⟩)
    exact (hptmp _ hne).trans (hnone r (mem_cons_of_mem w hr))
  · rw [hpending']
    exact hdistinct

/-- A step that changes no storage and no temp, and does not add to the pending requests. -/
theorem Sound.congr (h : s.Sound) (hstrg : s'.storagevec = s.storagevec)
    (hptmp : s'.ptmp = s.ptmp) (hpending : s'.pending = s.pending) : s'.Sound := by
  refine ⟨fun i => ?_, ?_, ?_⟩
  · obtain ⟨T, hT⟩ := h.accounted i
    refine ⟨T, hT.congr hptmp ?_ ?_ ?_ ?_⟩ <;> rw [hstrg]
  · rw [hpending, hptmp]
    exact h.noTemp
  · rw [hpending]
    exact h.distinct

/-- **One step**: the temps stay accounted. -/
theorem Sound.exec (h : s.Sound) (hok : s.Orderly a)
    (hexec : s.exec a = some (s', ev)) : s'.Sound := by
  cases a with
  | request uid size openflags =>
    cases hexec
    have hadd : (s.preparePointer uid size openflags).pending =
        s.pending ++ [⟨uid, some uid.index, size, openflags⟩] := by
      simp only [pending, preparePointer, todo, List.append_assoc]
    refine ⟨fun i => (h.accounted i).imp fun T hT => hT.congr rfl rfl rfl rfl rfl, ?_, ?_⟩
    · rw [hadd]
      intro r hr
      rcases List.mem_append.1 hr with hr | hr
      · exact h.noTemp r hr
      · cases List.mem_singleton.1 hr
        exact hok.1
    · rw [hadd, List.map_append, List.map_singleton, List.nodup_append]
      refine ⟨h.distinct, List.nodup_singleton _, ?_⟩
      intro idx hidx idx' hidx'
      obtain ⟨r, hr, rfl⟩ := List.mem_map.1 hidx
      rw [List.mem_singleton.1 hidx']
      exact hok.2 r hr
  | execute signal =>
    rw [TempStore.exec] at hexec
    split_ifs at hexec with hidle
    cases hexec
    refine h.congr ?_ ?_ (execute_pending hidle hok) <;> cases signal <;> rfl
  | consume =>
    rw [TempStore.exec] at hexec
    split at hexec
    · rename_i w rest hphase
      have htodo : s.todo = w :: rest := by rw [todo, hphase]
      cases hexec
      exact h.consume hphase (hok w (by rw [htodo]; rfl))
    · cases hexec
  | deliver =>
    rw [TempStore.exec, deliver_eq] at hexec
    split_ifs at hexec with hphase
    cases hexec
    refine h.congr rfl rfl ?_
    simp [pending, todo, hphase]
  | clear idx =>
    rw [TempStore.exec] at hexec
    split_ifs at hexec
    cases hexec
    exact h.clear idx
  | finish =>
    rw [TempStore.exec] at hexec
    split_ifs at hexec with hphase
    cases hexec
    refine h.congr rfl rfl ?_
    simp [pending, todo, hphase]

/-! ## The configuration -/

theorem useStorage_configuration (s : TempStore) (w : TempWaitStub) (n i j : ℕ) :
    ((s.useStorage w n i).1.storagevec j).configuration = (s.storagevec j).configuration := by
  rcases eq_or_ne j i with rfl | hne
  · unfold useStorage
    split_ifs
    · have hstrg : (({ s with tempwaitdq := s.tempwaitdq.take n }).doPrepareOpenTemp
          w.objuid.index w.size j).storagevec j = (s.storagevec j).take w.size :=
        update_self _ _ _
      rw [hstrg, take_configuration]
    · have hstrg : (s.pushWaiting w j).storagevec j = _ := update_self _ _ _
      rw [hstrg]
      rfl
  · rw [useStorage_of_ne hne]

structure SameConfiguration (s s' : TempStore) : Prop where
  count : s'.storageCount = s.storageCount
  configuration : ∀ j, (s'.storagevec j).configuration = (s.storagevec j).configuration

theorem SameConfiguration.trans {s'' : TempStore} (h : SameConfiguration s s')
    (h' : SameConfiguration s' s'') : SameConfiguration s s'' :=
  ⟨h'.count.trans h.count, fun j => (h'.configuration j).trans (h.configuration j)⟩

theorem SameConfiguration.canuse (h : SameConfiguration s s') (w : TempWaitStub) :
    s'.canuse w = s.canuse w := by
  have huse : ∀ j, (s'.storagevec j).canUse w.size w.value =
    (s.storagevec j).canUse w.size w.value :=
    fun j => TempStorage.canUse_congr (h.configuration j) _ _
  simp only [TempStore.canuse, h.count, huse]

theorem sameConfiguration_offer {n : ℕ} (is : List ℕ) (s : TempStore) :
    SameConfiguration s (offer w n is s).1 := by
  induction is generalizing s with
  | nil => exact ⟨rfl, fun _ => rfl⟩
  | cons i is ih =>
    rw [offer]
    split_ifs
    · have hcount : (s.useStorage w n i).1.storageCount = s.storageCount := by
        unfold useStorage
        split_ifs <;> rfl
      exact SameConfiguration.trans ⟨hcount, useStorage_configuration s w n i⟩ (ih _)
    · exact ih s

theorem sameConfiguration_enqueStorage (s : TempStore) (i : ℕ) :
    SameConfiguration s (s.enqueStorage i) := by
  unfold enqueStorage
  split_ifs
  · refine ⟨rfl, fun j => ?_⟩
    rcases eq_or_ne j i with rfl | hne
    · simp only [modifyStorage_self]
      rfl
    · simp only [modifyStorage_of_ne hne]
  · exact ⟨rfl, fun _ => rfl⟩

theorem sameConfiguration_clear (s : TempStore) (idx : ℕ) : SameConfiguration s (s.clear idx) := by
  unfold clear
  split
  · exact ⟨rfl, fun _ => rfl⟩
  · rename_i t ht
    have henque := sameConfiguration_enqueStorage
      { s.doCloseTemp t with ptmp := update s.ptmp idx none } t.tempstorageid
    refine ⟨henque.count, fun j => (henque.configuration j).trans ?_⟩
    rcases eq_or_ne j t.tempstorageid with rfl | hne
    · simp only [doCloseTemp, modifyStorage_self]
      rfl
    · simp only [doCloseTemp, modifyStorage_of_ne hne]

theorem exec_configuration (hexec : s.exec a = some (s', ev)) : SameConfiguration s s' := by
  cases a with
  | request uid size openflags =>
    cases hexec
    exact ⟨rfl, fun _ => rfl⟩
  | execute signal =>
    rw [exec] at hexec
    split_ifs at hexec
    cases hexec
    cases signal <;> exact ⟨rfl, fun _ => rfl⟩
  | consume =>
    rw [exec] at hexec
    split at hexec <;> cases hexec
    obtain ⟨hcount, hconfiguration⟩ := sameConfiguration_offer _ _
    exact ⟨hcount, hconfiguration⟩
  | deliver =>
    rw [exec, deliver_eq] at hexec
    split_ifs at hexec
    cases hexec
    exact ⟨rfl, fun _ => rfl⟩
  | clear idx =>
    rw [exec] at hexec
    split_ifs at hexec
    cases hexec
    exact sameConfiguration_clear s idx
  | finish =>
    rw [exec] at hexec
    split_ifs at hexec
    cases hexec
    exact ⟨rfl, fun _ => rfl⟩

end TempStore

/-! ## Runs -/

namespace TempRun
open TempStore
variable {ok : TempStore → TempAction → Prop} {cfg : List TempStorageConfiguration}
  {rs : List TempWaitStub} {tr : List TempEvent} {s : TempStore}

theorem sameConfiguration (h : TempRun ok cfg rs tr s) : SameConfiguration (new cfg) s := by
  induction h with
  | start => exact ⟨rfl, fun _ => rfl⟩
  | step a _ _ hexec ih => exact ih.trans (exec_configuration hexec)

theorem sound (h : TempRun Orderly cfg rs tr s) : s.Sound := by
  induction h with
  | start => exact sound_new cfg
  | step a _ hok hexec ih => exact ih.exec hok hexec

/-- **Each request has one fate**: those made are those that were consumed, each with what was
    seen of it, and those still pending. -/
theorem fates (h : TempRun Orderly cfg rs tr s) :
    ∃ fates : List (TempWaitStub × Fate), rs = fates.map Prod.fst ++ s.pending ∧
      tr = fates.flatMap (fun p => p.2.events p.1.objuid) ∧
      ∀ p ∈ fates, p.2 = .refused ↔ (new cfg).canuse p.1 = false := by
  induction h with
  | start => exact ⟨[], rfl, rfl, fun _ h => by cases h⟩
  | step a h hok hexec ih =>
    obtain ⟨fates, hrs, htr, hrefused⟩ := ih
    obtain ⟨w, f, hpending, hreq, rfl, hf⟩ | ⟨hpending, rfl⟩ := exec_pending hok hexec
    · refine ⟨fates ++ [(w, f)], ?_, ?_, ?_⟩
      · rw [hrs, hpending, hreq]
        simp
      · rw [htr]
        simp
      · intro p hp
        rcases mem_append.1 hp with hp | hp
        · exact hrefused p hp
        · cases mem_singleton.1 hp
          rw [hf, h.sameConfiguration.canuse]
    · refine ⟨fates, ?_, ?_, hrefused⟩
      · rw [hrs, hpending, append_assoc]
      · rw [append_nil, htr]

/-- **The temps are accounted** in every run of orderly steps.  A request that was consumed
    was prepared in one storage and scheduled once, or waits, or was scheduled because no
    storage of the configuration can be used; `usedsize` of a storage is the size of its open
    temps and within its capacity, and the temps have different ids. -/
theorem accounting (h : TempRun Orderly cfg rs tr s) :
    (∃ fates : List (TempWaitStub × Fate), rs = fates.map Prod.fst ++ s.pending ∧
      tr = fates.flatMap (fun p => p.2.events p.1.objuid) ∧
      ∀ p ∈ fates, p.2 = .refused ↔ (new cfg).canuse p.1 = false) ∧
    ∀ i, ∃ T : Finset (ℕ × TempBase), s.OpenTemps i T ∧
      (s.storagevec i).usedsize.toNat = ∑ p ∈ T, p.2.tempsize.toNat ∧
      (s.storagevec i).usedsize ≤ ((new cfg).storagevec i).capacity ∧
      ∀ p ∈ T, ∀ q ∈ T, p.2.tempid = q.2.tempid → p = q := by
  refine ⟨h.fates, fun i => ?_⟩
  obtain ⟨T, hT⟩ := h.sound.accounted i
  have hcap : (s.storagevec i).capacity = ((new cfg).storagevec i).capacity :=
    congrArg TempStorageConfiguration.capacity (h.sameConfiguration.configuration i)
  exact ⟨T, hT.openTemps, hT.used, hcap ▸ hT.le, hT.numbered.distinct⟩

/-- Four requests: one for each storage, one that is too big for both, and one that waits until
    the first temp is closed. -/
def fourRequests : List TempWaitStub :=
  [⟨⟨3, 1⟩, some 3, 5, 31⟩, ⟨⟨4, 1⟩, some 4, 7, 31⟩, ⟨⟨5, 1⟩, some 5, 11, 31⟩,
    ⟨⟨6, 1⟩, some 6, 6, 31⟩]

theorem accounting_four_requests : ∃ s T₀ T₁,
    TempRun Orderly [⟨"/tmp/", 8, 10, 0, 0⟩, ⟨"", 1, 10, 6, 0⟩] fourRequests
        [.prepared ⟨3, 1⟩ 0, .scheduled ⟨3, 1⟩, .prepared ⟨4, 1⟩ 1, .scheduled ⟨4, 1⟩,
          .scheduled ⟨5, 1⟩] s ∧
      s.tempwaitdq.length = 2 ∧
      s.OpenTemps 0 T₀ ∧ ∑ p ∈ T₀, p.2.tempsize.toNat = 0 ∧
      s.OpenTemps 1 T₁ ∧ ∑ p ∈ T₁, p.2.tempsize.toNat = 7 := by
  have hstart : TempRun Orderly [⟨"/tmp/", 8, 10, 0, 0⟩, ⟨"", 1, 10, 6, 0⟩] [] [] _ := .start
  have hasked := hstart.step (.request ⟨3, 1⟩ 5 31) ⟨rfl, by decide⟩ rfl
    |>.step (.request ⟨4, 1⟩ 7 31) ⟨rfl, by decide⟩ rfl
    |>.step (.request ⟨5, 1⟩ 11 31) ⟨rfl, by decide⟩ rfl
    |>.step (.request ⟨6, 1⟩ 6 31) ⟨rfl, by decide⟩ rfl
  have hconsumed := hasked.step (.execute true) (fun h => by cases h) rfl
    |>.step .consume (by rintro w ⟨⟩; decide) rfl
    |>.step .consume (by rintro w ⟨⟩; decide) rfl
    |>.step .consume (by rintro w ⟨⟩; decide) rfl
    |>.step .consume (by rintro w ⟨⟩; decide) rfl
  have hrun := hconsumed.step .deliver trivial rfl |>.step (.clear 3) trivial rfl
  obtain ⟨T₀, hopen₀, hused₀, -⟩ := hrun.accounting.2 0
  obtain ⟨T₁, hopen₁, hused₁, -⟩ := hrun.accounting.2 1
  exact ⟨_, T₀, T₁, hrun, rfl, hopen₀, hused₀.symm, hopen₁, hused₁.symm⟩

/-- **A request is prepared in each storage that should be used**: the loop does not end at the
    first one.  Of the two temps the file keeps the second one, so that the space of the first
    one stays taken although no temp is open in its storage. -/
theorem accounting_two_storages :
    ∃ s, TempRun (fun _ _ => True) [⟨"/tmp/", 8, 10, 0, 0⟩, ⟨"", 1, 10, 0, 0⟩]
        [⟨⟨3, 1⟩, some 3, 5, 31⟩]
        [.prepared ⟨3, 1⟩ 0, .scheduled ⟨3, 1⟩, .prepared ⟨3, 1⟩ 1, .scheduled ⟨3, 1⟩] s ∧
      s.OpenTemps 0 ∅ ∧ (s.storagevec 0).usedsize = 5 := by
  have hrun := (TempRun.start : TempRun (fun _ _ => True)
    [⟨"/tmp/", 8, 10, 0, 0⟩, ⟨"", 1, 10, 0, 0⟩] [] [] _).step (.request ⟨3, 1⟩ 5 31)
    trivial rfl
    |>.step (.execute true) trivial rfl
    |>.step .consume trivial rfl
  refine ⟨_, hrun, fun idx t => ⟨fun h => absurd h (Finset.notMem_empty _), ?_⟩, by decide⟩
  rintro ⟨ht, hstorage⟩
  rcases eq_or_ne idx 3 with rfl | hne
  · cases ht
    cases hstorage
  · rw [(offer_frame _ _).1 idx] at ht
    · cases ht
    · exact hne

end TempRun

end SolidFrame
