/-
  SolidFrame formalization — the free indices of the store of shared objects
  (solid/frame/sharedstore.hpp, solid/frame/src/sharedstore.cpp).

  An index is free while it is on the stack `cacheobjidxstk`.  `doExecute` visits
  the ids of the consume vector, remembers in `cacheobjidxvec` the indices of
  those that can be cleared, and later clears their stubs and puts the indices on
  the stack.  An id that is in the consume vector twice is remembered twice.
-/
import Mathlib.Data.List.Nodup
import SolidFrame.Frame.SharedStoreWaiters

namespace SolidFrame

open Function List System

namespace Shared

variable {F : Type}

/-- An index was handed out and not freed since; the last outcome is first. -/
def taken (i : ℕ) : List (Outcome F) → Bool
  | [] => false
  | o :: os =>
    if o.allocated = some i then true else if o.freed = some i then false else taken i os

/-- The release that leaves an object without pointers and waiters finds no
    notification of the object, and calls with an index are not made on a free
    one. -/
def System.soleNotice (s : System F) (a : Action F) : Bool :=
  match a with
  | .release p =>
    !((s.store.stubvec p.uid.index).doDecrementObjectUseCount p).canClear ||
      !(s.store.fillEraseVec ++ s.store.consEraseVec).contains p.uid
  | a =>
    match a.wanted s with
    | some (_, i) => a.allocates || !s.store.cacheobjidxstk.contains i
    | none => true

/-! ## Stubs that can be cleared -/

variable {acc : Access}

namespace Stub

variable {rs rs' : Stub F}

theorem canClear_iff : rs.canClear ↔ rs.usecnt = 0 ∧ rs.alivecnt = 0 ∧ rs.waits = [] := by
  simp [canClear, and_assoc]

theorem canClear_iff_of_counts {ps : List Pointer} (h : rs.Counts ps) :
    rs.canClear ↔ ps = [] ∧ rs.waits = [] := by
  rw [canClear_iff, ← h.counts_eq_zero, and_assoc]

theorem not_canClear_of_doTryGet (h : rs.doTryGet acc = some rs') :
    rs'.canClear ≠ true := by
  rw [Ne, canClear_iff]
  rintro ⟨huse, halive, -⟩
  cases acc <;>
    simp only [doTryGet, doTryGetAlive, doTryGetUnique, doTryGetShared, doTryGetReinit] at h
  · cases h
    cases halive
  all_goals
    split_ifs at h
    cases h
    cases huse

theorem not_canClear_doPushWait (kind : WaitKind) (f : F) :
    (rs.doPushWait kind f).canClear ≠ true := by
  simp [canClear_iff, doPushWait]

theorem not_canClear_doExecuteErase {ps : List Pointer} (h : rs.Counts ps)
    (hc : rs.canClear ≠ true) : rs.doExecuteErase.1.canClear ≠ true := by
  intro hclear
  obtain ⟨hnil, hwaits⟩ := (canClear_iff_of_counts (h.eraseLoop 0 rs.waits).2).1 hclear
  obtain ⟨hserved, hps⟩ := append_eq_nil_iff.1 hnil
  have happ := rs.eraseLoop_append rs.waits
  rw [hwaits, map_eq_nil_iff.1 hserved] at happ
  exact hc ((canClear_iff_of_counts h).2 ⟨hps, happ.symm⟩)

theorem canClear_clear : rs.clear.canClear = rs.canClear := rfl

theorem clear_uid_ne : rs.clear.uid ≠ rs.uid := by
  simp only [clear]
  omega

end Stub

/-! ## The invariant -/

def Store.idAt (t : Store F) (i : ℕ) : UniqueId := ⟨i, (t.stubvec i).uid⟩

/-- The free indices, and the notifications that may free more. -/
structure Indices (t : Store F) : Prop where
  nodup : t.cacheobjidxstk.Nodup
  unused : ∀ i ∈ t.cacheobjidxstk, (t.stubvec i).canClear = true
  /-- stubs that do not exist yet -/
  fresh : ∀ i, t.objmaxcnt ≤ i → (t.stubvec i).canClear = true
  unnoticed : ∀ i ∈ t.cacheobjidxstk, t.idAt i ∉ t.fillEraseVec ++ t.consEraseVec
  apart : ∀ i ∈ t.cacheobjidxvec, i ∉ t.cacheobjidxstk
  vecNodup : t.cacheobjidxvec.Nodup
  /-- an index is freed at most once in this execution -/
  lone : ∀ i, (t.stubvec i).canClear = true →
    t.consEraseVec.count (t.idAt i) + t.cacheobjidxvec.count i ≤ 1
  /-- and at most once in the next one -/
  loneNext : ∀ i, (t.stubvec i).canClear = true → t.fillEraseVec.count (t.idAt i) ≤ 1
  /-- ids filled in while the consume vector is visited are those of the present objects -/
  present : t.consEraseVec ≠ [] → ∀ u ∈ t.fillEraseVec, u = t.idAt u.index
  presentVec : ∀ u ∈ t.fillEraseVec, u.index ∈ t.cacheobjidxvec → u = t.idAt u.index

namespace Indices

variable {t t' : Store F}

theorem initial : Indices ({} : Store F) where
  nodup := nodup_nil
  unused := by simp
  fresh := by simp [Stub.canClear]
  unnoticed := by simp
  apart := by simp
  vecNodup := nodup_nil
  lone := by simp
  loneNext := by simp
  present := by simp
  presentVec := by simp

variable {s : System F} {i : ℕ} {p : Pointer} {uid : UniqueId} {rest : List UniqueId}

/-- A change of one stub that is not free, with its notifications: its id may be
    filled in, ids may leave the consume vector. -/
theorem touch (h : Indices t) {rs : Stub F} (extra : List UniqueId)
    (hstub : t'.stubvec = update t.stubvec i rs) (huid : rs.uid = (t.stubvec i).uid)
    (hi : i < t.objmaxcnt) (hfree : i ∉ t.cacheobjidxstk)
    (hmax : t'.objmaxcnt = t.objmaxcnt) (hstk : t'.cacheobjidxstk = t.cacheobjidxstk)
    (hvec : t'.cacheobjidxvec = t.cacheobjidxvec)
    (hfill : t'.fillEraseVec = t.fillEraseVec ++ extra) (hextra : ∀ u ∈ extra, u = t.idAt i)
    (hcons : t'.consEraseVec.Sublist t.consEraseVec)
    (hlast : rs.canClear → t'.fillEraseVec.count (t.idAt i) ≤ 1 ∧
      t.consEraseVec.count (t.idAt i) + t.cacheobjidxvec.count i ≤ 1) : Indices t' := by
  have hid : ∀ j, t'.idAt j = t.idAt j := by
    intro j
    unfold Store.idAt
    rw [hstub]
    rcases eq_or_ne j i with rfl | hj
    · rw [update_self, huid]
    · rw [update_of_ne hj]
  have hother : ∀ j, j ≠ i → t'.stubvec j = t.stubvec j := by
    intro j hj
    rw [hstub, update_of_ne hj]
  have hstuck : ∀ j ∈ t.cacheobjidxstk, j ≠ i := fun j hj hji => hfree (hji ▸ hj)
  have hpres : ∀ u ∈ extra, u = t.idAt u.index := by
    intro u hu
    rw [hextra u hu]
    rfl
  refine ⟨hstk ▸ h.nodup, ?_, ?_, ?_, ?_, hvec ▸ h.vecNodup, ?_, ?_, ?_, ?_⟩
  · intro j hj
    rw [hstk] at hj
    rw [hother j (hstuck j hj)]
    exact h.unused j hj
  · intro j hj
    rw [hmax] at hj
    rw [hother j (by omega)]
    exact h.fresh j hj
  · intro j hj hmem
    rw [hstk] at hj
    rw [hid, hfill] at hmem
    rcases mem_append.1 hmem with hmem | hmem
    · rcases mem_append.1 hmem with hmem | hmem
      · exact h.unnoticed j hj (mem_append_left _ hmem)
      · exact hstuck j hj (congrArg UniqueId.index (hextra _ hmem))
    · exact h.unnoticed j hj (mem_append_right _ (hcons.subset hmem))
  · intro j hj
    rw [hstk]
    exact h.apart j (hvec ▸ hj)
  · intro j hj
    rw [hid, hvec]
    have hle := hcons.count_le (t.idAt j)
    rcases eq_or_ne j i with rfl | hji
    · rw [hstub, update_self] at hj
      have hone := (hlast hj).2
      omega
    · rw [hother j hji] at hj
      have hone := h.lone j hj
      omega
  · intro j hj
    rw [hid]
    rcases eq_or_ne j i with rfl | hji
    · rw [hstub, update_self] at hj
      exact (hlast hj).1
    · rw [hother j hji] at hj
      have hnone : extra.count (t.idAt j) = 0 := by
        rw [count_eq_zero]
        intro hmem
        exact hji (congrArg UniqueId.index (hextra _ hmem))
      rw [hfill, count_append, hnone]
      exact h.loneNext j hj
  · intro hne u hu
    rw [hid]
    rw [hfill] at hu
    rcases mem_append.1 hu with hu | hu
    · refine h.present (fun hnil => hne ?_) u hu
      rw [hnil] at hcons
      exact sublist_nil.1 hcons
    · exact hpres u hu
  · intro u hu hmem
    rw [hid]
    rw [hfill] at hu
    rcases mem_append.1 hu with hu | hu
    · exact h.presentVec u hu (hvec ▸ hmem)
    · exact hpres u hu

theorem allocate (h : Indices s.store) (hl : Locked s) :
    Indices s.allocate.store ∧ s.store.nextIndex ∉ s.allocate.store.cacheobjidxstk ∧
      (s.store.stubvec s.store.nextIndex).canClear = true := by
  unfold System.allocate Store.doAllocateIndex Store.nextIndex
  cases hstk : s.store.cacheobjidxstk with
  | cons i stk =>
    have hnd := h.nodup
    rw [hstk, List.nodup_cons] at hnd
    have hsub : ∀ j ∈ stk, j ∈ s.store.cacheobjidxstk := by
      intro j hj
      rw [hstk]
      exact List.mem_cons_of_mem i hj
    refine ⟨⟨hnd.2, fun j hj => h.unused j (hsub j hj), h.fresh,
      fun j hj => h.unnoticed j (hsub j hj), fun j hj hmem => h.apart j hj (hsub j hmem),
      h.vecNodup, h.lone, h.loneNext, h.present, h.presentVec⟩, hnd.1, h.unused i ?_⟩
    rw [hstk]
    exact List.mem_cons_self
  | nil =>
    have hnew : ∀ j ∈ (List.range 1023).map (s.store.objmaxcnt + 1 + ·), s.store.objmaxcnt < j := by
      intro j hj
      obtain ⟨k, -, rfl⟩ := List.mem_map.1 hj
      omega
    have hnd : ((List.range 1023).map (s.store.objmaxcnt + 1 + ·)).Nodup :=
      List.nodup_range.map fun _ _ hab => Nat.add_left_cancel hab
    generalize (List.range 1023).map (s.store.objmaxcnt + 1 + ·) = new at hnew hnd
    refine ⟨⟨hnd, fun j hj => h.fresh j (Nat.le_of_lt (hnew j hj)), fun j hj => h.fresh j ?_, ?_,
      ?_, h.vecNodup, h.lone, h.loneNext, h.present, h.presentVec⟩, ?_, h.fresh _ (Nat.le_refl _)⟩
    · have hle : s.store.objmaxcnt + 1024 ≤ j := hj
      omega
    · intro j hj hmem
      have hlt : (s.store.idAt j).index < s.store.objmaxcnt := by
        rcases List.mem_append.1 hmem with hmem | hmem
        · exact hl.fill _ hmem
        · exact hl.cons _ hmem
      exact absurd hlt (Nat.lt_asymm (hnew j hj))
    · intro j hj hmem
      exact absurd (hl.vec j hj) (Nat.lt_asymm (hnew j hmem))
    · intro hmem
      exact Nat.lt_irrefl _ (hnew _ hmem)

section
variable (h : Indices s.store) (hi : i < s.store.objmaxcnt) (hfree : i ∉ s.store.cacheobjidxstk)
include h hi hfree

theorem grant {rs : Stub F}
    (hget : (s.store.stubvec i).doTryGet acc = some rs) : Indices (s.grant acc i rs).store :=
  h.touch [] rfl (Stub.doTryGet_uid hget) hi hfree rfl rfl rfl (append_nil _).symm (by simp)
    (List.Sublist.refl _) fun hc => absurd hc (Stub.not_canClear_of_doTryGet hget)

theorem pushWait {kind : WaitKind} {f : F} : Indices (s.pushWait kind f i).store :=
  h.touch [] rfl rfl hi hfree rfl rfl rfl (append_nil _).symm (by simp)
    (List.Sublist.refl _) fun hc => absurd hc (Stub.not_canClear_doPushWait kind f)

theorem answer {s' : System F} {a : Action F} {gs : List (Grant F)}
    (ha : s.Answer a acc i s' gs) : Indices s'.store := by
  cases ha with
  | granted hget => exact h.grant hi hfree hget
  | refused _ => exact h
  | queued _ _ _ => exact h.pushWait hi hfree
  | kept _ _ hget => exact (h.grant hi hfree hget).pushWait hi hfree

end

section
variable (h : Indices s.store) (hl : Locked s) (hp : p ∈ s.live)
include h hl hp

theorem not_free : p.uid.index ∉ s.store.cacheobjidxstk := by
  intro hmem
  have hnil := (hl.counts _).eq_nil (h.unused _ hmem)
  have hin := mem_pointersAt.2 ⟨hp, rfl⟩
  rw [hnil] at hin
  cases hin

theorem uniqueToShared (hu : p.lock = .unique) : Indices (s.uniqueToShared p).store := by
  have hknows := hl.knows hp
  have huse := ((hl.counts _).exclusive p (mem_pointersAt.2 ⟨hp, rfl⟩) hu).1
  have hid : p.uid = s.store.idAt p.uid.index := by
    rw [Store.idAt, hknows.2]
  simp only [System.uniqueToShared, hknows, if_true, Stub.doSwitchUniqueToShared,
    hl.uniqueLock hp hu]
  have hnot : ∀ rs : Stub F, rs.usecnt = 1 → rs.canClear ≠ true := by
    intro rs h1
    simp [Stub.canClear_iff, h1]
  split_ifs
  · exact h.touch (i := p.uid.index) [p.uid] rfl rfl hknows.1 (h.not_free hl hp) rfl
      rfl rfl rfl (by simpa using hid) (List.Sublist.refl _) fun hc => absurd hc (hnot _ huse)
  · exact h.touch (i := p.uid.index) [] rfl rfl hknows.1 (h.not_free hl hp) rfl rfl rfl
      (append_nil _).symm (by simp) (List.Sublist.refl _) fun hc => absurd hc (hnot _ huse)

theorem release (hsole : s.soleNotice (.release p)) : Indices (s.release p).store := by
  have hknows := hl.knows hp
  have hid : s.store.idAt p.uid.index = p.uid := by
    rw [Store.idAt, hknows.2]
  simp only [System.release, hknows.1, if_true]
  refine h.touch (i := p.uid.index) [p.uid] rfl
    (Stub.doDecrementObjectUseCount_uid _ p) hknows.1 (h.not_free hl hp) rfl rfl rfl rfl
    (by simp [hid]) (List.Sublist.refl _) fun hc => ?_
  have hnone : p.uid ∉ s.store.fillEraseVec ++ s.store.consEraseVec := by
    simpa [System.soleNotice, hc] using hsole
  rw [mem_append, not_or] at hnone
  have hvec := nodup_iff_count_le_one.1 h.vecNodup p.uid.index
  rw [hid]
  constructor
  · show (s.store.fillEraseVec ++ [p.uid]).count p.uid ≤ 1
    rw [count_append, count_eq_zero.2 hnone.1]
    simp
  · rw [count_eq_zero.2 hnone.2]
    omega

end

theorem exchange (h : Indices s.store) (hc : s.store.consEraseVec = [])
    (hv : s.store.cacheobjidxvec = []) : Indices { s.store with
      consEraseVec := s.store.fillEraseVec, fillEraseVec := [] } where
  nodup := h.nodup
  unused := h.unused
  fresh := h.fresh
  unnoticed i hi hmem := by
    refine h.unnoticed i hi ?_
    rw [hc, append_nil]
    exact hmem
  apart := h.apart
  vecNodup := h.vecNodup
  lone i hi := by
    rw [hv]
    exact h.loneNext i hi
  loneNext := by simp
  present := by simp
  presentVec := by simp

theorem drop (h : Indices t)
    (hc : t.consEraseVec = uid :: rest) : Indices { t with consEraseVec := rest } where
  nodup := h.nodup
  unused := h.unused
  fresh := h.fresh
  unnoticed i hi hmem := by
    refine h.unnoticed i hi ?_
    rw [hc]
    rcases mem_append.1 hmem with hmem | hmem
    · exact mem_append_left _ hmem
    · exact mem_append_right _ (mem_cons_of_mem _ hmem)
  apart := h.apart
  vecNodup := h.vecNodup
  lone i hi := by
    have hone := h.lone i hi
    rw [hc] at hone
    have hle := (sublist_cons_self uid rest).count_le (t.idAt i)
    exact Nat.le_trans (Nat.add_le_add_right hle _) hone
  loneNext := h.loneNext
  present _ := h.present (by rw [hc]; simp)
  presentVec := h.presentVec

theorem remember (h : Indices t)
    (hc : t.consEraseVec = uid :: rest) (huid : uid.unique = (t.stubvec uid.index).uid)
    (hclear : (t.stubvec uid.index).canClear) :
    Indices { t with consEraseVec := rest, cacheobjidxvec := t.cacheobjidxvec ++ [uid.index] } := by
  have hid : t.idAt uid.index = uid := by
    rw [Store.idAt, ← huid]
  have hone := h.lone uid.index hclear
  rw [hc, hid, count_cons_self] at hone
  have hnew : uid.index ∉ t.cacheobjidxvec := count_eq_zero.1 (by omega)
  have hd := h.drop hc
  refine ⟨hd.nodup, hd.unused, hd.fresh, hd.unnoticed, ?_, ?_, ?_, hd.loneNext, hd.present, ?_⟩
  · intro i hi hmem
    rcases mem_append.1 hi with hi | hi
    · exact h.apart i hi hmem
    · rw [mem_singleton.1 hi] at hmem
      refine h.unnoticed _ hmem ?_
      rw [hid, hc]
      exact mem_append_right _ mem_cons_self
  · refine nodup_append.2 ⟨h.vecNodup, nodup_singleton _, ?_⟩
    rintro a ha b hb rfl
    rw [mem_singleton.1 hb] at ha
    exact hnew ha
  · intro i hi
    show rest.count (t.idAt i) + (t.cacheobjidxvec ++ [uid.index]).count i ≤ 1
    rw [count_append]
    rcases eq_or_ne i uid.index with rfl | hne
    · rw [hid, count_singleton_self]
      omega
    · have hzero : [uid.index].count i = 0 := by
        rw [count_eq_zero, mem_singleton]
        exact hne
      have hle : rest.count (t.idAt i) + t.cacheobjidxvec.count i ≤ 1 := hd.lone i hi
      omega
  · intro u hu hmem
    exact h.present (by rw [hc]; simp) u hu

theorem erase (h : Indices s.store) (hl : Locked s) (hc : s.store.consEraseVec = uid :: rest) :
    Indices (s.erase uid rest).1.store := by
  simp only [System.erase]
  split_ifs with huid hclear
  · exact h.remember hc huid hclear
  · have hid : s.store.idAt uid.index = uid := by
      rw [Store.idAt, ← huid]
    have hfree : uid.index ∉ s.store.cacheobjidxstk := by
      intro hmem
      refine h.unnoticed _ hmem ?_
      rw [hid, hc]
      exact mem_append_right _ mem_cons_self
    have hcount := hl.counts uid.index
    refine h.touch [] rfl (hcount.eraseLoop 0 _).1 (hl.cons uid (by simp [hc])) hfree rfl rfl rfl
      (append_nil _).symm (by simp) (by rw [hc]; exact sublist_cons_self _ _) ?_
    exact fun hclear' => absurd hclear' (Stub.not_canClear_doExecuteErase hcount hclear)
  · exact h.drop hc

/-- The index is put on the stack of the free ones: with its new id no notification
    of it is queued. -/
theorem cache (h : Indices s.store) {rest : List ℕ}
    (hc : s.store.consEraseVec = []) (hv : s.store.cacheobjidxvec = i :: rest) :
    Indices (s.cache i rest).1.store := by
  have hnd := h.vecNodup
  rw [hv, List.nodup_cons] at hnd
  have hsub : ∀ j ∈ rest, j ∈ s.store.cacheobjidxvec := by
    intro j hj
    rw [hv]
    exact List.mem_cons_of_mem i hj
  have hin : i ∈ s.store.cacheobjidxvec := by
    rw [hv]
    exact List.mem_cons_self
  simp only [System.cache]
  split_ifs with hclear
  · -- the new store: index `i` has a new id and is free
    set t' := (({ s.store with cacheobjidxvec := rest } : Store F).setStub i
      (s.store.stubvec i).clear).doCacheObjectIndex i with ht'
    have hself : t'.stubvec i = (s.store.stubvec i).clear := Function.update_self ..
    have hother : ∀ j, j ≠ i → t'.stubvec j = s.store.stubvec j :=
      fun j hj => Function.update_of_ne hj ..
    have hclear' : ∀ j, (t'.stubvec j).canClear = (s.store.stubvec j).canClear := by
      intro j
      rcases eq_or_ne j i with rfl | hj
      · rw [hself, Stub.canClear_clear]
      · rw [hother j hj]
    have hid : ∀ j, j ≠ i → t'.idAt j = s.store.idAt j := by
      intro j hj
      rw [Store.idAt, hother j hj, Store.idAt]
    have hnone : t'.idAt i ∉ s.store.fillEraseVec := by
      intro hmem
      have heq := congrArg UniqueId.unique (h.presentVec _ hmem hin)
      rw [Store.idAt, hself] at heq
      exact Stub.clear_uid_ne heq
    have hstk : i ∉ s.store.cacheobjidxstk := h.apart i hin
    refine ⟨List.nodup_cons.2 ⟨hstk, h.nodup⟩, ?_, ?_, ?_, ?_, hnd.2, ?_, ?_, ?_, ?_⟩
    · rintro j (_ | ⟨_, hj⟩)
      · rw [hclear']
        exact hclear
      · rw [hclear']
        exact h.unused j hj
    · intro j hj
      rw [hclear']
      exact h.fresh j hj
    · intro j hj hmem
      have hmem' : t'.idAt j ∈ s.store.fillEraseVec := by
        rcases List.mem_append.1 hmem with hmem | hmem
        · exact hmem
        · exact absurd hmem (by show _ ∉ s.store.consEraseVec; rw [hc]; simp)
      rcases List.mem_cons.1 hj with rfl | hj
      · exact hnone hmem'
      · have hji : j ≠ i := fun hji => hstk (hji ▸ hj)
        rw [hid j hji] at hmem'
        exact h.unnoticed j hj (List.mem_append_left _ hmem')
    · intro j hj hmem
      rcases List.mem_cons.1 hmem with rfl | hmem
      · exact hnd.1 hj
      · exact h.apart j (hsub j hj) hmem
    · intro j _
      show s.store.consEraseVec.count _ + rest.count j ≤ 1
      rw [hc, List.count_nil, Nat.zero_add]
      exact List.nodup_iff_count_le_one.1 hnd.2 j
    · intro j hj
      show s.store.fillEraseVec.count _ ≤ 1
      rcases eq_or_ne j i with rfl | hji
      · rw [List.count_eq_zero.2 hnone]
        exact Nat.zero_le 1
      · rw [hid j hji]
        rw [hclear'] at hj
        exact h.loneNext j hj
    · exact fun hne => absurd hc hne
    · intro u hu hmem
      have hui : u.index ≠ i := fun hui => hnd.1 (hui ▸ hmem)
      rw [hid _ hui]
      exact h.presentVec u hu (hsub _ hmem)
  · refine ⟨h.nodup, h.unused, h.fresh, h.unnoticed, fun j hj => h.apart j (hsub j hj), hnd.2,
      fun j hj => ?_, h.loneNext, h.present, fun u hu hmem => h.presentVec u hu (hsub _ hmem)⟩
    have hone := h.lone j hj
    rw [hv] at hone
    have hle := (List.sublist_cons_self i rest).count_le j
    exact Nat.le_trans (Nat.add_le_add_left hle _) hone

end Indices

/-! ## Runs -/

theorem System.Answer.free_eq {s s' : System F} {a : Action F} {i : ℕ}
    {gs : List (Grant F)} (h : s.Answer a acc i s' gs) :
    s'.store.cacheobjidxstk = s.store.cacheobjidxstk ∧ s'.store.objmaxcnt = s.store.objmaxcnt := by
  cases h <;> exact ⟨rfl, rfl⟩

/-- The indices handed out and not freed since are those of stubs that are not
    free. -/
def Taken (os : List (Outcome F)) (t : Store F) : Prop :=
  ∀ i, taken i os = true → i ∉ t.cacheobjidxstk ∧ i < t.objmaxcnt

/-- An index is handed out while nobody uses it and it is not handed out yet. -/
def AllocatesUnused (os : List (Outcome F)) (s : System F) (o : Outcome F) : Prop :=
  ∀ i, o.allocated = some i → pointersAt s.live i = [] ∧ s.waitsAt i = [] ∧ taken i os = false

section

variable {os : List (Outcome F)} {s s' : System F} {a : Action F} {o : Outcome F}

theorem Taken.of_eq (h : Taken os s.store) (ho : o.allocated = none) (hf : o.freed = none)
    (hstk : s'.store.cacheobjidxstk = s.store.cacheobjidxstk)
    (hmax : s'.store.objmaxcnt = s.store.objmaxcnt) : Taken (o :: os) s'.store := by
  intro i hi
  rw [hstk, hmax]
  exact h i (by simpa [taken, ho, hf] using hi)

theorem Taken.allocate (h : Taken os s.store) (hx : Indices s.store) (hl : Locked s)
    (ho : o.allocated = some s.store.nextIndex) (hf : o.freed = none) :
    Taken (o :: os) s.allocate.store ∧ AllocatesUnused os s o := by
  obtain ⟨-, hnew, hclear⟩ := hx.allocate hl
  constructor
  · intro i hi
    rcases eq_or_ne i s.store.nextIndex with rfl | hne
    · exact ⟨hnew, hl.nextIndex_lt⟩
    · have hi' : taken i os := by
        simpa [taken, ho, hf, hne.symm] using hi
      obtain ⟨hstk, hlt⟩ := h i hi'
      unfold System.allocate Store.doAllocateIndex
      cases hs : s.store.cacheobjidxstk with
      | nil =>
        constructor
        · simp only [mem_map, not_exists, not_and]
          intro k _
          omega
        · show i < s.store.objmaxcnt + 1024
          omega
      | cons j stk =>
        rw [hs] at hstk
        exact ⟨fun hmem => hstk (mem_cons_of_mem j hmem), hlt⟩
  · intro i hi
    rw [ho] at hi
    cases hi
    obtain ⟨hps, hwaits⟩ := (Stub.canClear_iff_of_counts (hl.counts _)).1 hclear
    refine ⟨hps, hwaits, ?_⟩
    by_contra htaken
    obtain ⟨hstk, hlt⟩ := h _ (by simpa using htaken)
    unfold Store.nextIndex at hstk hlt
    cases hs : s.store.cacheobjidxstk with
    | nil => simp [hs] at hlt
    | cons j stk => simp [hs] at hstk

theorem Indices.step (h : Indices s.store) (hl : Locked s) (ht : Taken os s.store)
    (hok : s.soleNotice a) (hs : s.Step a s' o) :
    Indices s'.store ∧ Taken (o :: os) s'.store ∧ AllocatesUnused os s o := by
  have hnone : ∀ o : Outcome F, o.allocated = none → AllocatesUnused os s o := by
    intro o ho i hi
    rw [ho] at hi
    cases hi
  cases hs with
  | @call _ acc i _ _ hw hi hn ho hf ha =>
    obtain ⟨hstk, hmax⟩ := ha.free_eq
    cases halloc : a.allocates with
    | true =>
      rw [halloc, if_pos rfl, hn halloc] at ho
      obtain ⟨hx, hnew, -⟩ := h.allocate hl
      obtain ⟨htaken, hunused⟩ := ht.allocate h hl ho hf
      rw [System.prepare, halloc, if_pos rfl] at ha hstk hmax
      rw [hn halloc] at ha
      refine ⟨hx.answer hl.nextIndex_lt hnew ha, fun j hj => ?_, hunused⟩
      rw [hstk, hmax]
      exact htaken j hj
    | false =>
      rw [halloc, if_neg Bool.false_ne_true] at ho
      rw [System.prepare, halloc, if_neg Bool.false_ne_true] at ha hstk hmax
      have hfree : i ∉ s.store.cacheobjidxstk := by
        cases a with
        | release p => cases hw
        | _ => simpa [System.soleNotice, hw, halloc] using hok
      exact ⟨h.answer (hi halloc) hfree ha, ht.of_eq ho hf hstk hmax, hnone _ ho⟩
  | ignored _ => exact ⟨h, ht.of_eq rfl rfl rfl rfl, hnone _ rfl⟩
  | @uniqueToShared p hp hu =>
    have hsame : (s.uniqueToShared p).store.cacheobjidxstk = s.store.cacheobjidxstk ∧
        (s.uniqueToShared p).store.objmaxcnt = s.store.objmaxcnt := by
      simp only [System.uniqueToShared, hl.knows hp, if_true, Stub.doSwitchUniqueToShared,
        hl.uniqueLock hp hu]
      split_ifs <;> exact ⟨rfl, rfl⟩
    exact ⟨h.uniqueToShared hl hp hu, ht.of_eq rfl rfl hsame.1 hsame.2, hnone _ rfl⟩
  | @release p hp =>
    have hsame : (s.release p).store.cacheobjidxstk = s.store.cacheobjidxstk ∧
        (s.release p).store.objmaxcnt = s.store.objmaxcnt := by
      simp only [System.release, (hl.knows hp).1, if_true]
      exact ⟨rfl, rfl⟩
    exact ⟨h.release hl hp hok, ht.of_eq rfl rfl hsame.1 hsame.2, hnone _ rfl⟩
  | exchange hc hv => exact ⟨h.exchange hc hv, ht.of_eq rfl rfl rfl rfl, hnone _ rfl⟩
  | @erase uid rest hc =>
    refine ⟨h.erase hl hc, ?_⟩
    simp only [System.erase]
    split_ifs <;> exact ⟨ht.of_eq rfl rfl rfl rfl, hnone _ rfl⟩
  | @cache i rest hc hv =>
    refine ⟨h.cache hc hv, ?_⟩
    simp only [System.cache]
    split_ifs
    · refine ⟨fun j hj => ?_, hnone _ rfl⟩
      have hji : j ≠ i := by
        rintro rfl
        simp [taken] at hj
      obtain ⟨hstk, hlt⟩ := ht j (by simpa [taken, hji.symm] using hj)
      refine ⟨fun hmem => ?_, hlt⟩
      rcases mem_cons.1 hmem with hmem | hmem
      · exact hji hmem
      · exact hstk hmem
    · exact ⟨ht.of_eq rfl rfl rfl rfl, hnone _ rfl⟩

theorem Run.indices (h : Run (fun _ s a => s.soleNotice a) os s) :
    Indices s.store ∧ Taken os s.store := by
  induction h with
  | initial => exact ⟨.initial, fun i hi => by simp [taken] at hi⟩
  | step hrun hok hexec ih =>
    obtain ⟨hx, ht, -⟩ := ih.1.step hrun.locked ih.2 hok (System.exec_step hexec)
    exact ⟨hx, ht⟩

/-- **The free indices are unused.**  In a run in which every step is
    `soleNotice`, no index is on the stack of free indices twice, nobody points to
    or waits for the object of a free index, and `doAllocateIndex` returns an
    index that nobody uses and that was freed since it was last returned. -/
theorem System.free_indices_unused (h : Run (fun _ s a => s.soleNotice a = true) os s) :
    s.store.cacheobjidxstk.Nodup ∧
    (∀ i ∈ s.store.cacheobjidxstk, pointersAt s.live i = [] ∧ s.waitsAt i = []) ∧
    ∀ a s' o, s.soleNotice a = true → s.exec a = some (s', o) → AllocatesUnused os s o := by
  obtain ⟨hx, ht⟩ := h.indices
  have hl := h.locked
  refine ⟨hx.nodup, fun i hi => ?_, fun a s' o hok hexec => ?_⟩
  · exact (Stub.canClear_iff_of_counts (hl.counts i)).1 (hx.unused i hi)
  · exact (hx.step hl ht hok (exec_step hexec)).2.2

end

/-- The index of a released object is free and handed out again. -/
theorem System.free_indices_unused_again :
    ∃ (os : List (Outcome ℕ)) (s s' : System ℕ) (o : Outcome ℕ),
      s.exec .insertAlive = some (s', o) ∧ o.allocated = some 0 ∧ os.length = 5 ∧
      s.store.cacheobjidxstk.Nodup ∧ AllocatesUnused os s o := by
  obtain ⟨os, s, s', o, hrun, hok, hexec, hP⟩ := exists_run_exec (F := ℕ)
    (fun _ s a => s.soleNotice a)
    [.insertAlive, .release ⟨⟨0, 0⟩, .alive⟩, .exchange, .erase, .cache] .insertAlive
    (fun os _ _ o => o.allocated = some 0 ∧ os.length = 5) (by decide +kernel)
  obtain ⟨hnodup, -, hunused⟩ := free_indices_unused hrun
  obtain ⟨halloc, hlen⟩ := of_decide_eq_true hP
  exact ⟨os, s, s', o, hexec, halloc, hlen, hnodup, hunused _ s' o hok hexec⟩

/-- Two pointers to one object are released before the store is executed: its index
    is freed twice, and handed out again while it is in use. -/
theorem System.index_freed_twice :
    (∃ (os : List (Outcome ℕ)) (s : System ℕ), Run (fun _ _ _ => True) os s ∧
      ¬ s.store.cacheobjidxstk.Nodup) ∧
    ∃ (os : List (Outcome ℕ)) (s s' : System ℕ) (o : Outcome ℕ), Run (fun _ _ _ => True) os s ∧
      s.exec .insertAlive = some (s', o) ∧ ¬ AllocatesUnused os s o := by
  constructor
  · obtain ⟨⟨os, s⟩, hrun, hP⟩ := exists_run (F := ℕ) (fun _ _ _ => True)
      [.insertAlive, .alive ⟨0, 0⟩, .release ⟨⟨0, 0⟩, .alive⟩, .release ⟨⟨0, 0⟩, .alive⟩,
        .exchange, .erase, .erase, .cache, .cache]
      (fun r => r.2.store.cacheobjidxstk.take 2 = [0, 0]) (by decide +kernel)
    refine ⟨os, s, hrun, fun hnodup => ?_⟩
    have htake : s.store.cacheobjidxstk.take 2 = [0, 0] := of_decide_eq_true hP
    have hpart := hnodup.sublist (take_sublist 2 _)
    rw [htake] at hpart
    exact absurd hpart (by decide)
  · obtain ⟨os, s, s', o, hrun, -, hexec, hP⟩ := exists_run_exec (F := ℕ) (fun _ _ _ => True)
      [.insertAlive, .alive ⟨0, 0⟩, .release ⟨⟨0, 0⟩, .alive⟩, .release ⟨⟨0, 0⟩, .alive⟩,
        .exchange, .erase, .erase, .cache, .cache, .insertAlive] .insertAlive
      (fun _ s _ o => o.allocated = some 0 ∧ s.live = [⟨⟨0, 2⟩, .alive⟩]) (by decide +kernel)
    obtain ⟨halloc, hlive⟩ := of_decide_eq_true hP
    refine ⟨os, s, s', o, hrun, hexec, fun hunused => ?_⟩
    have hnil := (hunused 0 halloc).1
    rw [hlive] at hnil
    exact absurd hnil (by decide)

end Shared

end SolidFrame
