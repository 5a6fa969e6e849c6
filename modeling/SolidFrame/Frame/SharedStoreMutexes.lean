/-
  SolidFrame formalization — the mutexes of the store of shared objects
  (solid/system/mutualstore.hpp, solid/frame/src/sharedstore.cpp).

  The indices of a store share mutexes: 64 indices a mutex, 8 mutexes a row, 8
  rows, and then from the first one again.  A row is allocated by `safeAt`.
  `doAllocateIndex` makes 1024 indices at a time, holding all mutexes there are,
  and calls `safeAt` for the first of them.
-/
import Mathlib.Data.List.Nodup
import Mathlib.Data.Nat.Bitwise
import SolidFrame.Frame.SharedStore

namespace SolidFrame

/-! ## The matrix of mutexes -/

/-- The parameters of the constructor with their defaults, and which rows of
    `objmat` are allocated. -/
structure MutualStore where
  objpermutbts : ℕ := 6
  mutrowsbts : ℕ := 3
  mutcolsbts : ℕ := 3
  objmat : ℕ → Bool := fun _ => false

namespace MutualStore

def bitsToMask (v : ℕ) : ℕ := (1 <<< v) - 1

/-- `(1 << v) & ~1`. -/
def bitsToCount (v : ℕ) : ℕ := (1 <<< v) - (1 <<< v) % 2

/-- `doGetObject`: the row and the column of the mutex `i`. -/
def doGetObject (s : MutualStore) (i : ℕ) : ℕ × ℕ :=
  ((i >>> s.mutrowsbts) &&& bitsToMask s.mutrowsbts, i &&& bitsToMask s.mutcolsbts)

def getObjectRow (s : MutualStore) (i : ℕ) : ℕ :=
  ((i >>> s.objpermutbts) >>> s.mutrowsbts) &&& bitsToMask s.mutrowsbts

/-- `at`: the mutex of an index. -/
def atIndex (s : MutualStore) (i : ℕ) : ℕ × ℕ := s.doGetObject (i >>> s.objpermutbts)

/-- `safeAt`: the row is allocated if it is not. -/
def safeAt (s : MutualStore) (i : ℕ) : MutualStore :=
  { s with objmat := Function.update s.objmat (s.getObjectRow i) true }

/-- The mutexes `visit` visits, in order. -/
def visit (s : MutualStore) (upto : ℕ) : List (ℕ × ℕ) :=
  let mutcnt := bitsToCount s.mutrowsbts * bitsToCount s.mutcolsbts
  let cnt := upto >>> s.objpermutbts
  (List.range (if mutcnt < cnt then mutcnt else cnt)).map s.doGetObject

def allocated (s : MutualStore) (p : ℕ × ℕ) : Bool := s.objmat p.1

variable {s : MutualStore}

theorem bitsToMask_eq (v : ℕ) : bitsToMask v = 2 ^ v - 1 := by
  rw [bitsToMask, Nat.one_shiftLeft]

theorem doGetObject_eq (s : MutualStore) (i : ℕ) :
    s.doGetObject i = (i / 2 ^ s.mutrowsbts % 2 ^ s.mutrowsbts, i % 2 ^ s.mutcolsbts) := by
  simp only [doGetObject, bitsToMask_eq, Nat.shiftRight_eq_div_pow, Nat.and_two_pow_sub_one_eq_mod]

theorem atIndex_fst (s : MutualStore) (i : ℕ) : (s.atIndex i).1 = s.getObjectRow i := rfl

theorem bitsToCount_eq {v : ℕ} (h : 0 < v) : bitsToCount v = 2 ^ v := by
  obtain ⟨n, rfl⟩ := Nat.exists_eq_succ_of_ne_zero h.ne'
  rw [bitsToCount, Nat.one_shiftLeft, Nat.pow_succ, Nat.mul_mod_left, Nat.sub_zero]

/-- The shifts of the constructor are defined: `1 << v` is one of an `int`. -/
def Defined (s : MutualStore) : Prop :=
  s.objpermutbts < 64 ∧ s.mutrowsbts < 31 ∧ s.mutcolsbts < 31

/-- The mutexes of two 64-bit indices are the same iff their ranges are congruent modulo the
    number of mutexes, the row of an index is allocated by `safeAt`, and no mutex is visited
    twice. -/
structure Spreads (s : MutualStore) : Prop where
  defined : s.Defined
  inside : ∀ i < 2 ^ 64, (s.atIndex i).1 < bitsToCount s.mutrowsbts ∧
    (s.atIndex i).2 < bitsToCount s.mutcolsbts
  same_iff : ∀ i < 2 ^ 64, ∀ j < 2 ^ 64, s.atIndex i = s.atIndex j ↔
    (i >>> s.objpermutbts) % (bitsToCount s.mutrowsbts * bitsToCount s.mutcolsbts) =
      (j >>> s.objpermutbts) % (bitsToCount s.mutrowsbts * bitsToCount s.mutcolsbts)
  safeAt : ∀ i < 2 ^ 64, (s.safeAt i).allocated ((s.safeAt i).atIndex i)
  visit : ∀ upto < 2 ^ 64, (s.visit upto).Nodup

/-- There are rows and columns, and as many of the ones as of the others, or so few ranges that
    the bits of row and column are all that a range has. -/
structure Fits (s : MutualStore) : Prop where
  defined : s.Defined
  rows : 0 < s.mutrowsbts
  cols : 0 < s.mutcolsbts
  square : s.mutrowsbts = s.mutcolsbts ∨ 64 - s.objpermutbts ≤ s.mutcolsbts ∨
    s.mutrowsbts ≤ s.mutcolsbts ∧ 64 - s.objpermutbts ≤ 2 * s.mutrowsbts

variable {a b : ℕ}

theorem mod_two_pow_eq_iff {k : ℕ} :
    a % 2 ^ k = b % 2 ^ k ↔ ∀ i < k, a.testBit i = b.testBit i := by
  constructor
  · intro h i hi
    have hbit := congrArg (Nat.testBit · i) h
    simpa [Nat.testBit_mod_two_pow, hi] using hbit
  · intro h
    refine Nat.eq_of_testBit_eq fun i => ?_
    rw [Nat.testBit_mod_two_pow, Nat.testBit_mod_two_pow]
    by_cases hi : i < k <;> simp [hi, h]

theorem doGetObject_eq_iff : s.doGetObject a = s.doGetObject b ↔
    (∀ i < s.mutrowsbts, a.testBit (s.mutrowsbts + i) = b.testBit (s.mutrowsbts + i)) ∧
      ∀ i < s.mutcolsbts, a.testBit i = b.testBit i := by
  rw [doGetObject_eq, doGetObject_eq, Prod.mk.injEq, mod_two_pow_eq_iff, mod_two_pow_eq_iff]
  simp only [← Nat.shiftRight_eq_div_pow, Nat.testBit_shiftRight]

section
variable (h : s.Fits)
include h

theorem Fits.count : bitsToCount s.mutrowsbts * bitsToCount s.mutcolsbts =
    2 ^ (s.mutrowsbts + s.mutcolsbts) := by
  rw [bitsToCount_eq h.rows, bitsToCount_eq h.cols, Nat.pow_add]

/-- Only the bits below `w` may be set, and row and column have all of them. -/
theorem Fits.range_eq_iff (ha : a < 2 ^ (64 - s.objpermutbts))
    (hb : b < 2 ^ (64 - s.objpermutbts)) : s.doGetObject a = s.doGetObject b ↔
    a % 2 ^ (s.mutrowsbts + s.mutcolsbts) = b % 2 ^ (s.mutrowsbts + s.mutcolsbts) := by
  have hhigh : ∀ i, 64 - s.objpermutbts ≤ i → a.testBit i = b.testBit i := by
    intro i hi
    have hpow := Nat.pow_le_pow_right Nat.two_pos hi
    rw [Nat.testBit_lt_two_pow (ha.trans_le hpow), Nat.testBit_lt_two_pow (hb.trans_le hpow)]
  rw [doGetObject_eq_iff, mod_two_pow_eq_iff]
  have hsquare := h.square
  constructor
  · rintro ⟨hrow, hcol⟩ i hi
    by_cases hlow : i < s.mutcolsbts
    · exact hcol i hlow
    by_cases hset : i < 64 - s.objpermutbts
    · have hbit := hrow (i - s.mutrowsbts) (by omega)
      rwa [Nat.add_sub_cancel' (by omega)] at hbit
    · exact hhigh i (by omega)
  · intro hall
    refine ⟨fun i hi => ?_, fun i hi => hall i (by omega)⟩
    by_cases hset : s.mutrowsbts + i < s.mutrowsbts + s.mutcolsbts
    · exact hall _ hset
    · exact hhigh _ (by omega)

theorem Fits.range_lt {i : ℕ} (hi : i < 2 ^ 64) :
    i >>> s.objpermutbts < 2 ^ (64 - s.objpermutbts) := by
  rw [Nat.shiftRight_eq_div_pow]
  refine Nat.div_lt_of_lt_mul ?_
  rwa [← Nat.pow_add, Nat.add_sub_cancel' h.defined.1.le]

theorem Fits.spreads : s.Spreads := by
  refine ⟨h.defined, fun i _ => ?_, fun i hi j hj => ?_, fun i _ => ?_, fun upto hupto => ?_⟩
  · rw [atIndex, doGetObject_eq, bitsToCount_eq h.rows, bitsToCount_eq h.cols]
    exact ⟨Nat.mod_lt _ (Nat.two_pow_pos _), Nat.mod_lt _ (Nat.two_pow_pos _)⟩
  · rw [h.count]
    exact h.range_eq_iff (h.range_lt hi) (h.range_lt hj)
  · exact Function.update_self ..
  · refine List.Nodup.map_on (fun a ha b hb heq => ?_) List.nodup_range
    have hcnt := h.range_lt hupto
    rw [List.mem_range, h.count] at ha hb
    rw [h.range_eq_iff (by split_ifs at ha <;> omega) (by split_ifs at hb <;> omega),
      Nat.mod_eq_of_lt (by split_ifs at ha <;> omega),
      Nat.mod_eq_of_lt (by split_ifs at hb <;> omega)] at heq
    exact heq

end

/-- **The ranges are spread over the whole matrix exactly when it fits.** -/
theorem spreads_iff (s : MutualStore) : s.Spreads ↔ s.Fits := by
  refine ⟨fun h => ?_, fun h => h.spreads⟩
  have hpos : ∀ v, 0 < bitsToCount v → 0 < v := by
    intro v hv
    by_contra hzero
    obtain rfl : v = 0 := by omega
    exact absurd hv (by decide)
  obtain ⟨hrow, hcol⟩ := h.inside 0 (by simp)
  have hrows := hpos _ (Nat.zero_lt_of_lt hrow)
  have hcols := hpos _ (Nat.zero_lt_of_lt hcol)
  refine ⟨h.defined, hrows, hcols, ?_⟩
  by_contra hnot
  obtain ⟨hobj, -, -⟩ := h.defined
  -- a bit of the range that is neither in the row nor in the column
  obtain ⟨k, hk, hsum, hcol, hrow⟩ : ∃ k, k + s.objpermutbts < 64 ∧
      k < s.mutrowsbts + s.mutcolsbts ∧ s.mutcolsbts ≤ k ∧
      (k < s.mutrowsbts ∨ 2 * s.mutrowsbts ≤ k) := by
    by_cases hle : s.mutrowsbts ≤ s.mutcolsbts
    · exact ⟨max s.mutcolsbts (2 * s.mutrowsbts), by omega, by omega, by omega, by omega⟩
    · exact ⟨s.mutcolsbts, by omega, by omega, by omega, by omega⟩
  have hsame := h.same_iff (2 ^ (k + s.objpermutbts)) (Nat.pow_lt_pow_right (by simp) hk) 0
    (by simp)
  have hrange : 2 ^ (k + s.objpermutbts) >>> s.objpermutbts = 2 ^ k := by
    rw [Nat.shiftRight_eq_div_pow, Nat.pow_add, Nat.mul_div_cancel _ (Nat.two_pow_pos _)]
  rw [atIndex, atIndex, hrange, Nat.zero_shiftRight, doGetObject_eq_iff, bitsToCount_eq hrows,
    bitsToCount_eq hcols, ← Nat.pow_add, Nat.zero_mod,
    Nat.mod_eq_of_lt (Nat.pow_lt_pow_right (by simp) hsum)] at hsame
  refine (Nat.two_pow_pos k).ne' (hsame.1 ⟨fun i hi => ?_, fun i hi => ?_⟩)
  · rw [Nat.testBit_two_pow_of_ne (by omega), Nat.zero_testBit]
  · rw [Nat.testBit_two_pow_of_ne (by omega), Nat.zero_testBit]

/-- With four rows of two mutexes the ranges 0 and 2 have the same mutex. -/
theorem ranges_collide :
    let s : MutualStore := { objpermutbts := 6, mutrowsbts := 2, mutcolsbts := 1 }
    s.atIndex 0 = s.atIndex 128 ∧ ¬ (s.visit 512).Nodup := by
  decide

end MutualStore

/-! ## The store -/

namespace Shared

variable {F : Type}

/-- The store of `SharedStore`, with `mtxstore`. -/
structure MutexStore (F : Type) where
  store : Store F := {}
  mtxstore : MutualStore := {}

namespace MutexStore

/-- `doAllocateIndex`, with the index it returns.  `lock_all` and `unlock_all` visit
    the same mutexes; there is no result if one of them is in a row that is not
    allocated. -/
def doAllocateIndex (s : MutexStore F) : Option (ℕ × MutexStore F) :=
  let objcnt := s.store.objmaxcnt
  match s.store.cacheobjidxstk with
  | _ :: _ => some (s.store.nextIndex, { s with store := s.store.doAllocateIndex })
  | [] =>
    if (s.mtxstore.visit objcnt).all s.mtxstore.allocated then
      some (s.store.nextIndex,
        { store := s.store.doAllocateIndex, mtxstore := s.mtxstore.safeAt objcnt })
    else none

/-- Any number of allocations, with indices put back to the cache in any order. -/
inductive Reachable : MutexStore F → Prop where
  | new : Reachable {}
  | allocate {s s' : MutexStore F} {i} :
      Reachable s →
      s.doAllocateIndex = some (i, s') →
      Reachable s'
  | cache {s : MutexStore F} (h : Reachable s) (i : ℕ) :
      Reachable { s with store := s.store.doCacheObjectIndex i }

/-- There are no indices and no mutexes, or one batch of indices and the first row. -/
structure FirstRow (s : MutexStore F) : Prop where
  permut : s.mtxstore.objpermutbts = 6
  rows : s.mtxstore.mutrowsbts = 3
  cols : s.mtxstore.mutcolsbts = 3
  batch : (s.store.objmaxcnt = 0 ∧ ∀ row, s.mtxstore.objmat row = false) ∨
    s.store.objmaxcnt = 1024 ∧ ∀ row, s.mtxstore.objmat row = decide (row = 0)

namespace FirstRow

variable {s s' : MutexStore F}

theorem atIndex_eq (h : s.FirstRow) (i : ℕ) :
    s.mtxstore.atIndex i = (i / 64 / 8 % 8, i / 64 % 8) := by
  rw [MutualStore.atIndex, MutualStore.doGetObject_eq, h.permut, h.rows, h.cols,
    Nat.shiftRight_eq_div_pow]
  rfl

theorem fits (h : s.FirstRow) : s.mtxstore.Fits := by
  constructor <;> simp [MutualStore.Defined, h.permut, h.rows, h.cols]

theorem objmaxcnt_lt (h : s.FirstRow) : s.store.objmaxcnt < 2 ^ 64 := by
  have hbatch := h.batch
  omega

theorem visit_zero (s : MutualStore) : s.visit 0 = [] := by
  simp [MutualStore.visit]

theorem second_row_visited (h : s.FirstRow) : (1, 0) ∈ s.mtxstore.visit 1024 := by
  have hsixteen : 1024 >>> s.mtxstore.objpermutbts = 16 := by
    rw [h.permut]
    rfl
  have hall : MutualStore.bitsToCount s.mtxstore.mutrowsbts *
      MutualStore.bitsToCount s.mtxstore.mutcolsbts = 64 := by
    rw [h.rows, h.cols]
    rfl
  have height : s.mtxstore.doGetObject 8 = (1, 0) := by
    rw [MutualStore.doGetObject_eq, h.rows, h.cols]
    rfl
  rw [MutualStore.visit, hsixteen, hall, List.mem_map]
  exact ⟨8, by simp, height⟩

theorem allocate (h : s.FirstRow) {i : ℕ} (halloc : s.doAllocateIndex = some (i, s')) :
    s'.FirstRow := by
  unfold doAllocateIndex at halloc
  cases hstk : s.store.cacheobjidxstk with
  | cons top stk =>
    rw [hstk] at halloc
    obtain ⟨rfl, rfl⟩ := Prod.mk.inj (Option.some.inj halloc)
    have hcnt : s.store.doAllocateIndex.objmaxcnt = s.store.objmaxcnt := by
      rw [Store.doAllocateIndex, hstk]
    exact ⟨h.permut, h.rows, h.cols, by rw [hcnt]; exact h.batch⟩
  | nil =>
    rw [hstk] at halloc
    dsimp only at halloc
    split_ifs at halloc with hall
    obtain ⟨rfl, rfl⟩ := Prod.mk.inj (Option.some.inj halloc)
    have hcnt : s.store.doAllocateIndex.objmaxcnt = s.store.objmaxcnt + 1024 := by
      rw [Store.doAllocateIndex, hstk]
    refine ⟨h.permut, h.rows, h.cols, .inr ?_⟩
    rcases h.batch with ⟨hzero, hnone⟩ | ⟨hbatch, hrows⟩
    · refine ⟨by rw [hcnt, hzero], fun row => ?_⟩
      have hrow : s.mtxstore.getObjectRow s.store.objmaxcnt = 0 := by
        rw [← MutualStore.atIndex_fst, h.atIndex_eq, hzero]
      show Function.update s.mtxstore.objmat
        (s.mtxstore.getObjectRow s.store.objmaxcnt) true row = _
      rw [hrow, Function.update_apply, hnone]
      split_ifs with hr <;> simp [hr]
    · -- the second batch cannot be made
      rw [hbatch, List.all_eq_true] at hall
      have hsecond := hall (1, 0) h.second_row_visited
      rw [MutualStore.allocated, hrows] at hsecond
      cases hsecond

end FirstRow

theorem Reachable.firstRow {s : MutexStore F} (h : Reachable s) : s.FirstRow := by
  induction h with
  | new => exact ⟨rfl, rfl, rfl, .inl ⟨rfl, fun _ => rfl⟩⟩
  | allocate _ halloc ih => exact ih.allocate halloc
  | cache _ i ih => exact ⟨ih.permut, ih.rows, ih.cols, ih.batch⟩

/-- **The mutexes of the indices.**  In every store that allocations reach: the mutex
    of an index has been allocated exactly if the index is less than 512; all mutexes
    that `lock_all` and `unlock_all` visit have been exactly if there is no index yet;
    and they visit none twice. -/
theorem mutex_iff {s : MutexStore F} (h : Reachable s) : (∀ idx < s.store.objmaxcnt,
      (s.mtxstore.allocated (s.mtxstore.atIndex idx) = true ↔ idx < 512)) ∧
    ((∀ p ∈ s.mtxstore.visit s.store.objmaxcnt, s.mtxstore.allocated p = true) ↔
      s.store.objmaxcnt = 0) ∧
    (s.mtxstore.visit s.store.objmaxcnt).Nodup := by
  have hrow := h.firstRow
  refine ⟨fun idx hidx => ?_, ?_, hrow.fits.spreads.visit _ hrow.objmaxcnt_lt⟩
  · rcases hrow.batch with ⟨hzero, -⟩ | ⟨hbatch, hrows⟩
    · omega
    · rw [MutualStore.allocated, hrow.atIndex_eq, hrows, decide_eq_true_iff]
      omega
  · rcases hrow.batch with ⟨hzero, -⟩ | ⟨hbatch, hrows⟩
    · simp [hzero, FirstRow.visit_zero]
    · rw [hbatch]
      refine iff_of_false (fun hall => ?_) (by decide)
      have hsecond := hall (1, 0) hrow.second_row_visited
      rw [MutualStore.allocated, hrows] at hsecond
      cases hsecond

/-- The mutexes of the first row, after the first allocation. -/
theorem mutex_iff_first : ∃ s : MutexStore ℕ, s.store.objmaxcnt = 1024 ∧
      s.mtxstore.allocated (s.mtxstore.atIndex 511) = true := by
  have hreach : Reachable (F := ℕ) _ := Reachable.new.allocate rfl
  exact ⟨_, rfl, ((mutex_iff hreach).1 511 (by decide)).2 (by decide)⟩

/-- The index 512 is handed out after 512 more, and its mutex is in a row that is not
    there; nor can a second batch be made. -/
theorem mutex_missing : ∃ s : MutexStore ℕ, Reachable s ∧ 512 < s.store.objmaxcnt ∧
      s.mtxstore.allocated (s.mtxstore.atIndex 512) = false ∧
      (s.mtxstore.visit s.store.objmaxcnt).all s.mtxstore.allocated = false :=
  ⟨_, Reachable.new.allocate rfl, by decide, by decide, by decide⟩

end MutexStore

end Shared

end SolidFrame
