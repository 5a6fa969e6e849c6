/-
  SolidFrame formalization — registrations that fail
  (`solid/serialization/typeidmap.hpp`, `src/typeidmap.cpp`).

  `TypeIdMap<…, Data>` keeps a datum for each registered type.  A registration asks for an
  index of its protocol, or with index 0 for the next one that is free.
-/
import SolidFrame.Serialization.TypeIdMap

namespace SolidFrame

open List Nat Option

/-! ## Joining and splitting ids -/

def splitTypeId (typeId : ℕ) : ℕ × ℕ :=
  let mask := [0xff, 0xffff, 0xffffff, 0xffffffff]
  let protoByteCount := typeId &&& 3
  ((typeId &&& mask.getD protoByteCount 0) >>> 2, typeId >>> ((protoByteCount + 1) * 8))

/-- The bytes that a type id takes for a protocol id, with the two bits for their number. -/
def protoByteCount (protocolId : ℕ) : ℕ := (Nat.size protocolId + 2 + 7) / 8

theorem joinTypeId_eq_some_iff {p m id : ℕ} (hp : p < 2 ^ 32) :
    joinTypeId p m = some id ↔ Nat.size p ≤ 30 ∧ protoByteCount p + maxPaddedByteCout .w64 m ≤ 8 ∧
      id = ((protoByteCount p - 1) &&& 3) ||| (p <<< 2) ||| (m <<< (protoByteCount p * 8)) := by
  have hbytes : fastPaddedSize (Nat.size p + 2) 3 >>> 3 = protoByteCount p := by
    simp only [fastPaddedSize, protoByteCount, shiftLeft_eq, shiftRight_eq_div_pow]
    omega
  simp only [joinTypeId, maxBitCount_eq (w := .w32) hp, hbytes]
  split_ifs with hbits hlen
  · simp [not_le.2 hbits]
  · simp [not_le.2 hlen]
  · simp [not_lt.1 hbits, not_lt.1 hlen, eq_comm]

theorem splitTypeId_eq (id : ℕ) :
    splitTypeId id = (id % 2 ^ ((id % 4 + 1) * 8) / 4, id / 2 ^ ((id % 4 + 1) * 8)) := by
  have hand : ∀ k, id &&& (2 ^ k - 1) = id % 2 ^ k := and_two_pow_sub_one_eq_mod id
  have hmask : ∀ n < 4, [0xff, 0xffff, 0xffffff, 0xffffffff].getD n 0 = 2 ^ ((n + 1) * 8) - 1 := by
    decide
  have hlow : id &&& 3 = id % 4 := hand 2
  simp only [splitTypeId, hlow, hmask _ (mod_lt id (by omega)), hand,
    shiftRight_eq_div_pow, Nat.reducePow]

/-- The three parts of a type id do not overlap. -/
theorem joinTypeId_eq_add {p m id : ℕ} (hp : p < 2 ^ 32) (h : joinTypeId p m = some id) :
    ∃ n < 4, protoByteCount p = n + 1 ∧ p * 4 + n < 2 ^ ((n + 1) * 8) ∧
      id = m * 2 ^ ((n + 1) * 8) + (p * 4 + n) := by
  obtain ⟨hsize, -, rfl⟩ := (joinTypeId_eq_some_iff hp).1 h
  obtain ⟨n, hn⟩ : ∃ n, protoByteCount p = n + 1 := exists_eq_succ_of_ne_zero (by
    unfold protoByteCount
    omega)
  have hn4 : n < 4 ∧ Nat.size p + 2 ≤ (n + 1) * 8 := by
    unfold protoByteCount at hn
    omega
  have hlt : p * 2 ^ 2 + n < 2 ^ ((n + 1) * 8) := by
    have hpow : p * 2 ^ 2 + 2 ^ 2 ≤ 2 ^ (Nat.size p + 2) := by
      rw [pow_add, ← succ_mul]
      exact mul_le_mul_right _ (lt_size_self p)
    have hle := Nat.pow_le_pow_right (n := 2) (by omega) hn4.2
    omega
  have hand : n &&& 3 = n := (and_two_pow_sub_one_eq_mod n 2).trans (mod_eq_of_lt hn4.1)
  refine ⟨n, hn4.1, hn, hlt, ?_⟩
  rw [hn, Nat.add_sub_cancel, hand, Nat.or_comm n, ← Nat.shiftLeft_add_eq_or_of_lt hn4.1,
    Nat.shiftLeft_eq, Nat.or_comm, ← Nat.shiftLeft_add_eq_or_of_lt hlt, Nat.shiftLeft_eq]
  rfl

/-- **Splitting a type id gives the ids back that it was joined from.** -/
theorem splitTypeId_join {p m id : ℕ} (hp : p < 2 ^ 32) (h : joinTypeId p m = some id) :
    splitTypeId id = (p, m) := by
  obtain ⟨n, hn, -, hlt, rfl⟩ := joinTypeId_eq_add hp h
  have hfour : 2 ^ ((n + 1) * 8) = 4 * 2 ^ (n * 8 + 6) := by
    rw [show (n + 1) * 8 = 2 + (n * 8 + 6) by omega, Nat.pow_add]
  have hlow : (m * 2 ^ ((n + 1) * 8) + (p * 4 + n)) % 4 = n := by
    rw [hfour, ← Nat.mul_assoc, Nat.mul_comm m 4, Nat.mul_assoc]
    omega
  rw [splitTypeId_eq, hlow, Nat.mul_comm m, Nat.mul_add_mod, Nat.mul_add_div (Nat.two_pow_pos _),
    Nat.mod_eq_of_lt hlt, Nat.div_eq_of_lt hlt]
  ext
  · simp only
    omega
  · rfl

theorem joinTypeId_lt {p m id : ℕ} (hp : p < 2 ^ 32) (hm : m < 2 ^ 64)
    (h : joinTypeId p m = some id) : id < 2 ^ 64 := by
  have hlen := ((joinTypeId_eq_some_iff hp).1 h).2.1
  obtain ⟨n, -, hn, hlt, rfl⟩ := joinTypeId_eq_add hp h
  have hmsg : m < 2 ^ (8 * maxPaddedByteCout .w64 m) := by
    rw [pow_mul]
    exact lt_pow_maxPaddedByteCout (w := .w64) hm
  have hmul := mul_le_mul_right (2 ^ ((n + 1) * 8)) hmsg
  rw [succ_mul, ← pow_add] at hmul
  have hle : 2 ^ (8 * maxPaddedByteCout .w64 m + (n + 1) * 8) ≤ 2 ^ 64 :=
    Nat.pow_le_pow_right (by omega) (by omega)
  omega

/-- **Type ids join and split.** -/
theorem joinTypeId_splits (p m : ℕ) (hp : p < 2 ^ 32) (hm : m < 2 ^ 64) : ((joinTypeId p m).isSome ↔
        Nat.size p ≤ 30 ∧ (Nat.size p + 2 + 7) / 8 + (Nat.size m + 7) / 8 ≤ 8) ∧
      (∀ id, joinTypeId p m = some id → id < 2 ^ 64 ∧ splitTypeId id = (p, m)) ∧
      (∀ p' m', p' < 2 ^ 32 → (p', m') ≠ (p, m) → (joinTypeId p m).isSome →
        joinTypeId p' m' ≠ joinTypeId p m) ∧
      (joinTypeId p m = some 0 ↔ p = 0 ∧ m = 0) := by
  refine ⟨?_, ?_, ?_, ?_⟩
  · rw [isSome_iff_exists]
    simp [joinTypeId_eq_some_iff hp, maxPaddedByteCout_eq (w := .w64) hm, protoByteCount,
      exists_and_left]
  · intro id h
    exact ⟨joinTypeId_lt hp hm h, splitTypeId_join hp h⟩
  · intro p' m' hp' hne hsome heq
    obtain ⟨id, h⟩ := isSome_iff_exists.1 hsome
    exact hne ((splitTypeId_join hp' (heq.trans h)).symm.trans (splitTypeId_join hp h))
  · constructor
    · intro h
      have h0 := splitTypeId_join hp h
      exact ⟨(congrArg Prod.fst h0).symm, (congrArg Prod.snd h0).symm⟩
    · rintro ⟨rfl, rfl⟩
      decide +kernel

theorem joinTypeId_splits_proto :
    (joinTypeId 64 5).isSome ∧ ∀ id, joinTypeId 64 5 = some id → splitTypeId id = (64, 5) :=
  ⟨by decide +kernel, fun id h => ((joinTypeId_splits 64 5 (by decide) (by decide)).2.1 id h).2⟩

/-- **Message ids of one protocol have distinct type ids.** -/
theorem joinTypeId_injective {protocolId c c' id : ℕ} (hp : protocolId < 2 ^ 32)
    (h : joinTypeId protocolId c = some id) (h' : joinTypeId protocolId c' = some id) : c = c' :=
  congrArg Prod.snd ((splitTypeId_join hp h).symm.trans (splitTypeId_join hp h'))

/-! ## The next index -/

namespace TypeIdMap
variable (r : TypeIdMap)

def indexId (protocolId idx : ℕ) : Option ℕ := joinTypeId (protocolId % 2 ^ 32) idx

/-- The index can be encoded, and its id is registered. -/
def Taken (protocolId idx : ℕ) : Prop :=
  ∃ id ∈ indexId protocolId idx, (r.findTypeIndex id).isSome

def currentMessageIndex (protocolId : ℕ) : ℕ := (r.protomap.lookup protocolId).getD 0

/-- The next index of the protocol is the first one, from its counter on, that is not
    taken. -/
structure NextIndex (protocolId c : ℕ) : Prop where
  start : r.currentMessageIndex protocolId ≤ c
  passed : ∀ c', r.currentMessageIndex protocolId ≤ c' → c' < c → r.Taken protocolId c'
  free : ¬ r.Taken protocolId c

variable {r} {protocolId : ℕ}

theorem findTypeIndex_isSome_iff {id : ℕ} :
    (r.findTypeIndex id).isSome ↔ id ∈ r.msgidmap.map Prod.fst := by
  rw [findTypeIndex, List.lookup_isSome_iff]
  simp only [List.mem_map, beq_iff_eq]
  constructor
  · rintro ⟨p, hp, heq⟩
    exact ⟨p, hp, heq.symm⟩
  · rintro ⟨p, hp, heq⟩
    exact ⟨p, hp, heq.symm⟩

/-- Indices that are taken one after the other are not more than the registered ids. -/
theorem length_le_of_taken {c n : ℕ} (h : ∀ k < n, r.Taken protocolId (c + k)) :
    n ≤ r.msgidmap.length := by
  choose! f hid hfound using h
  have hinj : Set.InjOn f (Finset.range n) := by
    intro k hk k' hk' heq
    have hsame := joinTypeId_injective (Nat.mod_lt protocolId (Nat.two_pow_pos 32))
      (hid k (Finset.mem_range.1 hk)) (heq ▸ hid k' (Finset.mem_range.1 hk'))
    omega
  have hsub : (Finset.range n).image f ⊆ (r.msgidmap.map Prod.fst).toFinset := by
    intro id hmem
    obtain ⟨k, hk, rfl⟩ := Finset.mem_image.1 hmem
    exact mem_toFinset.2 (findTypeIndex_isSome_iff.1 (hfound k (Finset.mem_range.1 hk)))
  calc n = ((Finset.range n).image f).card := by
        rw [Finset.card_image_of_injOn hinj, Finset.card_range]
    _ ≤ (r.msgidmap.map Prod.fst).toFinset.card := Finset.card_le_card hsub
    _ ≤ (r.msgidmap.map Prod.fst).length := toFinset_card_le _
    _ = r.msgidmap.length := length_map _

theorem exists_nextIndex (r : TypeIdMap) (protocolId : ℕ) : ∃ c, r.NextIndex protocolId c := by
  classical
  have hfree : ∃ k, ¬ r.Taken protocolId (r.currentMessageIndex protocolId + k) := by
    by_contra hall
    have hmany : r.msgidmap.length + 1 ≤ r.msgidmap.length :=
      length_le_of_taken fun k _ => not_not.1 fun hk => hall ⟨k, hk⟩
    omega
  refine ⟨_, Nat.le_add_right _ (Nat.find hfree), ?_, Nat.find_spec hfree⟩
  intro c' hle hlt
  have hmin := Nat.find_min hfree (m := c' - r.currentMessageIndex protocolId) (by omega)
  rw [Nat.add_sub_cancel' hle] at hmin
  exact not_not.1 hmin

theorem allocateLoop_eq {id : ℕ} : ∀ {fuel k c : ℕ} (junk : ℕ), k < fuel →
    (∀ k' < k, r.Taken protocolId (c + k')) → ¬ r.Taken protocolId (c + k) →
    indexId protocolId (c + k) = some id →
    r.allocateLoop protocolId fuel c junk = (id, c + k + 1) := by
  intro fuel
  induction fuel with
  | zero => exact fun _ hk => absurd hk (not_lt_zero _)
  | succ fuel ih =>
    intro k c junk hk htaken hfree hid
    rw [allocateLoop]
    cases k with
    | zero =>
      have hnot : ¬ (r.findTypeIndex id).isSome := fun hsome => hfree ⟨id, hid, hsome⟩
      rw [add_zero, indexId] at hid
      rw [hid]
      exact if_neg hnot
    | succ k =>
      obtain ⟨id', hid', hsome⟩ := htaken 0 (succ_pos k)
      rw [add_zero, indexId, mem_def] at hid'
      rw [hid']
      dsimp only
      rw [if_pos hsome]
      have hnext : c + (k + 1) = c + 1 + k := by omega
      rw [hnext] at hfree hid ⊢
      refine ih id' (by omega) ?_ hfree hid
      intro k' hk'
      rw [add_assoc, add_comm 1 k']
      exact htaken (k' + 1) (by omega)

/-- **`doAllocateNewIndex` gives the next index of the protocol**, if it can be encoded. -/
theorem doAllocateNewIndex_eq {c id junk : ℕ} (h : r.NextIndex protocolId c)
    (hid : indexId protocolId c = some id) :
    r.doAllocateNewIndex protocolId junk =
      (id, { r with protomap := (protocolId, c + 1) :: r.protomap }) := by
  obtain ⟨k, rfl⟩ := Nat.exists_eq_add_of_le h.start
  have htaken : ∀ k' < k, r.Taken protocolId (r.currentMessageIndex protocolId + k') :=
    fun k' hk' => h.passed _ (Nat.le_add_right _ _) (Nat.add_lt_add_left hk' _)
  have hloop := allocateLoop_eq junk (lt_succ_of_le (length_le_of_taken htaken)) htaken h.free hid
  rw [currentMessageIndex] at hloop
  simp only [doAllocateNewIndex, hloop, currentMessageIndex]

end TypeIdMap

/-! ## Registering -/

/-- `TypeIdMap<Ser, Des, Data>`. -/
structure TypeRegistry (Data : Type) extends TypeIdMap where
  datavec : List Data

namespace TypeRegistry
variable {Data : Type}

/-- The constructor; the first entry is a default value. -/
def new (d : Data) : TypeRegistry Data := { TypeIdMap.new with datavec := [d] }

variable (r : TypeRegistry Data)

/-- `registerType` and `registerTypeAlloc`, in all their forms; `none` is
    `InvalidIndex()`, and `junk` is what `doRegisterType` finds in its variable `id`. -/
def registerType (t : TypeIndex) (d : Data) (protocolId idx junk : ℕ) :
    Option ℕ × TypeRegistry Data :=
  match r.doRegisterType t protocolId idx junk with
  | none => (none, r)
  | some (i, base) => (some i, { base with datavec := r.datavec ++ [d] })

/-- The index that a registration asks for. -/
def Requested (protocolId idx c : ℕ) : Prop :=
  if idx = 0 then r.NextIndex protocolId c else c = idx

/-- The tables are those of `r`. -/
structure Unchanged (r' : TypeRegistry Data) : Prop where
  typemap : r'.typemap = r.typemap
  msgidmap : r'.msgidmap = r.msgidmap
  castmap : r'.castmap = r.castmap
  stubvec : r'.stubvec = r.stubvec
  datavec : r'.datavec = r.datavec

/-- A request for an index that cannot be encoded or is taken fails and changes nothing. -/
def Rejects (t : TypeIndex) (d : Data) (protocolId idx junk : ℕ) : Prop :=
  ∀ c, r.Requested protocolId idx c → TypeIdMap.indexId protocolId c = none ∨ r.Taken protocolId c →
    (r.registerType t d protocolId idx junk).1 = none ∧
      r.Unchanged (r.registerType t d protocolId idx junk).2

end TypeRegistry

namespace TypeIdMap
variable (r : TypeIdMap)

theorem addType_casts_isSome (t : TypeIndex) (id : ℕ) :
    (((r.addType t id).doRegisterCast t t).bind (·.doRegisterNullCast t)).isSome := by
  simp [doRegisterCast, doRegisterNullCast, addType, lookup_cons_self]

theorem doRegisterType_isSome_iff (t : TypeIndex) (protocolId idx junk : ℕ) :
    (r.doRegisterType t protocolId idx junk).isSome ↔ idx = 0 ∨ ¬ r.Taken protocolId idx := by
  have hfound : (r.doFindTypeIndex protocolId idx junk).1 ↔ r.Taken protocolId idx := by
    unfold doFindTypeIndex Taken indexId
    cases joinTypeId (protocolId % 2 ^ 32) idx with
    | none => simp
    | some id => simp
  unfold doRegisterType
  dsimp only
  split_ifs with hidx htaken
  · simp only [isSome_map, addType_casts_isSome, hidx, true_or]
  · simp [hidx, hfound.1 htaken]
  · simp only [isSome_map, addType_casts_isSome, hidx, false_or, true_iff]
    exact fun h => htaken (hfound.2 h)

end TypeIdMap

namespace TypeRegistry
variable {Data : Type} (r : TypeRegistry Data)

theorem registerType_of_taken {t : TypeIndex} {d : Data} {protocolId idx junk : ℕ} (hidx : idx ≠ 0)
    (h : r.Taken protocolId idx) : r.registerType t d protocolId idx junk = (none, r) := by
  have hnone : r.doRegisterType t protocolId idx junk = none := by
    rw [← not_isSome_iff_eq_none, TypeIdMap.doRegisterType_isSome_iff]
    simp [hidx, h]
  rw [registerType, hnone]

theorem registerType_isSome (t : TypeIndex) (d : Data) {protocolId idx : ℕ} (junk : ℕ)
    (h : idx = 0 ∨ ¬ r.Taken protocolId idx) :
    (r.registerType t d protocolId idx junk).1.isSome := by
  obtain ⟨⟨i, base⟩, hsome⟩ :=
    isSome_iff_exists.1 ((r.doRegisterType_isSome_iff t protocolId idx junk).2 h)
  rw [registerType, hsome]
  rfl

/-- **When failed registrations change nothing.**  A registration of an index, or of the
    next index, that cannot be encoded or is taken returns `InvalidIndex()` and leaves all
    tables as they were, exactly if the index can be encoded. -/
theorem registerType_rejects_iff (t : TypeIndex) (d : Data) (protocolId idx junk : ℕ) :
    r.Rejects t d protocolId idx junk ↔
      ∀ c, r.Requested protocolId idx c → (TypeIdMap.indexId protocolId c).isSome := by
  constructor
  · intro h c hc
    by_contra hnone
    rw [not_isSome_iff_eq_none] at hnone
    have hgiven : idx = 0 ∨ ¬ r.Taken protocolId idx := by
      rcases eq_or_ne idx 0 with h0 | hne
      · exact .inl h0
      · rw [Requested, if_neg hne] at hc
        subst hc
        refine .inr ?_
        rintro ⟨id, hid, -⟩
        rw [hnone] at hid
        cases hid
    have hsome := r.registerType_isSome t d junk hgiven
    rw [(h c hc (.inl hnone)).1] at hsome
    cases hsome
  · intro h c hc hfail
    have htaken : r.Taken protocolId c := by
      refine hfail.resolve_left ?_
      intro hnone
      have hsome := h c hc
      rw [hnone] at hsome
      cases hsome
    rcases eq_or_ne idx 0 with h0 | hne
    · rw [Requested, if_pos h0] at hc
      exact absurd htaken hc.free
    · rw [Requested, if_neg hne] at hc
      subst hc
      rw [r.registerType_of_taken hne htaken]
      exact ⟨rfl, ⟨rfl, rfl, rfl, rfl, rfl⟩⟩

/-- Protocol id `2 ^ 30` cannot be encoded; the type is registered under whatever the
    variable for the id holds. -/
theorem registerType_unencodable : TypeIdMap.indexId (2 ^ 30) 1 = none ∧
      ((new ()).registerType 0 () (2 ^ 30) 1 77).1 = some 1 ∧
      ((new ()).registerType 0 () (2 ^ 30) 1 77).2.msgidmap = [(77, 1), (0, 0)] ∧
      ((new ()).registerType 0 () (2 ^ 30) 1 77).2.datavec = [(), ()] ∧
      ¬ (new ()).Rejects 0 () (2 ^ 30) 1 77 := by
  have hnone : TypeIdMap.indexId (2 ^ 30) 1 = none := by decide +kernel
  refine ⟨hnone, by decide +kernel, by decide +kernel, by decide +kernel, ?_⟩
  intro h
  have hres := (h 1 rfl (.inl hnone)).1
  revert hres
  decide +kernel

end TypeRegistry

/-! ## What registrations keep -/

namespace TypeIdMap
variable {r : TypeIdMap} {protocolId : ℕ}

/-- The loop of `doAllocateNewIndex` ends: from the message index, with an id in the
    variable for the result, with the id and the message index that it leaves. -/
inductive AllocateEnds (r : TypeIdMap) (protocolId : ℕ) : ℕ → ℕ → ℕ → ℕ → Prop
  | fails {c id} : indexId protocolId c = none → AllocateEnds r protocolId c id id c
  | finds {c id id'} : indexId protocolId c = some id' → r.findTypeIndex id' = none →
      AllocateEnds r protocolId c id id' (c + 1)
  | passes {c id id' res c'} : indexId protocolId c = some id' → (r.findTypeIndex id').isSome →
      AllocateEnds r protocolId (c + 1) id' res c' → AllocateEnds r protocolId c id res c'

theorem allocateLoop_ends : ∀ {fuel k c : ℕ} (junk : ℕ), k < fuel →
    (∀ k' < k, r.Taken protocolId (c + k')) → ¬ r.Taken protocolId (c + k) →
    AllocateEnds r protocolId c junk (r.allocateLoop protocolId fuel c junk).1
      (r.allocateLoop protocolId fuel c junk).2 := by
  intro fuel
  induction fuel with
  | zero => exact fun _ hk => absurd hk (not_lt_zero _)
  | succ fuel ih =>
    intro k c junk hk htaken hfree
    rw [allocateLoop]
    cases hid : joinTypeId (protocolId % 2 ^ 32) c with
    | none => exact .fails hid
    | some id' =>
      dsimp only
      split_ifs with hsome
      · cases k with
        | zero => exact absurd ⟨id', hid, hsome⟩ hfree
        | succ k =>
          have hnext : ∀ k', c + (k' + 1) = c + 1 + k' := fun k' => by omega
          refine .passes hid hsome (ih id' (lt_of_succ_lt_succ hk) ?_ (hnext k ▸ hfree))
          intro k' hk'
          exact hnext k' ▸ htaken (k' + 1) (by omega)
      · exact .finds hid (by simpa using hsome)

/-- **Allocating an index terminates.** -/
theorem doAllocateNewIndex_ends (r : TypeIdMap) (protocolId junk : ℕ) :
    AllocateEnds r protocolId (r.currentMessageIndex protocolId) junk
      (r.doAllocateNewIndex protocolId junk).1
      ((r.doAllocateNewIndex protocolId junk).2.currentMessageIndex protocolId) := by
  obtain ⟨c, h⟩ := exists_nextIndex r protocolId
  obtain ⟨k, rfl⟩ := Nat.exists_eq_add_of_le h.start
  have htaken : ∀ k' < k, r.Taken protocolId (r.currentMessageIndex protocolId + k') :=
    fun k' hk' => h.passed _ (Nat.le_add_right _ _) (Nat.add_lt_add_left hk' _)
  have hends := allocateLoop_ends junk (lt_succ_of_le (length_le_of_taken htaken)) htaken h.free
  simpa only [doAllocateNewIndex, currentMessageIndex, lookup_cons_self, getD_some] using hends

end TypeIdMap

namespace TypeRegistry
variable {Data : Type} {r r' : TypeRegistry Data} {t : TypeIndex} {d : Data}
  {protocolId idx c id junk : ℕ}

def ids (r : TypeRegistry Data) : List ℕ := r.stubvec.map TypeStub.id

/-- `r'` is `r` with a type that is registered under the id. -/
structure Adds (r r' : TypeRegistry Data) (id : ℕ) : Prop where
  ids : r'.ids = r.ids ++ [id]
  msgidmap : r'.msgidmap = (id, r.stubvec.length) :: r.msgidmap
  datavec : r'.datavec.length = r.datavec.length + 1

theorem addType_adds {base base' : TypeIdMap} {ds : List Data}
    (h : ((base.addType t id).doRegisterCast t t).bind (·.doRegisterNullCast t) = some base')
    (hs : base.stubvec = r.stubvec) (hm : base.msgidmap = r.msgidmap)
    (hd : ds.length = r.datavec.length + 1) :
    r.Adds { base' with datavec := ds } id := by
  simp only [TypeIdMap.doRegisterCast, TypeIdMap.doRegisterNullCast, TypeIdMap.addType,
    lookup_cons_self, map_some, bind_some, some.injEq] at h
  subst h
  exact ⟨by simp [ids, hs], by rw [hs, hm], hd⟩

/-- A free index that can be encoded is registered under its id. -/
theorem registerType_adds (hc : r.Requested protocolId idx c) (hfree : ¬ r.Taken protocolId c)
    (hid : TypeIdMap.indexId protocolId c = some id) :
    r.Adds (r.registerType t d protocolId idx junk).2 id := by
  have hlen : (r.datavec ++ [d]).length = r.datavec.length + 1 := by simp
  unfold registerType TypeIdMap.doRegisterType
  rcases eq_or_ne idx 0 with h0 | hne
  · rw [Requested, if_pos h0] at hc
    simp only [h0, if_true, TypeIdMap.doAllocateNewIndex_eq hc hid]
    obtain ⟨base, hbase⟩ := isSome_iff_exists.1 (TypeIdMap.addType_casts_isSome
      { r.toTypeIdMap with protomap := (protocolId, c + 1) :: r.protomap } t id)
    rw [hbase]
    exact addType_adds hbase rfl rfl hlen
  · rw [Requested, if_neg hne] at hc
    subst hc
    have hnot : ¬ (r.findTypeIndex id).isSome := fun hsome => hfree ⟨id, hid, hsome⟩
    rw [TypeIdMap.indexId] at hid
    obtain ⟨base, hbase⟩ := isSome_iff_exists.1 (r.addType_casts_isSome t id)
    simp only [if_neg hne, TypeIdMap.doFindTypeIndex, hid, if_neg hnot, hbase, map_some]
    exact addType_adds hbase rfl rfl hlen

/-- The ids are distinct, 0 is the id of the first stub only, `msgidmap` leads from each id
    to its stub, and there is a datum for each stub. -/
structure Indexed (r : TypeRegistry Data) : Prop where
  nodup : r.ids.Nodup
  null : ∀ i, r.ids[i]? = some 0 ↔ i = 0
  find : ∀ id i, r.findTypeIndex id = some i ↔ r.ids[i]? = some id
  data : r.datavec.length = r.stubvec.length

theorem Indexed.findTypeIndex_eq_none (h : r.Indexed) : r.findTypeIndex id = none ↔ id ∉ r.ids := by
  rw [eq_none_iff_forall_ne_some, mem_iff_getElem?, not_exists]
  simp [h.find]

theorem indexed_new (d : Data) : (new d).Indexed where
  nodup := nodup_singleton 0
  null i := by cases i <;> simp [ids, new, TypeIdMap.new]
  find id i := by
    have hlookup : (new d).findTypeIndex id = if id = 0 then some 0 else none := by
      simp [new, TypeIdMap.new, TypeIdMap.findTypeIndex]
    rw [hlookup]
    cases i <;> simp [ids, new, TypeIdMap.new, eq_comm]
  data := rfl

theorem Indexed.adds (h : r.Indexed) (hnew : id ∉ r.ids) (hadd : r.Adds r' id) : r'.Indexed := by
  have hlen : r.ids.length = r.stubvec.length := length_map _
  have hid : id ≠ 0 := by
    rintro rfl
    exact hnew (mem_of_getElem? ((h.null 0).2 rfl))
  have hids : ∀ {i id'}, r'.ids[i]? = some id' ↔
      r.ids[i]? = some id' ∨ i = r.stubvec.length ∧ id' = id := by
    intro i id'
    rw [hadd.ids, ← hlen, getElem?_append]
    split_ifs with hlt
    · simp [hlt.ne]
    · have hend : i - r.ids.length = 0 ↔ i = r.ids.length := by omega
      simp [getElem?_eq_none (not_lt.1 hlt), getElem?_singleton, hend, eq_comm (a := id')]
  refine ⟨?_, fun i => ?_, fun id' i => ?_, ?_⟩
  · rw [hadd.ids, nodup_append]
    exact ⟨h.nodup, nodup_singleton id, by simpa using fun a ha => ne_of_mem_of_not_mem ha hnew⟩
  · rw [hids, h.null]
    simp [hid.symm]
  · have hnone : r.msgidmap.lookup id = none := h.findTypeIndex_eq_none.2 hnew
    rw [hids, ← h.find, TypeIdMap.findTypeIndex, TypeIdMap.findTypeIndex, hadd.msgidmap]
    by_cases heq : id' = id
    · simp [heq, hnone, eq_comm]
    · simp [heq, lookup_cons, beq_false_of_ne heq]
  · have hlen' := congrArg List.length hadd.ids
    simp [ids] at hlen'
    rw [hadd.datavec, h.data, hlen']

/-- A registry after successful registrations of types under ids that can be encoded. -/
inductive Registered : TypeRegistry Data → Prop
  | new (d : Data) : Registered (new d)
  | register {r : TypeRegistry Data} (t : TypeIndex) (d : Data) {protocolId idx junk} : Registered r
      → (∀ c, r.Requested protocolId idx c → (TypeIdMap.indexId protocolId c).isSome) →
      (r.registerType t d protocolId idx junk).1.isSome → Registered (r.registerType t d protocolId
      idx junk).2

theorem exists_requested (r : TypeRegistry Data) (protocolId idx : ℕ) :
    ∃ c, r.Requested protocolId idx c := by
  unfold Requested
  split_ifs
  · exact TypeIdMap.exists_nextIndex r.toTypeIdMap protocolId
  · exact ⟨idx, rfl⟩

theorem Requested.free (hc : r.Requested protocolId idx c)
    (hok : (r.registerType t d protocolId idx junk).1.isSome) : ¬ r.Taken protocolId c := by
  rcases eq_or_ne idx 0 with h0 | hne
  · rw [Requested, if_pos h0] at hc
    exact hc.free
  · rw [Requested, if_neg hne] at hc
    subst hc
    intro htaken
    rw [r.registerType_of_taken hne htaken] at hok
    cases hok

theorem Indexed.not_mem_ids (h : r.Indexed) (hfree : ¬ r.Taken protocolId c)
    (hid : TypeIdMap.indexId protocolId c = some id) : id ∉ r.ids := by
  rw [← h.findTypeIndex_eq_none, ← not_isSome_iff_eq_none]
  exact fun hsome => hfree ⟨id, hid, hsome⟩

theorem Registered.indexed (h : Registered r) : r.Indexed := by
  induction h with
  | new d => exact indexed_new d
  | @register r t d protocolId idx junk h henc hok ih =>
    obtain ⟨c, hc⟩ := r.exists_requested protocolId idx
    obtain ⟨id, hid⟩ := isSome_iff_exists.1 (henc c hc)
    have hfree := hc.free hok
    exact ih.adds (ih.not_mem_ids hfree hid) (registerType_adds hc hfree hid)

/-- **The registry keeps its tables in step.** -/
theorem registered_keeps (h : Registered r) : r.Indexed ∧ ∀ t d protocolId junk,
      TypeIdMap.AllocateEnds r.toTypeIdMap protocolId (r.currentMessageIndex protocolId) junk
        (r.doAllocateNewIndex protocolId junk).1
        ((r.doAllocateNewIndex protocolId junk).2.currentMessageIndex protocolId) ∧
      ∀ c id, r.NextIndex protocolId c → TypeIdMap.indexId protocolId c = some id →
        id ∉ r.ids ∧ (r.registerType t d protocolId 0 junk).2.ids = r.ids ++ [id] := by
  refine ⟨h.indexed, ?_⟩
  intro t d protocolId junk
  refine ⟨r.doAllocateNewIndex_ends protocolId junk, ?_⟩
  intro c id hc hid
  have hreq : r.Requested protocolId 0 c := by rwa [Requested, if_pos rfl]
  exact ⟨h.indexed.not_mem_ids hc.free hid, (registerType_adds hreq hc.free hid).ids⟩

/-- Index 1 is taken explicitly, the next automatic one is 2. -/
theorem registered_keeps_skips : ((new ()).registerType 7 () 0 1 0).2.Indexed ∧
      (((new ()).registerType 7 () 0 1 0).2.registerType 8 () 0 0 0).2.ids = [0, 256, 512] := by
  refine ⟨(registered_keeps (.register 7 () (.new ()) ?_ (by decide +kernel))).1, by decide +kernel⟩
  rintro c rfl
  decide +kernel

end TypeRegistry

end SolidFrame
