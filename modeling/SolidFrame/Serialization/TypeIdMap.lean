/-
  SolidFrame formalization — the registry of types for pointers
  (`solid/serialization/typeidmap.hpp`, `src/typeidmap.cpp`).

  Types are registered under ids that are made of a protocol id and a message id
  (`joinTypeId`); casts are registered from a type to a base type.  A deserializer
  finds the stub of an id, and the cast from that stub to the type of the
  destination.
-/
import SolidFrame.Serialization.Deserializer

namespace SolidFrame

open List Option

/-! ## Type ids -/

def joinTypeId (protocolId messageId : ℕ) : Option ℕ :=
  let protoBitCount := maxBitCount .w32 protocolId
  if 30 < protoBitCount then none
  else
    let protoByteCount := fastPaddedSize (protoBitCount + 2) 3 >>> 3
    let msgidByteCount := maxPaddedByteCout .w64 messageId
    if 8 < protoByteCount + msgidByteCount then none
    else some (((protoByteCount - 1) &&& 3) ||| (protocolId <<< 2) |||
      (messageId <<< (protoByteCount * 8)))

/-! ## The registry -/

/-- A C++ type, as `std::type_index` identifies it. -/
abbrev TypeIndex := ℕ

inductive CastFn where
  /-- `cast_plain_pointer<Base, Derived>` -/
  | plain (base derived : TypeIndex)
  /-- `cast_shared_pointer<Base, Derived>` -/
  | shared (base derived : TypeIndex)
  /-- `cast_void_pointer<T>` -/
  | void (base : TypeIndex)
  deriving DecidableEq

/-- `CastStub`; `none` is a null function pointer. -/
structure CastStub where
  plainCast : Option CastFn := none
  sharedCast : Option CastFn := none
  deriving DecidableEq

/-- `Stub`: the type that its factories make, `none` for the stub of the null
    pointer. -/
structure TypeStub where
  type : Option TypeIndex
  id : ℕ
  deriving DecidableEq

/-- The maps are lists of entries, an assignment is put in front. -/
structure TypeIdMap where
  typemap : List (TypeIndex × ℕ)
  castmap : List ((TypeIndex × ℕ) × CastStub)
  stubvec : List TypeStub
  msgidmap : List (ℕ × ℕ)
  protomap : List (ℕ × ℕ)

namespace TypeIdMap

/-- The constructor registers the null pointer. -/
def new : TypeIdMap :=
  { typemap := [], castmap := [], stubvec := [⟨none, 0⟩], msgidmap := [(0, 0)], protomap := [] }

variable (r : TypeIdMap)

def findTypeIndex (id : ℕ) : Option ℕ := r.msgidmap.lookup id

/-- The loop of `doAllocateNewIndex`, from the message index `c` on, with `id` in the
    variable for the result: the id and the next message index. -/
def allocateLoop (protocolId : ℕ) : ℕ → ℕ → ℕ → ℕ × ℕ
  | 0, c, id => (id, c)
  | fuel + 1, c, id =>
    match joinTypeId (protocolId % 2 ^ 32) c with
    | none => (id, c)
    | some id' =>
      if (r.findTypeIndex id').isSome then allocateLoop protocolId fuel (c + 1) id'
      else (id', c + 1)

/-- `doAllocateNewIndex`; every id that is taken is passed at most once. -/
def doAllocateNewIndex (protocolId id : ℕ) : ℕ × TypeIdMap :=
  let res := r.allocateLoop protocolId (r.msgidmap.length + 1)
    ((r.protomap.lookup protocolId).getD 0) id
  (res.1, { r with protomap := (protocolId, res.2) :: r.protomap })

/-- `doFindTypeIndex`, with `id` in the variable for the id. -/
def doFindTypeIndex (protocolId idx id : ℕ) : Bool × ℕ :=
  match joinTypeId (protocolId % 2 ^ 32) idx with
  | some id' => ((r.findTypeIndex id').isSome, id')
  | none => (false, id)

/-- `doRegisterCast<Derived, Base>`; `none` when it throws. -/
def doRegisterCast (derived base : TypeIndex) : Option TypeIdMap :=
  (r.typemap.lookup derived).map fun idx => { r with
    castmap := ((base, 0), ⟨some (.void base), none⟩) ::
      ((derived, 0), ⟨some (.void derived), none⟩) ::
      ((base, idx), ⟨some (.plain base derived), some (.shared base derived)⟩) :: r.castmap }

def doRegisterNullCast (derived : TypeIndex) : Option TypeIdMap :=
  (r.typemap.lookup derived).map fun _ => { r with
    castmap := ((derived, 0), ⟨some (.void derived), none⟩) :: r.castmap }

def doRegisterDownCast (derived base : TypeIndex) : Option TypeIdMap :=
  (r.typemap.lookup base).bind fun idx =>
    if idx < r.stubvec.length then some { r with typemap := (derived, idx) :: r.typemap } else none

/-- The assignments of `doRegisterType<T>` once it has an id. -/
def addType (t : TypeIndex) (id : ℕ) : TypeIdMap :=
  { r with
    typemap := (t, r.stubvec.length) :: r.typemap
    msgidmap := (id, r.stubvec.length) :: r.msgidmap
    stubvec := r.stubvec ++ [⟨some t, id⟩] }

/-- `doRegisterType<T>`, and `doRegisterTypeAlloc<T>`, which differs in how the object
    is allocated; `junk` is what the variable `id` holds before it is assigned.
    `none` is `InvalidIndex()`. -/
def doRegisterType (t : TypeIndex) (protocolId idx junk : ℕ) : Option (ℕ × TypeIdMap) :=
  let go (id : ℕ) (r : TypeIdMap) : Option (ℕ × TypeIdMap) :=
    (((r.addType t id).doRegisterCast t t).bind (·.doRegisterNullCast t)).map
      fun r' => (r.stubvec.length, r')
  if idx = 0 then
    let a := r.doAllocateNewIndex protocolId junk
    go a.1 a.2
  else
    let f := r.doFindTypeIndex protocolId idx junk
    if f.1 then none else go f.2 r

end TypeIdMap

/-- A call that registers something. -/
inductive Registration where
  /-- `registerType`, `registerTypeAlloc` -/
  | type (t : TypeIndex) (protocolId idx junk : ℕ)
  /-- `registerCast<Derived, Base>` -/
  | cast (derived base : TypeIndex)
  /-- `registerDownCast<Derived, Base>` -/
  | downCast (derived base : TypeIndex)

/-- A registration that fails or throws changes nothing. -/
def TypeIdMap.register (r : TypeIdMap) : Registration → TypeIdMap
  | .type t protocolId idx junk => ((r.doRegisterType t protocolId idx junk).map Prod.snd).getD r
  | .cast derived base => (r.doRegisterCast derived base).getD r
  | .downCast derived base => (r.doRegisterDownCast derived base).getD r

def TypeIdMap.registered (ops : List Registration) : TypeIdMap :=
  ops.foldl TypeIdMap.register TypeIdMap.new

/-! ## Loading a pointer -/

/-- Call a cast function on a new object of the type `obj`, or on a null pointer, to
    set a pointer to `T`: `none` is no function, and a function that was made for
    other types, or for another kind of pointer, takes the object for what it is
    not. -/
def castPointer (shared : Bool) (T : TypeIndex) (obj : Option TypeIndex) :
    Option CastFn → PtrLoad TypeIndex
  | none => .undefined
  | some (.void base) =>
    if shared ∨ base ≠ T then .undefined
    else match obj with
      | none => .null
      | some t => if t = T then .object t else .undefined
  | some (.plain base derived) =>
    if shared ∨ base ≠ T then .undefined
    else match obj with
      | none => .null
      | some t => if t = derived then .object t else .undefined
  | some (.shared base derived) =>
    if ¬ shared ∨ base ≠ T then .undefined
    else match obj with
      | none => .null
      | some t => if t = derived then .object t else .undefined

namespace TypeIdMap
variable (r : TypeIdMap)

/-- `doLoadPlainPointer` and `doLoadSharedPointer` into a pointer to `T`. -/
def doLoadPointer (shared : Bool) (T : TypeIndex) (id : ℕ) : PtrLoad TypeIndex :=
  match r.findTypeIndex id with
  | none => .error .noCast
  | some stubindex =>
    match r.castmap.lookup (T, stubindex) with
    | none => .error .noCast
    | some c =>
      match r.stubvec[stubindex]? with
      | none => .undefined
      | some stub => castPointer shared T stub.type (if shared then c.sharedCast else c.plainCast)

def doLoadPlainPointer (T : TypeIndex) (id : ℕ) : PtrLoad TypeIndex := r.doLoadPointer false T id

def doLoadSharedPointer (T : TypeIndex) (id : ℕ) : PtrLoad TypeIndex := r.doLoadPointer true T id

/-- The registry as a deserializer uses it, when `calls` are the calls that the load
    functions of the types make. -/
def typeMap (calls : TypeIndex → Ty) : TypeMap := fun shared T id =>
  match if shared then r.doLoadSharedPointer T id else r.doLoadPlainPointer T id with
  | .undefined => .undefined
  | .error e => .error e
  | .null => .null
  | .object t => .object (calls t)

end TypeIdMap

/-! ## What registrations keep -/

/-- What holds of a registry: ids lead to stubs, and only id 0 can lead to the stub of
    the null pointer; casts of null pointers are plain, casts of objects are made for
    both kinds of pointers. -/
structure TypeIdMap.Wf (r : TypeIdMap) : Prop where
  null : r.stubvec[0]? = some ⟨none, 0⟩
  stub : ∀ i s, r.stubvec[i]? = some s → i ≠ 0 → s.type.isSome
  types : ∀ t i, r.typemap.lookup t = some i → i ≠ 0 ∧ i < r.stubvec.length
  ids : ∀ id i, r.msgidmap.lookup id = some i → i < r.stubvec.length ∧ (id ≠ 0 → i ≠ 0)
  nullCast : ∀ T c, r.castmap.lookup (T, 0) = some c → c = ⟨some (.void T), none⟩
  cast : ∀ T i c, r.castmap.lookup (T, i) = some c → i ≠ 0 →
    ∃ d, c = ⟨some (.plain T d), some (.shared T d)⟩

namespace TypeIdMap
variable {r r' : TypeIdMap}

theorem wf_new : new.Wf where
  null := rfl
  stub i s h hi := by
    obtain _ | i := i
    · exact absurd rfl hi
    · cases h
  types t i h := by cases h
  ids id i h := by
    simp only [new, lookup_cons] at h
    split at h
    · rename_i hid
      cases h
      exact ⟨Nat.one_pos, fun hne => absurd (by simpa using hid) hne⟩
    · cases h
  nullCast T c h := by cases h
  cast T i c h := by cases h

theorem lookup_cons_eq {α β : Type} [BEq α] [LawfulBEq α] {a b : α} {v w : β} {l : List (α × β)}
    (h : List.lookup a ((b, v) :: l) = some w) : a = b ∧ v = w ∨ l.lookup a = some w := by
  rw [lookup_cons] at h
  split at h
  · rename_i hab
    exact .inl ⟨by simpa using hab, Option.some.inj h⟩
  · exact .inr h

theorem Wf.doRegisterCast {derived base : TypeIndex} (h : r.Wf)
    (hr : r.doRegisterCast derived base = some r') : r'.Wf := by
  obtain ⟨idx, hidx, rfl⟩ := map_eq_some_iff.1 hr
  obtain ⟨hne, -⟩ := h.types _ _ hidx
  refine ⟨h.null, h.stub, h.types, h.ids, fun T c hc => ?_, fun T i c hc hi => ?_⟩
  · rcases lookup_cons_eq hc with ⟨heq, rfl⟩ | hc
    · cases heq
      rfl
    rcases lookup_cons_eq hc with ⟨heq, rfl⟩ | hc
    · cases heq
      rfl
    rcases lookup_cons_eq hc with ⟨heq, -⟩ | hc
    · cases heq
      exact absurd rfl hne
    · exact h.nullCast T c hc
  · rcases lookup_cons_eq hc with ⟨heq, -⟩ | hc
    · cases heq
      exact absurd rfl hi
    rcases lookup_cons_eq hc with ⟨heq, -⟩ | hc
    · cases heq
      exact absurd rfl hi
    rcases lookup_cons_eq hc with ⟨heq, rfl⟩ | hc
    · cases heq
      exact ⟨derived, rfl⟩
    · exact h.cast T i c hc hi

theorem Wf.doRegisterNullCast {derived : TypeIndex} (h : r.Wf)
    (hr : r.doRegisterNullCast derived = some r') : r'.Wf := by
  obtain ⟨idx, hidx, rfl⟩ := map_eq_some_iff.1 hr
  refine ⟨h.null, h.stub, h.types, h.ids, fun T c hc => ?_, fun T i c hc hi => ?_⟩
  · rcases lookup_cons_eq hc with ⟨heq, rfl⟩ | hc
    · cases heq
      rfl
    · exact h.nullCast T c hc
  · rcases lookup_cons_eq hc with ⟨heq, -⟩ | hc
    · cases heq
      exact absurd rfl hi
    · exact h.cast T i c hc hi

theorem Wf.doRegisterDownCast {derived base : TypeIndex} (h : r.Wf)
    (hr : r.doRegisterDownCast derived base = some r') : r'.Wf := by
  obtain ⟨idx, hidx, hr⟩ := bind_eq_some_iff.1 hr
  split_ifs at hr with hlt
  cases hr
  refine ⟨h.null, h.stub, fun t i hi => ?_, h.ids, h.nullCast, h.cast⟩
  rcases lookup_cons_eq hi with ⟨-, rfl⟩ | hi
  · exact h.types base idx hidx
  · exact h.types t i hi

theorem Wf.addType (h : r.Wf) (t : TypeIndex) (id : ℕ) : (r.addType t id).Wf := by
  have hpos : 0 < r.stubvec.length := by
    rcases List.getElem?_eq_some_iff.1 h.null with ⟨hlt, -⟩
    exact hlt
  refine ⟨?_, fun i s hi hne => ?_, fun t' i hi => ?_, fun id' i hi => ?_, h.nullCast, h.cast⟩
  · rw [TypeIdMap.addType, getElem?_append_left hpos]
    exact h.null
  · rw [TypeIdMap.addType, getElem?_append] at hi
    split_ifs at hi with hlt
    · exact h.stub i s hi hne
    · obtain rfl := mem_singleton.1 (mem_of_getElem? hi)
      rfl
  · simp only [TypeIdMap.addType, length_append, length_singleton]
    rcases lookup_cons_eq hi with ⟨-, rfl⟩ | hi
    · omega
    · have := h.types t' i hi
      omega
  · simp only [TypeIdMap.addType, length_append, length_singleton]
    rcases lookup_cons_eq hi with ⟨-, rfl⟩ | hi
    · omega
    · have := h.ids id' i hi
      omega

variable {protocolId : ℕ} {res : ℕ × TypeIdMap}

theorem doRegisterType_keeps {P : TypeIdMap → Prop} {t : TypeIndex} {idx junk : ℕ}
    (halloc : ∀ r, P r → P (r.doAllocateNewIndex protocolId junk).2)
    (hadd : ∀ r id, P r → P (r.addType t id))
    (hcast : ∀ r r', P r → r.doRegisterCast t t = some r' → P r')
    (hnull : ∀ r r', P r → r.doRegisterNullCast t = some r' → P r')
    (h : P r) (hr : r.doRegisterType t protocolId idx junk = some res) : P res.2 := by
  have hgo : ∀ (r0 : TypeIdMap) (id : ℕ), P r0 →
      (((r0.addType t id).doRegisterCast t t).bind (·.doRegisterNullCast t)).map
        (fun r' => (r0.stubvec.length, r')) = some res → P res.2 := by
    intro r0 id h0 hres
    obtain ⟨r2, hr2, rfl⟩ := map_eq_some_iff.1 hres
    obtain ⟨r1, hr1, hr2⟩ := bind_eq_some_iff.1 hr2
    exact hnull _ _ (hcast _ _ (hadd _ id h0) hr1) hr2
  unfold TypeIdMap.doRegisterType at hr
  simp only at hr
  split_ifs at hr with hidx hfound
  · exact hgo (r.doAllocateNewIndex protocolId junk).2 _ (halloc r h) hr
  · exact hgo r _ h hr

theorem Wf.doRegisterType {t : TypeIndex} {idx junk : ℕ}
    (h : r.Wf) (hr : r.doRegisterType t protocolId idx junk = some res) : res.2.Wf :=
  doRegisterType_keeps (fun _ h => ⟨h.null, h.stub, h.types, h.ids, h.nullCast, h.cast⟩)
    (fun _ id h => h.addType t id) (fun _ _ h hr => h.doRegisterCast hr)
    (fun _ _ h hr => h.doRegisterNullCast hr) h hr

/-- **Every registration keeps the registry well formed.** -/
theorem Wf.register (h : r.Wf) (op : Registration) : (r.register op).Wf := by
  cases op with
  | type t protocolId idx junk =>
    rw [TypeIdMap.register]
    cases hr : r.doRegisterType t protocolId idx junk with
    | none => exact h
    | some res => exact h.doRegisterType hr
  | cast derived base =>
    rw [TypeIdMap.register]
    cases hr : r.doRegisterCast derived base with
    | none => exact h
    | some r' => exact h.doRegisterCast hr
  | downCast derived base =>
    rw [TypeIdMap.register]
    cases hr : r.doRegisterDownCast derived base with
    | none => exact h
    | some r' => exact h.doRegisterDownCast hr

theorem wf_registered (ops : List Registration) : (registered ops).Wf := by
  have hfold : ∀ (ops : List Registration) (r : TypeIdMap), r.Wf →
      (ops.foldl TypeIdMap.register r).Wf := by
    intro ops
    induction ops with
    | nil => exact fun r h => h
    | cons op ops ih => exact fun r h => ih _ (h.register op)
  exact hfold ops new wf_new

end TypeIdMap

/-! ## Faithful pointers -/

namespace TypeIdMap
variable (r : TypeIdMap)

def typeOf (id : ℕ) : Option TypeIndex :=
  (r.findTypeIndex id).bind fun i => (r.stubvec[i]?).bind TypeStub.type

/-- The entry for casts to `T` from the stub of an id. -/
def castTo (T : TypeIndex) (id : ℕ) : Option CastStub :=
  (r.findTypeIndex id).bind fun i => r.castmap.lookup (T, i)

/-- `loadPlainPointer<T>` or `loadSharedPointer<T>` does what it is meant to: it
    returns an error and leaves the memory as it is, when the id is not 0 and it is
    not registered or has no cast to `T`; it sets a null pointer, when the id is 0; or
    it makes an object of the type that is registered under the id, and schedules it. -/
def LoadsFaithfully (calls : TypeIndex → Ty) (T : TypeIndex) (id : ℕ) (l : Loc)
    (fs : List DFrame) (avail : List Byte) (d : DeserializerBase) : Prop :=
  (∃ d', d.step (r.typeMap calls) false 0 avail = some (.failure, 0, d') ∧ d'.err.isSome ∧
    d'.mem = d.mem ∧ id ≠ 0 ∧ r.castTo T id = none) ∨
  (∃ d', d.step (r.typeMap calls) false 0 avail = some (.cont, 0, d') ∧ id = 0 ∧ d'.fstk = fs ∧
    d'.mem = d.mem.set l (.ptr none)) ∨
  (∃ t d', d.step (r.typeMap calls) false 0 avail = some (.cont, 0, d') ∧ id ≠ 0 ∧
    r.typeOf id = some t ∧ (r.castTo T id).isSome ∧ d'.fstk = .load (calls t) (l.sub 0) :: fs ∧
    d'.mem = d.mem.set l (.ptr (some (id, calls t, dflt (calls t)))))

/-- When that is so.  For id 0: the pointer is not shared, id 0 was not given to a type
    whose registration failed, and `T` is known.  For another id: the cast to `T`, if
    there is one, was registered from the type of the id, and not from one that
    `registerDownCast` made another name of it. -/
def Decodable (shared : Bool) (T : TypeIndex) (id : ℕ) : Prop :=
  (id = 0 → shared = false ∧ r.findTypeIndex 0 = some 0 ∧ (r.castTo T 0).isSome) ∧
  (id ≠ 0 → ∀ c t, r.castTo T id = some c → r.typeOf id = some t → c.plainCast = some (.plain T t))

end TypeIdMap

section Load
variable {r : TypeIdMap} {shared : Bool} {T id : ℕ} {calls : TypeIndex → Ty} {l : Loc}
  {fs : List DFrame} {es : List DExt} {g : Option ℕ} {avail : List Byte} {d : DeserializerBase}

theorem step_loadPointer (hf : d.fstk = .loadPointer shared T l :: fs)
    (he : d.estk = .val id g :: es) :
    d.step (r.typeMap calls) false 0 avail = match r.doLoadPointer shared T id with
      | .undefined => none
      | .error e => some (.failure, 0, { d with fstk := fs, err := some e })
      | .null => some (.cont, 0, { d with fstk := fs, mem := d.mem.set l (.ptr none), err := none })
      | .object t => some (.cont, 0, { d with
          mem := d.mem.set l (.ptr (some (id, calls t, dflt (calls t))))
          fstk := .load (calls t) (l.sub 0) :: fs
          err := none }) := by
  have hmap : r.typeMap calls shared T id = match r.doLoadPointer shared T id with
      | .undefined => .undefined
      | .error e => .error e
      | .null => .null
      | .object t => .object (calls t) := by cases shared <;> rfl
  simp only [DeserializerBase.step, hf, DeserializerBase.reads, Nat.lt_irrefl, false_and, if_false,
    Bool.false_eq_true, DeserializerBase.loadPointer, he, hmap]
  cases r.doLoadPointer shared T id <;> rfl

theorem doLoadPointer_zero (h : r.Wf) (h0 : r.findTypeIndex 0 = some 0) :
    r.doLoadPointer shared T 0 =
      if r.castTo T 0 = none then .error .noCast else if shared then .undefined else .null := by
  have hcast : r.castTo T 0 = r.castmap.lookup (T, 0) := by rw [TypeIdMap.castTo, h0]; rfl
  rw [hcast]
  cases hc : r.castmap.lookup (T, 0) with
  | none => simp only [TypeIdMap.doLoadPointer, h0, hc, if_true]
  | some c =>
    obtain rfl := h.nullCast T c hc
    simp only [TypeIdMap.doLoadPointer, h0, hc, h.null, reduceCtorEq, if_false]
    cases shared <;> simp [castPointer]

theorem doLoadPointer_ne {i : ℕ} (h : r.Wf) (hi : r.findTypeIndex id = some i) (hne : i ≠ 0)
    (shared : Bool) (T : TypeIndex) : ∃ t, r.typeOf id = some t ∧
      (r.castTo T id = none ∧ r.doLoadPointer shared T id = .error .noCast ∨
      ∃ c u, r.castTo T id = some c ∧ c.plainCast = some (.plain T u) ∧
        r.doLoadPointer shared T id = if t = u then .object t else .undefined) := by
  obtain ⟨hlt, -⟩ := h.ids id i hi
  have hstub : r.stubvec[i]? = some r.stubvec[i] := getElem?_eq_getElem hlt
  obtain ⟨t, ht⟩ := isSome_iff_exists.1 (h.stub i _ hstub hne)
  refine ⟨t, by rw [TypeIdMap.typeOf, hi, bind_some, hstub, bind_some, ht], ?_⟩
  rw [TypeIdMap.castTo, hi, bind_some, TypeIdMap.doLoadPointer, hi]
  cases hc : r.castmap.lookup (T, i) with
  | none => exact .inl ⟨rfl, by simp only [hc]⟩
  | some c =>
    obtain ⟨u, rfl⟩ := h.cast T i c hc hne
    refine .inr ⟨_, u, rfl, rfl, ?_⟩
    simp only [hc, hstub, ht]
    cases shared <;> simp [castPointer]

/-- What `LoadsFaithfully` asks of the result of the registry. -/
def FaithfulLoad (r : TypeIdMap) (T : TypeIndex) (id : ℕ) : PtrLoad TypeIndex → Prop
  | .undefined => False
  | .error _ => id ≠ 0 ∧ r.castTo T id = none
  | .null => id = 0
  | .object t => id ≠ 0 ∧ r.typeOf id = some t ∧ (r.castTo T id).isSome

theorem castPointer_object {obj : Option TypeIndex} {c : Option CastFn} {t : TypeIndex}
    (h : castPointer shared T obj c = .object t) : obj = some t := by
  unfold castPointer at h
  split at h
  · cases h
  all_goals
    split_ifs at h
    split at h
    · cases h
    · split_ifs at h
      cases h
      rfl

theorem typeOf_of_object {t : TypeIndex} (h : r.doLoadPointer shared T id = .object t) :
    r.typeOf id = some t := by
  unfold TypeIdMap.doLoadPointer at h
  unfold TypeIdMap.typeOf
  cases hi : r.findTypeIndex id with
  | none => simp [hi] at h
  | some i =>
    simp only [hi] at h
    cases hc : r.castmap.lookup (T, i) with
    | none => simp [hc] at h
    | some c =>
      simp only [hc] at h
      cases hs : r.stubvec[i]? with
      | none => simp [hs] at h
      | some stub =>
        simp only [hs] at h
        rw [bind_some, hs, bind_some]
        exact castPointer_object h

theorem loadsFaithfully_iff (hf : d.fstk = .loadPointer shared T l :: fs)
    (he : d.estk = .val id g :: es) :
    r.LoadsFaithfully calls T id l fs avail d ↔
      FaithfulLoad r T id (r.doLoadPointer shared T id) := by
  have hlist : ∀ f : DFrame, f :: fs ≠ fs := fun f hfs => by
    have := congrArg List.length hfs
    simp at this
  unfold TypeIdMap.LoadsFaithfully
  rw [step_loadPointer hf he]
  cases hload : r.doLoadPointer shared T id with
  | undefined => simp [FaithfulLoad]
  | error e => simp [FaithfulLoad]
  | null =>
    constructor
    · rintro (⟨d', hd', -⟩ | ⟨d', hd', hid, -⟩ | ⟨t, d', hd', -, -, -, hfs, -⟩)
      · cases hd'
      · exact hid
      · cases hd'
        exact absurd hfs.symm (hlist _)
    · intro hid
      exact .inr (.inl ⟨_, rfl, hid, rfl, rfl⟩)
  | object t =>
    constructor
    · rintro (⟨d', hd', -⟩ | ⟨d', hd', -, hfs, -⟩ | ⟨u, d', -, hid, -, hc, -⟩)
      · cases hd'
      · cases hd'
        exact absurd hfs (hlist _)
      · exact ⟨hid, typeOf_of_object hload, hc⟩
    · rintro ⟨hid, ht, hc⟩
      exact .inr (.inr ⟨t, _, rfl, hid, ht, hc, rfl, rfl⟩)

/-- **Pointers are decoded faithfully exactly when they are decodable**, whatever was
    registered. -/
theorem loadPointer_faithful_iff (ops : List Registration)
    (hf : d.fstk = .loadPointer shared T l :: fs) (he : d.estk = .val id g :: es) :
    (TypeIdMap.registered ops).LoadsFaithfully calls T id l fs avail d ↔
      (TypeIdMap.registered ops).Decodable shared T id := by
  have hwf := TypeIdMap.wf_registered ops
  generalize TypeIdMap.registered ops = r at hwf ⊢
  rw [loadsFaithfully_iff hf he]
  unfold TypeIdMap.Decodable
  cases hi : r.findTypeIndex id with
  | none =>
    have hcast : r.castTo T id = none := by rw [TypeIdMap.castTo, hi]; rfl
    have hload : r.doLoadPointer shared T id = .error .noCast := by
      simp only [TypeIdMap.doLoadPointer, hi]
    rw [hload, FaithfulLoad, hcast]
    constructor
    · rintro ⟨hid, -⟩
      exact ⟨fun h0 => absurd h0 hid, fun _ c t hc => nomatch hc⟩
    · rintro ⟨h0, -⟩
      refine ⟨fun hid => ?_, rfl⟩
      obtain ⟨-, hzero, -⟩ := h0 hid
      rw [hid, hzero] at hi
      cases hi
  | some i =>
    by_cases hzero : i = 0
    · -- the stub of the null pointer
      subst hzero
      obtain rfl : id = 0 := by
        by_contra hid
        exact (hwf.ids id 0 hi).2 hid rfl
      rw [doLoadPointer_zero hwf hi, hi]
      cases hcast : r.castTo T 0 with
      | none => simp [FaithfulLoad]
      | some c => cases shared <;> simp [FaithfulLoad]
    · -- the stub of a type; id 0 may only lead to it after a failed registration
      have hid0 : ¬ (id = 0 ∧ r.findTypeIndex 0 = some 0) := by
        rintro ⟨rfl, h0⟩
        rw [h0] at hi
        exact hzero (Option.some.inj hi).symm
      obtain ⟨t, ht, ⟨hcast, hload⟩ | ⟨c, u, hcast, hu, hload⟩⟩ :=
        doLoadPointer_ne hwf hi hzero shared T
      · rw [hload, FaithfulLoad, hcast]
        constructor
        · rintro ⟨hid, -⟩
          exact ⟨fun h0 => absurd h0 hid, fun _ c t hc => nomatch hc⟩
        · rintro ⟨h0, -⟩
          exact ⟨fun hid => hid0 ⟨hid, (h0 hid).2.1⟩, rfl⟩
      · rw [hload, hcast, ht]
        constructor
        · intro hfaith
          split_ifs at hfaith with htu
          · obtain ⟨hid, -⟩ := hfaith
            refine ⟨fun h0 => absurd h0 hid, fun _ c' t' hc' ht' => ?_⟩
            cases hc'
            cases ht'
            rw [hu, htu]
          · exact hfaith.elim
        · rintro ⟨h0, hown⟩
          have hid : id ≠ 0 := fun hid => hid0 ⟨hid, (h0 hid).2.1⟩
          have hplain := hown hid c t rfl rfl
          rw [hu] at hplain
          cases hplain
          rw [if_pos rfl]
          exact ⟨hid, ht, by rw [hcast]; rfl⟩

end Load

/-- Two types under ids of protocol 1, and the cast of the second one to the first. -/
def TypeIdMap.derivedAndBase : List Registration := [.type 5 1 3 0, .type 6 1 4 0, .cast 6 5]

/-- The id of a pointer was loaded, and the pointer is next. -/
def pointerNext (shared : Bool) (T id : ℕ) : DeserializerBase :=
  { DeserializerBase.new .unlimited [.ptr none] with
    fstk := [.loadPointer shared T ⟨.user 0, []⟩, .popExtStack]
    estk := [.val id none] }

/-- Pointers to two registered types: a null pointer to the base class, a shared pointer to it
    with an object of the derived class, and a pointer to the derived class with the id of the
    base class. -/
theorem loadPointer_faithful_derived :
    (TypeIdMap.registered TypeIdMap.derivedAndBase).LoadsFaithfully (fun _ => .unit) 5 0
        ⟨.user 0, []⟩ [.popExtStack] [] (pointerNext false 5 0) ∧
      (TypeIdMap.registered TypeIdMap.derivedAndBase).LoadsFaithfully (fun _ => .unit) 5 1028
        ⟨.user 0, []⟩ [.popExtStack] [] (pointerNext true 5 1028) ∧
      (TypeIdMap.registered TypeIdMap.derivedAndBase).LoadsFaithfully (fun _ => .unit) 6 1027
        ⟨.user 0, []⟩ [.popExtStack] [] (pointerNext false 6 1027) := by
  refine ⟨?_, ?_, ?_⟩
  · exact (loadPointer_faithful_iff _ rfl rfl).2 ⟨fun _ => ⟨rfl, rfl, rfl⟩, fun h => absurd rfl h⟩
  · refine (loadPointer_faithful_iff _ rfl rfl).2 ⟨fun h => absurd h (by decide), ?_⟩
    rintro - c t hc ht
    cases hc
    cases ht
    rfl
  · refine (loadPointer_faithful_iff _ rfl rfl).2 ⟨fun h => absurd h (by decide), ?_⟩
    rintro - c t hc
    cases hc

/-- A shared null pointer to a registered type: what is stored for it makes the
    deserializer call a cast function that is not set. -/
theorem loadPointer_shared_null :
    ((DeserializerBase.new .unlimited [.ptr none]).push (.ptr true 5) ⟨.user 0, []⟩).runLoop
        ((TypeIdMap.registered [.type 5 0 0 0]).typeMap fun _ => .unit) false
        (crossBytes .w32 0) 4 0 = some .undefined ∧
    ¬ (TypeIdMap.registered [.type 5 0 0 0]).LoadsFaithfully (fun _ => .unit) 5 0 ⟨.user 0, []⟩
      [.popExtStack] [] { DeserializerBase.new .unlimited [.ptr none] with
        fstk := [.loadPointer true 5 ⟨.user 0, []⟩, .popExtStack], estk := [.val 0 none] } := by
  refine ⟨rfl, ?_⟩
  rintro (⟨d', hd', -⟩ | ⟨d', hd', -⟩ | ⟨t, d', hd', -⟩) <;> cases hd'

/-! ## Registrations without down casts -/

/-- Types and casts lead to the stubs that were made for them. -/
structure TypeIdMap.Own (r : TypeIdMap) : Prop where
  types : ∀ t i, r.typemap.lookup t = some i → (r.stubvec[i]?).bind TypeStub.type = some t
  casts : ∀ T i c, r.castmap.lookup (T, i) = some c → i ≠ 0 →
    ∃ t, (r.stubvec[i]?).bind TypeStub.type = some t ∧ c.plainCast = some (.plain T t)

namespace TypeIdMap
variable {r r' : TypeIdMap}

theorem Own.doRegisterCast {derived base : TypeIndex} (h : r.Own)
    (hr : r.doRegisterCast derived base = some r') : r'.Own := by
  obtain ⟨idx, hidx, rfl⟩ := map_eq_some_iff.1 hr
  refine ⟨h.types, fun T i c hc hi => ?_⟩
  rcases lookup_cons_eq hc with ⟨heq, -⟩ | hc
  · cases heq
    exact absurd rfl hi
  rcases lookup_cons_eq hc with ⟨heq, -⟩ | hc
  · cases heq
    exact absurd rfl hi
  rcases lookup_cons_eq hc with ⟨heq, rfl⟩ | hc
  · cases heq
    exact ⟨derived, h.types derived idx hidx, rfl⟩
  · exact h.casts T i c hc hi

theorem Own.doRegisterNullCast {derived : TypeIndex} (h : r.Own)
    (hr : r.doRegisterNullCast derived = some r') : r'.Own := by
  obtain ⟨idx, hidx, rfl⟩ := map_eq_some_iff.1 hr
  refine ⟨h.types, fun T i c hc hi => ?_⟩
  rcases lookup_cons_eq hc with ⟨heq, -⟩ | hc
  · cases heq
    exact absurd rfl hi
  · exact h.casts T i c hc hi

theorem Own.addType (h : r.Own) (t : TypeIndex) (id : ℕ) : (r.addType t id).Own := by
  have hold : ∀ (i : ℕ) (u : TypeIndex), (r.stubvec[i]?).bind TypeStub.type = some u →
      ((r.addType t id).stubvec[i]?).bind TypeStub.type = some u := by
    intro i u hu
    obtain ⟨s, hs, -⟩ := bind_eq_some_iff.1 hu
    have hlt : i < r.stubvec.length := (List.getElem?_eq_some_iff.1 hs).1
    rw [TypeIdMap.addType, getElem?_append_left hlt]
    exact hu
  refine ⟨fun u i hi => ?_, fun T i c hc hi => ?_⟩
  · rcases lookup_cons_eq hi with ⟨rfl, rfl⟩ | hi
    · simp [TypeIdMap.addType]
    · exact hold i u (h.types u i hi)
  · obtain ⟨u, hu, hc⟩ := h.casts T i c hc hi
    exact ⟨u, hold i u hu, hc⟩

theorem Own.register (h : r.Own) {op : Registration}
    (hop : ∀ derived base, op ≠ .downCast derived base) : (r.register op).Own := by
  cases op with
  | type t protocolId idx junk =>
    rw [TypeIdMap.register]
    cases hr : r.doRegisterType t protocolId idx junk with
    | none => exact h
    | some res =>
      exact doRegisterType_keeps (fun _ h => ⟨h.types, h.casts⟩) (fun _ id h => h.addType t id)
        (fun _ _ h hr => h.doRegisterCast hr) (fun _ _ h hr => h.doRegisterNullCast hr) h hr
  | cast derived base =>
    rw [TypeIdMap.register]
    cases hr : r.doRegisterCast derived base with
    | none => exact h
    | some r' => exact h.doRegisterCast hr
  | downCast derived base => exact absurd rfl (hop derived base)

variable {ops : List Registration}

theorem own_registered
    (hops : ∀ derived base, .downCast derived base ∉ ops) : (registered ops).Own := by
  have hfold : ∀ (ops : List Registration) (r : TypeIdMap),
      (∀ derived base, .downCast derived base ∉ ops) → r.Own →
      (ops.foldl TypeIdMap.register r).Own := by
    intro ops
    induction ops with
    | nil => exact fun r _ h => h
    | cons op ops ih =>
      intro r hops h
      refine ih _ (fun d b hmem => hops d b (mem_cons_of_mem _ hmem)) (h.register ?_)
      rintro d b rfl
      exact hops d b mem_cons_self
  refine hfold ops new hops ⟨?_, ?_⟩
  · intro t i h
    cases h
  · intro T i c h
    cases h

/-- **Without down casts only null pointers can fail to be decoded.** -/
theorem decodable_of_no_downCast
    (hops : ∀ derived base, .downCast derived base ∉ ops) (shared : Bool) (T : TypeIndex) {id : ℕ}
    (hid : id ≠ 0) : (registered ops).Decodable shared T id := by
  refine ⟨fun h0 => absurd h0 hid, fun _ c t hc ht => ?_⟩
  obtain ⟨i, hi, hc⟩ := bind_eq_some_iff.1 hc
  have hne := ((wf_registered ops).ids id i hi).2 hid
  obtain ⟨u, hu, hplain⟩ := (own_registered hops).casts T i c hc hne
  rw [typeOf, hi, bind_some, hu] at ht
  cases ht
  exact hplain

theorem decodable_derived : joinTypeId 1 4 = some 1028 ∧
    (registered derivedAndBase).typeOf 1028 = some 6 ∧
    (registered derivedAndBase).castTo 5 1028 = some ⟨some (.plain 5 6), some (.shared 5 6)⟩ ∧
    (registered derivedAndBase).Decodable true 5 1028 :=
  ⟨by decide, by decide, by decide,
    decodable_of_no_downCast (by simp [derivedAndBase]) true 5 (by decide)⟩

end TypeIdMap

end SolidFrame
