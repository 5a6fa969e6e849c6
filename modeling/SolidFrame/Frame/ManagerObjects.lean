/-
  SolidFrame formalization — the slots of objects (solid/frame/src/manager.cpp).

  An object index `x` is the stub `x % objchkcnt` of the chunk `x / objchkcnt`.  As long
  as no service is unregistered each chunk belongs to one service for ever, and a service
  takes the index of a new object from its stack of freed indices, from what is left of its
  last chunk, or from a new chunk.

  `Objects` is the invariant of the calls: the tables of chunks, the lists of chunks of the
  services (`Links`), and the slots (`Slots`): an object and its slot point to each other,
  and no slot that a service may still take holds an object.
-/
import Mathlib.Data.List.Nodup
import SolidFrame.Frame.ManagerServices

namespace SolidFrame.Frame

open Function List Nat Option

/-- The index is in the part of the last chunk that was not used yet. -/
def ServiceStub.Ahead {S : Type} (u : ServiceStub S) (x : ℕ) : Prop :=
  ∃ i e : ℕ, u.crtobjidx = some i ∧ u.endobjidx = some e ∧ i ≤ x ∧ x < e

namespace Manager

variable {S O R : Type} {m m' : Manager S O R}

/-! ## Invariant -/

def slot (m : Manager S O R) (x : ℕ) : ObjectStub O R :=
  (m.chunk (x / m.objchkcnt)).object (x % m.objchkcnt)

def owner (m : Manager S O R) (x : ℕ) : Option ℕ := (m.chunk (x / m.objchkcnt)).svcidx

/-- The chunks of a service, in the order of their indices. -/
def chunksOf (m : Manager S O R) (i : ℕ) : List ℕ :=
  (List.range m.allocated).filter fun q => (m.chunk q).svcidx = some i

/-- The chunks from `chkidx` on, along `nextchk`. -/
def Linked (m : Manager S O R) (chkidx : Option ℕ) : List ℕ → Prop
  | [] => chkidx = none
  | q :: l => chkidx = some q ∧ m.Linked (m.chunk q).nextchk l

/-- The service may put an object in the slot. -/
def Spare (m : Manager S O R) (i x : ℕ) : Prop :=
  x < m.maxobjcnt ∧ m.owner x = some i ∧ (m.slot x).pobject = none

structure Tables (m : Manager S O R) : Prop where
  pos : 0 < m.objchkcnt
  cur : m.objstore.cur = List.range m.allocated
  other : ∃ k ≤ m.allocated, m.objstore.other = List.range k
  max : m.maxobjcnt = m.allocated * m.objchkcnt
  svccache : m.svccache = []
  chkcache : m.chkcache = []

structure Links (m : Manager S O R) : Prop where
  owned : ∀ q < m.allocated, ∃ i < m.crtsvcidx, (m.chunk q).svcidx = some i
  linked : ∀ i < m.crtsvcidx, m.Linked (m.svcdq i).firstchk (m.chunksOf i)
  last : ∀ i < m.crtsvcidx, (m.svcdq i).lastchk = (m.chunksOf i).getLast?

structure Slots (m : Manager S O R) : Prop where
  object : ∀ x < m.maxobjcnt, ∀ o : O, (m.slot x).pobject = some o → m.objId o = some x
  index : ∀ (o : O) (x : ℕ), m.objId o = some x → x < m.maxobjcnt ∧ (m.slot x).pobject = some o
  unique : ∀ x < m.maxobjcnt, (m.slot x).unique < uniqueLimit
  count : ∀ q < m.allocated, (m.chunk q).objcnt =
    (List.range m.objchkcnt).countP fun j => ((m.chunk q).object j).pobject.isSome
  nodup : ∀ i < m.crtsvcidx, (m.svcdq i).objcache.Nodup
  cached : ∀ i < m.crtsvcidx, ∀ x ∈ (m.svcdq i).objcache, m.Spare i x ∧ ¬ (m.svcdq i).Ahead x
  ahead : ∀ i < m.crtsvcidx, ∀ x : ℕ, (m.svcdq i).Ahead x → m.Spare i x

structure Objects (m : Manager S O R) : Prop where
  services : Services m
  tables : Tables m
  links : Links m
  slots : Slots m

/-- A slot in no stack of freed indices and not ahead. -/
def Held (m : Manager S O R) (x : ℕ) : Prop :=
  ∀ i < m.crtsvcidx, x ∉ (m.svcdq i).objcache ∧ ¬ (m.svcdq i).Ahead x

/-! ## Chunks and slots -/

theorem Tables.div_lt (h : Tables m) {x : ℕ} (hx : x < m.maxobjcnt) :
    x / m.objchkcnt < m.allocated := by
  rw [div_lt_iff_lt_mul h.pos, ← h.max]
  exact hx

theorem Tables.chkPtr (h : Tables m) {x : ℕ} (hx : x < m.maxobjcnt) :
    m.chkPtr x = some (x / m.objchkcnt) := by
  rw [Manager.chkPtr, h.cur, getElem?_range (h.div_lt hx)]

theorem Tables.of_chkPtr (h : Tables m) {x q : ℕ} (hq : m.chkPtr x = some q) :
    q = x / m.objchkcnt ∧ x < m.maxobjcnt := by
  rw [Manager.chkPtr, h.cur] at hq
  obtain ⟨hlt, heq⟩ := List.getElem?_eq_some_iff.1 hq
  rw [List.length_range] at hlt
  rw [List.getElem_range] at heq
  rw [h.max, ← Nat.div_lt_iff_lt_mul h.pos]
  exact ⟨heq.symm, hlt⟩

/-- The counters of a chunk and the contents of one slot are replaced. -/
def putSlot (m : Manager S O R) (x : ℕ) (u : ObjectStub O R) (cnt : ℕ) (ids : O → Option ℕ) :
    Manager S O R :=
  { m.setChunk (x / m.objchkcnt) { (m.chunk (x / m.objchkcnt)).setObject (x % m.objchkcnt) u with
      objcnt := cnt } with objId := ids }

section putSlot
variable (m) {x : ℕ} {u : ObjectStub O R} {cnt : ℕ} (ids : O → Option ℕ)

theorem slot_putSlot_self : (m.putSlot x u cnt ids).slot x = u := by
  simp [slot, putSlot, setChunk, ObjectChunk.setObject]

theorem slot_putSlot_of_ne {x' : ℕ} (hne : x' ≠ x) :
    (m.putSlot x u cnt ids).slot x' = m.slot x' := by
  simp only [slot, putSlot, setChunk, ObjectChunk.setObject]
  rcases eq_or_ne (x' / m.objchkcnt) (x / m.objchkcnt) with hdiv | hdiv
  · have hmod : x' % m.objchkcnt ≠ x % m.objchkcnt := by
      intro hmod
      apply hne
      rw [← div_add_mod x' m.objchkcnt, ← div_add_mod x m.objchkcnt, hdiv, hmod]
    rw [hdiv, update_self]
    exact update_of_ne hmod _ _
  · rw [update_of_ne hdiv]

theorem svcidx_putSlot (q : ℕ) : ((m.putSlot x u cnt ids).chunk q).svcidx = (m.chunk q).svcidx := by
  simp only [putSlot, chunk_setChunk]
  rcases eq_or_ne q (x / m.objchkcnt) with rfl | hne
  · rw [update_self]
    rfl
  · rw [update_of_ne hne]

theorem nextchk_putSlot (q : ℕ) :
    ((m.putSlot x u cnt ids).chunk q).nextchk = (m.chunk q).nextchk := by
  simp only [putSlot, chunk_setChunk]
  rcases eq_or_ne q (x / m.objchkcnt) with rfl | hne
  · rw [update_self]
    rfl
  · rw [update_of_ne hne]

end putSlot

/-! ## Updates -/

variable {u : ServiceStub S} {ids : O → Option ℕ} {capacity cnt : ℕ} {o : O} {s : S}
  {chkidx : Option ℕ}

theorem Linked.congr {l : List ℕ} (h : m.Linked chkidx l)
    (hnext : ∀ q ∈ l, (m'.chunk q).nextchk = (m.chunk q).nextchk) : m'.Linked chkidx l := by
  induction l generalizing chkidx with
  | nil => exact h
  | cons q l ih =>
    obtain ⟨hq, hl⟩ := h
    refine ⟨hq, ?_⟩
    rw [hnext q mem_cons_self]
    exact ih hl fun q' hq' => hnext q' (mem_cons_of_mem q hq')

theorem chunksOf_congr (halloc : m'.allocated = m.allocated)
    (hidx : ∀ q : ℕ, (m'.chunk q).svcidx = (m.chunk q).svcidx) (i : ℕ) :
    m'.chunksOf i = m.chunksOf i := by
  rw [chunksOf, chunksOf, halloc]
  simp only [hidx]

theorem Links.congr (h : Links m) (halloc : m'.allocated = m.allocated)
    (hcrt : m'.crtsvcidx = m.crtsvcidx)
    (hidx : ∀ q : ℕ, (m'.chunk q).svcidx = (m.chunk q).svcidx)
    (hnext : ∀ q : ℕ, (m'.chunk q).nextchk = (m.chunk q).nextchk)
    (hfirst : ∀ i : ℕ, (m'.svcdq i).firstchk = (m.svcdq i).firstchk)
    (hlast : ∀ i : ℕ, (m'.svcdq i).lastchk = (m.svcdq i).lastchk) : Links m' := by
  have hchunks := chunksOf_congr halloc hidx
  refine ⟨?_, ?_, ?_⟩
  · intro q hq
    rw [hcrt, hidx]
    exact h.owned q (halloc ▸ hq)
  · intro i hi
    rw [hfirst, hchunks]
    exact (h.linked i (hcrt ▸ hi)).congr fun q _ => hnext q
  · intro i hi
    rw [hlast, hchunks]
    exact h.last i (hcrt ▸ hi)

theorem Links.setStub (h : Links m) {i : ℕ}
    (hfirst : u.firstchk = (m.svcdq i).firstchk) (hlast : u.lastchk = (m.svcdq i).lastchk) :
    Links (m.setStub i u) :=
  h.congr rfl rfl (fun _ => rfl) (fun _ => rfl)
    ((forall_update_iff m.svcdq fun i' v => v.firstchk = (m.svcdq i').firstchk).2
      ⟨hfirst, fun _ _ => rfl⟩)
    ((forall_update_iff m.svcdq fun i' v => v.lastchk = (m.svcdq i').lastchk).2
      ⟨hlast, fun _ _ => rfl⟩)

theorem Links.putSlot (h : Links m) {x : ℕ} {u : ObjectStub O R} :
    Links (m.putSlot x u cnt ids) :=
  h.congr rfl rfl (svcidx_putSlot m ids) (nextchk_putSlot m ids) (fun _ => rfl) (fun _ => rfl)

theorem Slots.setStub (h : Slots m) {i : ℕ} (hnodup : u.objcache.Nodup)
    (hcached : ∀ x ∈ u.objcache, m.Spare i x ∧ ¬ u.Ahead x)
    (hahead : ∀ x : ℕ, u.Ahead x → m.Spare i x) : Slots (m.setStub i u) where
  object := h.object
  index := h.index
  unique := h.unique
  count := h.count
  nodup := (forall_update_iff m.svcdq fun i' v => i' < m.crtsvcidx → v.objcache.Nodup).2
    ⟨fun _ => hnodup, fun i' _ => h.nodup i'⟩
  cached := (forall_update_iff m.svcdq fun i' v => i' < m.crtsvcidx →
      ∀ x ∈ v.objcache, m.Spare i' x ∧ ¬ v.Ahead x).2
    ⟨fun _ => hcached, fun i' _ => h.cached i'⟩
  ahead := (forall_update_iff m.svcdq fun i' v => i' < m.crtsvcidx →
      ∀ x : ℕ, v.Ahead x → m.Spare i' x).2
    ⟨fun _ => hahead, fun i' _ => h.ahead i'⟩

theorem countP_range_add_one {n j : ℕ} (hj : j < n) {p p' : ℕ → Bool} (hp : p j = false)
    (hp' : p' j) (hother : ∀ i ≠ j, p' i = p i) :
    (List.range n).countP p' = (List.range n).countP p + 1 := by
  induction n with
  | zero => exact absurd hj (not_lt_zero j)
  | succ n ih =>
    rw [range_succ, countP_append, countP_append, countP_singleton, countP_singleton]
    rcases eq_or_ne n j with rfl | hne
    · have hsame : (List.range n).countP p' = (List.range n).countP p :=
        countP_congr fun i hi => by
          rw [hother i (Nat.ne_of_lt (mem_range.1 hi))]
      rw [hsame, hp, hp']
      simp
    · rw [ih (by omega), hother n hne]
      omega

/-- The contents of one slot are replaced, with the index of the object that was or is in it. -/
theorem Slots.putSlot (h : Slots m) {x : ℕ} (hx : x < m.maxobjcnt)
    {u : ObjectStub O R}
    (hobject : ∀ o : O, u.pobject = some o → ids o = some x)
    (hindex : ∀ o : O, ids o = some x → u.pobject = some o)
    (hids : ∀ (o : O) (x' : ℕ), x' ≠ x → (ids o = some x' ↔ m.objId o = some x'))
    (hunique : u.unique < uniqueLimit)
    (hcnt : cnt = (List.range m.objchkcnt).countP fun j =>
      (update (m.chunk (x / m.objchkcnt)).object (x % m.objchkcnt) u j).pobject.isSome)
    (hheld : u.pobject = none ∨ m.Held x) : Slots (m.putSlot x u cnt ids) := by
  have hspare : ∀ i < m.crtsvcidx, ∀ x' : ℕ, (x' = x → u.pobject = none) → m.Spare i x' →
      (m.putSlot x u cnt ids).Spare i x' := by
    rintro i hi x' hnone ⟨hlt, hown, hempty⟩
    refine ⟨hlt, (svcidx_putSlot m ids _).trans hown, ?_⟩
    rcases eq_or_ne x' x with rfl | hne
    · rw [slot_putSlot_self]
      exact hnone rfl
    · rw [slot_putSlot_of_ne m ids hne]
      exact hempty
  refine ⟨?_, ?_, ?_, ?_, h.nodup, ?_, ?_⟩
  · intro x' hx' o ho
    rcases eq_or_ne x' x with rfl | hne
    · rw [slot_putSlot_self] at ho
      exact hobject o ho
    · rw [slot_putSlot_of_ne m ids hne] at ho
      exact (hids o x' hne).2 (h.object x' hx' o ho)
  · rintro o x' (ho : ids o = some x')
    rcases eq_or_ne x' x with rfl | hne
    · rw [slot_putSlot_self]
      exact ⟨hx, hindex o ho⟩
    · rw [slot_putSlot_of_ne m ids hne]
      exact h.index o x' ((hids o x' hne).1 ho)
  · intro x' hx'
    rcases eq_or_ne x' x with rfl | hne
    · rw [slot_putSlot_self]
      exact hunique
    · rw [slot_putSlot_of_ne m ids hne]
      exact h.unique x' hx'
  · intro q hq
    rcases eq_or_ne q (x / m.objchkcnt) with rfl | hne
    · simp only [Manager.putSlot, chunk_setChunk, update_self, ObjectChunk.setObject]
      exact hcnt
    · simp only [Manager.putSlot, chunk_setChunk, update_of_ne hne]
      exact h.count q hq
  · intro i hi x' hx'
    obtain ⟨hsp, hnot⟩ := h.cached i hi x' hx'
    refine ⟨hspare i hi x' ?_ hsp, hnot⟩
    rintro rfl
    exact hheld.resolve_right fun hheld => (hheld i hi).1 hx'
  · intro i hi x' hx'
    refine hspare i hi x' ?_ (h.ahead i hi x' hx')
    rintro rfl
    exact hheld.resolve_right fun hheld => (hheld i hi).2 hx'

theorem Objects.setStub (h : Objects m) {i : ℕ}
    (hpsvc : u.psvc = (m.svcdq i).psvc) (hfirst : u.firstchk = (m.svcdq i).firstchk)
    (hlast : u.lastchk = (m.svcdq i).lastchk) (hnodup : u.objcache.Nodup)
    (hcached : ∀ x ∈ u.objcache, m.Spare i x ∧ ¬ u.Ahead x)
    (hahead : ∀ x : ℕ, u.Ahead x → m.Spare i x) : Objects (m.setStub i u) where
  services := h.services.of_same (.of_stub rfl hpsvc rfl rfl rfl rfl)
  tables := ⟨h.tables.pos, h.tables.cur, h.tables.other, h.tables.max, h.tables.svccache,
    h.tables.chkcache⟩
  links := h.links.setStub hfirst hlast
  slots := h.slots.setStub hnodup hcached hahead

theorem Objects.putSlot (h : Objects m) {x : ℕ} {u : ObjectStub O R}
    (hslots : Slots (m.putSlot x u cnt ids)) : Objects (m.putSlot x u cnt ids) where
  services := h.services.of_same ⟨rfl, rfl, rfl, rfl, fun _ => rfl⟩
  tables := ⟨h.tables.pos, h.tables.cur, h.tables.other, h.tables.max, h.tables.svccache,
    h.tables.chkcache⟩
  links := h.links.putSlot
  slots := hslots

/-! ## Taking and filling a slot -/

theorem Slots.held_of_object (h : Slots m) {x : ℕ} (hx : (m.slot x).pobject = some o) :
    m.Held x := by
  intro i hi
  constructor
  · intro hmem
    obtain ⟨⟨-, -, hempty⟩, -⟩ := h.cached i hi x hmem
    rw [hx] at hempty
    cases hempty
  · intro hahead
    obtain ⟨-, -, hempty⟩ := h.ahead i hi x hahead
    rw [hx] at hempty
    cases hempty

theorem Slots.held_of_spare (h : Slots m) {i x : ℕ} (hspare : m.Spare i x)
    (hcache : x ∉ (m.svcdq i).objcache) (hahead : ¬ (m.svcdq i).Ahead x) : m.Held x := by
  intro i' hi'
  rcases eq_or_ne i' i with rfl | hne
  · exact ⟨hcache, hahead⟩
  have hother : ¬ m.Spare i' x := by
    rintro ⟨-, hown, -⟩
    rw [hspare.2.1] at hown
    exact hne (Option.some.inj hown).symm
  exact ⟨fun hmem => hother (h.cached i' hi' x hmem).1, fun hah => hother (h.ahead i' hi' x hah)⟩

theorem Objects.takeCached (h : Objects m) {i x : ℕ} {rest : List ℕ} (hi : i < m.crtsvcidx)
    (hcache : (m.svcdq i).objcache = x :: rest) :
    Objects (m.setStub i { m.svcdq i with objcache := rest }) ∧
      (m.setStub i { m.svcdq i with objcache := rest }).Held x ∧ m.Spare i x := by
  have hnodup := h.slots.nodup i hi
  have hcached := h.slots.cached i hi
  rw [hcache] at hnodup hcached
  obtain ⟨hnot, hrest⟩ := nodup_cons.1 hnodup
  obtain ⟨hspare, hahead⟩ := hcached x mem_cons_self
  have hobj : Objects (m.setStub i { m.svcdq i with objcache := rest }) :=
    h.setStub rfl rfl rfl hrest (fun x' hx' => hcached x' (mem_cons_of_mem x hx'))
      (h.slots.ahead i hi)
  refine ⟨hobj, hobj.slots.held_of_spare (i := i) hspare ?_ ?_, hspare⟩
  · rw [svcdq_setStub, update_self]
    exact hnot
  · rw [svcdq_setStub, update_self]
    exact hahead

theorem nextIndex_eq_some {x : ℕ} (h : u.nextIndex = some x) :
    u.crtobjidx = some x ∧ ∃ e : ℕ, u.endobjidx = some e ∧ x < e := by
  unfold ServiceStub.nextIndex at h
  split at h
  next i e hi he =>
    split_ifs at h with hlt
    cases h
    exact ⟨hi, e, he, hlt⟩
  next => cases h

theorem Objects.takeNext (h : Objects m) {i x : ℕ} (hi : i < m.crtsvcidx)
    (hnext : (m.svcdq i).nextIndex = some x) :
    Objects (m.setStub i { m.svcdq i with crtobjidx := some (x + 1) }) ∧
      (m.setStub i { m.svcdq i with crtobjidx := some (x + 1) }).Held x ∧ m.Spare i x := by
  obtain ⟨hcrt, e, hend, hlt⟩ := nextIndex_eq_some hnext
  have hsub : ∀ x' : ℕ, ServiceStub.Ahead { m.svcdq i with crtobjidx := some (x + 1) } x' →
      (m.svcdq i).Ahead x' ∧ x < x' := by
    rintro x' ⟨c', e', hc', he', hle, hlt'⟩
    cases hc'
    exact ⟨⟨x, e', hcrt, he', by omega, hlt'⟩, by omega⟩
  have hx : (m.svcdq i).Ahead x := ⟨x, e, hcrt, hend, Nat.le_refl x, hlt⟩
  have hspare := h.slots.ahead i hi x hx
  have hobj : Objects (m.setStub i { m.svcdq i with crtobjidx := some (x + 1) }) :=
    h.setStub rfl rfl rfl (h.slots.nodup i hi) (fun x' hx' => ⟨(h.slots.cached i hi x' hx').1,
        fun hah => (h.slots.cached i hi x' hx').2 (hsub x' hah).1⟩)
      (fun x' hah => h.slots.ahead i hi x' (hsub x' hah).1)
  refine ⟨hobj, hobj.slots.held_of_spare (i := i) hspare ?_ ?_, hspare⟩
  · rw [svcdq_setStub, update_self]
    exact fun hmem => (h.slots.cached i hi x hmem).2 hx
  · rw [svcdq_setStub, update_self]
    exact fun hah => Nat.lt_irrefl x (hsub x hah).2

/-! ## Opening a chunk -/

/-- The chunk of the index gets a service if it has none. -/
def claim (m : Manager S O R) (q : ℕ) (i : Option ℕ) : Manager S O R :=
  m.setChunk q (if (m.chunk q).svcidx = none then { m.chunk q with svcidx := i } else m.chunk q)

/-- A new chunk of the service `i`, at the end of its list. -/
def opened (m : Manager S O R) (i : ℕ) : Manager S O R :=
  { m.setStub i { m.svcdq i with
      firstchk := if (m.svcdq i).firstchk = none then some m.allocated else (m.svcdq i).firstchk
      lastchk := some m.allocated
      crtobjidx := some (m.allocated * m.objchkcnt + 1)
      endobjidx := some (m.allocated * m.objchkcnt + m.objchkcnt) } with
    objstore := m.objstore.switch (List.range (m.allocated + 1))
    allocated := m.allocated + 1
    maxobjcnt := (m.allocated + 1) * m.objchkcnt
    chunk := update
      (fun q => if (m.svcdq i).lastchk = some q then { m.chunk q with nextchk := some m.allocated }
        else m.chunk q)
      m.allocated { ObjectChunk.allocateChunk with svcidx := some i } }

theorem takeChunk_eq (h : Tables m) {chkidx : ℕ} (htake : m.takeChunk = some (m', chkidx)) :
    chkidx = m.allocated ∧ m' = { m.setChunk m.allocated .allocateChunk with
      objstore := m.objstore.switch (List.range (m.allocated + 1))
      allocated := m.allocated + 1 } := by
  obtain ⟨k, hk, hother⟩ := h.other
  have hvec : m.objstore.other ++ m.objstore.cur.drop m.objstore.other.length =
      List.range m.allocated := by
    obtain ⟨d, hd⟩ := Nat.exists_eq_add_of_le hk
    rw [h.cur, hother, length_range, hd, range_add, drop_left' length_range]
  unfold takeChunk at htake
  rw [h.chkcache] at htake
  dsimp only at htake
  split_ifs at htake
  rw [hvec, ← range_succ, length_range] at htake
  cases htake
  exact ⟨rfl, rfl⟩

theorem mem_chunksOf_lt {i q : ℕ} (hq : q ∈ m.chunksOf i) : q < m.allocated :=
  mem_range.1 (mem_filter.1 hq).1

theorem Links.lastchk_of_firstchk (h : Links m) {i : ℕ} (hi : i < m.crtsvcidx)
    (hfirst : (m.svcdq i).firstchk = none) : (m.svcdq i).lastchk = none := by
  have hlinked := h.linked i hi
  rw [h.last i hi]
  cases hl : m.chunksOf i with
  | nil => rfl
  | cons q l =>
    rw [hl, hfirst] at hlinked
    cases hlinked.1

theorem openChunk_eq (h : Objects m) {i x : ℕ} (hi : i < m.crtsvcidx)
    (hopen : m.openChunk i = some (m', x)) :
    x = m.allocated * m.objchkcnt ∧ m'.claim m.allocated (some i) = m.opened i := by
  have hmax : max m.maxobjcnt (m.allocated * m.objchkcnt + m.objchkcnt) =
      (m.allocated + 1) * m.objchkcnt := by
    rw [h.tables.max, Nat.succ_mul, Nat.max_eq_right (Nat.le_add_right _ _)]
  unfold openChunk at hopen
  obtain ⟨⟨m0, chkidx⟩, htake, hopen⟩ := bind_eq_some_iff.1 hopen
  obtain ⟨rfl, rfl⟩ := takeChunk_eq h.tables htake
  dsimp only [setChunk] at hopen
  rw [hmax] at hopen
  split_ifs at hopen with hfirst
  · have hlast := h.links.lastchk_of_firstchk hi hfirst
    cases hopen
    refine ⟨rfl, ?_⟩
    simp [claim, opened, setChunk, setStub, hfirst, hlast, update_idem, ObjectChunk.allocateChunk]
  · obtain ⟨q, hq, hopen⟩ := bind_eq_some_iff.1 hopen
    obtain ⟨l, hl, hq⟩ := bind_eq_some_iff.1 hq
    have hlt : l < m.allocated := by
      rw [h.links.last i hi] at hl
      exact mem_chunksOf_lt (mem_of_getLast? hl)
    obtain rfl : l = q := by
      rw [Copies.switch, getElem?_range (by omega)] at hq
      exact Option.some.inj hq
    cases hopen
    refine ⟨rfl, ?_⟩
    have hne : m.allocated ≠ l := Nat.ne_of_gt hlt
    simp only [claim, opened, setChunk, setStub, hfirst, hl, if_false, update_self,
      update_of_ne hne, update_of_ne hne.symm, ObjectChunk.allocateChunk, if_true]
    congr 1
    funext q
    rcases eq_or_ne q m.allocated with rfl | hqa
    · rw [update_self, update_self]
    · rw [update_of_ne hqa, update_of_ne hqa]
      rcases eq_or_ne q l with rfl | hql
      · rw [update_self, if_pos rfl]
      · rw [update_of_ne hql, update_of_ne hqa, if_neg]
        exact fun heq => hql (Option.some.inj heq).symm

section opened
variable (m) {i q : ℕ}

theorem chunk_opened_self :
    (m.opened i).chunk m.allocated = { ObjectChunk.allocateChunk with svcidx := some i } := by
  simp [opened]

theorem chunk_opened_of_lt (hq : q < m.allocated) :
    (m.opened i).chunk q = if (m.svcdq i).lastchk = some q then
      { m.chunk q with nextchk := some m.allocated } else m.chunk q := by
  simp only [opened, update_of_ne (Nat.ne_of_lt hq)]

theorem svcidx_opened_of_lt (hq : q < m.allocated) :
    ((m.opened i).chunk q).svcidx = (m.chunk q).svcidx := by
  rw [chunk_opened_of_lt m hq]
  split_ifs <;> rfl

theorem object_opened_of_lt (hq : q < m.allocated) :
    ((m.opened i).chunk q).object = (m.chunk q).object := by
  rw [chunk_opened_of_lt m hq]
  split_ifs <;> rfl

theorem objcnt_opened_of_lt (hq : q < m.allocated) :
    ((m.opened i).chunk q).objcnt = (m.chunk q).objcnt := by
  rw [chunk_opened_of_lt m hq]
  split_ifs <;> rfl

theorem chunksOf_opened (i' : ℕ) :
    (m.opened i).chunksOf i' = m.chunksOf i' ++ if i' = i then [m.allocated] else [] := by
  have hold : (List.range m.allocated).filter (fun q => ((m.opened i).chunk q).svcidx = some i') =
      m.chunksOf i' :=
    filter_congr fun q hq => by rw [svcidx_opened_of_lt m (mem_range.1 hq)]
  show (List.range (m.allocated + 1)).filter _ = _
  rw [range_succ, filter_append, hold]
  congr 1
  by_cases hi : i' = i
  · rw [if_pos hi, filter_singleton, chunk_opened_self, hi]
    simp
  · rw [if_neg hi, filter_singleton, chunk_opened_self]
    simp [Ne.symm hi]

end opened

theorem Linked.snoc {l : List ℕ} {a : ℕ} (h : m.Linked chkidx l)
    (hnodup : l.Nodup) (ha : (m'.chunk a).nextchk = none)
    (hlast : ∀ q ∈ l, l.getLast? = some q → (m'.chunk q).nextchk = some a)
    (hnext : ∀ q ∈ l, l.getLast? ≠ some q → (m'.chunk q).nextchk = (m.chunk q).nextchk) :
    m'.Linked (if chkidx = none then some a else chkidx) (l ++ [a]) := by
  induction l generalizing chkidx with
  | nil =>
    obtain rfl : chkidx = none := h
    exact ⟨rfl, ha⟩
  | cons q l ih =>
    obtain ⟨rfl, hl⟩ := h
    obtain ⟨hq, hnodup⟩ := nodup_cons.1 hnodup
    refine ⟨rfl, ?_⟩
    cases l with
    | nil =>
      rw [hlast q mem_cons_self rfl]
      exact ⟨rfl, ha⟩
    | cons q' l =>
      have hlink := ih hl hnodup
        (fun p hp hp' => hlast p (mem_cons_of_mem q hp) (by rwa [getLast?_cons_cons]))
        (fun p hp hp' => hnext p (mem_cons_of_mem q hp) (by rwa [getLast?_cons_cons]))
      have hsame : (m'.chunk q).nextchk = (m.chunk q).nextchk := by
        refine hnext q mem_cons_self ?_
        rw [getLast?_cons_cons]
        exact fun heq => hq (mem_of_getLast? heq)
      rw [hsame]
      rw [hl.1, if_neg (by simp)] at hlink
      rw [hl.1]
      exact hlink

theorem Links.opened (h : Links m) {i : ℕ} (hi : i < m.crtsvcidx) : Links (m.opened i) := by
  refine ⟨?_, ?_, ?_⟩
  · rintro q (hq : q < m.allocated + 1)
    rcases Nat.lt_succ_iff_lt_or_eq.1 hq with hlt | rfl
    · rw [svcidx_opened_of_lt m hlt]
      exact h.owned q hlt
    · rw [chunk_opened_self]
      exact ⟨i, hi, rfl⟩
  · intro i' hi'
    rw [chunksOf_opened]
    have hlinked := h.linked i' hi'
    have hlast := h.last i hi
    rcases eq_or_ne i' i with rfl | hne
    · have hstub : ((m.opened i').svcdq i').firstchk =
          if (m.svcdq i').firstchk = none then some m.allocated else (m.svcdq i').firstchk := by
        simp [Manager.opened, svcdq_setStub]
      rw [if_pos rfl, hstub]
      refine hlinked.snoc (List.nodup_range.filter _) (by rw [chunk_opened_self]; rfl) ?_ ?_
      · intro q hq hq'
        rw [chunk_opened_of_lt m (mem_chunksOf_lt hq), if_pos (hlast.trans hq')]
      · intro q hq hq'
        rw [chunk_opened_of_lt m (mem_chunksOf_lt hq), if_neg (hlast ▸ hq')]
    · have hstub : (m.opened i).svcdq i' = m.svcdq i' := by
        simp only [Manager.opened, svcdq_setStub, Function.update_of_ne hne]
      rw [if_neg hne, List.append_nil, hstub]
      refine hlinked.congr ?_
      intro q hq
      rw [chunk_opened_of_lt m (mem_chunksOf_lt hq), if_neg]
      intro hq'
      rw [hlast] at hq'
      have hown := (List.mem_filter.1 (List.mem_of_getLast? hq')).2
      have hown' := (List.mem_filter.1 hq).2
      simp only [decide_eq_true_eq] at hown hown'
      rw [hown] at hown'
      exact hne (Option.some.inj hown').symm
  · intro i' hi'
    rw [chunksOf_opened]
    rcases eq_or_ne i' i with rfl | hne
    · rw [if_pos rfl, List.getLast?_append_of_ne_nil _ (by simp)]
      simp [Manager.opened, svcdq_setStub, List.getLast?_singleton]
    · rw [if_neg hne, List.append_nil]
      simp only [Manager.opened, svcdq_setStub, Function.update_of_ne hne]
      exact h.last i' hi'

theorem slot_opened_of_lt (h : Tables m) {i x : ℕ} (hx : x < m.maxobjcnt) :
    (m.opened i).slot x = m.slot x := by
  show ((m.opened i).chunk (x / m.objchkcnt)).object _ = _
  rw [object_opened_of_lt m (h.div_lt hx)]
  rfl

theorem spare_opened (h : Tables m) {i x : ℕ} (hle : m.allocated * m.objchkcnt ≤ x)
    (hlt : x < (m.allocated + 1) * m.objchkcnt) :
    (m.opened i).Spare i x ∧ (m.opened i).slot x = .empty := by
  have hdiv : x / m.objchkcnt = m.allocated := by
    rw [Nat.div_eq_iff h.pos]
    rw [Nat.succ_mul] at hlt
    omega
  have hslot : (m.opened i).slot x = .empty := by
    show ((m.opened i).chunk (x / m.objchkcnt)).object _ = _
    rw [hdiv, chunk_opened_self]
    rfl
  refine ⟨⟨hlt, ?_, by rw [hslot]; rfl⟩, hslot⟩
  show ((m.opened i).chunk (x / m.objchkcnt)).svcidx = _
  rw [hdiv, chunk_opened_self]

theorem Slots.opened (h : Slots m) (ht : Tables m) {i : ℕ} : Slots (m.opened i) := by
  have hcases : ∀ x < (m.allocated + 1) * m.objchkcnt, x < m.maxobjcnt ∨
      (m.opened i).Spare i x ∧ (m.opened i).slot x = .empty := by
    intro x hx
    rcases Nat.lt_or_ge x m.maxobjcnt with hlt | hge
    · exact .inl hlt
    · exact .inr (spare_opened ht (ht.max ▸ hge) hx)
  have hmono : m.maxobjcnt ≤ (m.allocated + 1) * m.objchkcnt := by
    rw [ht.max]
    exact Nat.mul_le_mul_right _ (Nat.le_succ _)
  have hspare : ∀ i' x : ℕ, m.Spare i' x → (m.opened i).Spare i' x := by
    rintro i' x ⟨hlt, hown, hempty⟩
    refine ⟨Nat.lt_of_lt_of_le hlt hmono, ?_, by rw [slot_opened_of_lt ht hlt]; exact hempty⟩
    show ((m.opened i).chunk (x / m.objchkcnt)).svcidx = _
    rw [svcidx_opened_of_lt m (ht.div_lt hlt)]
    exact hown
  refine ⟨?_, ?_, ?_, ?_, ?_, ?_, ?_⟩
  · rintro x hx o ho
    rcases hcases x hx with hlt | ⟨-, hempty⟩
    · rw [slot_opened_of_lt ht hlt] at ho
      exact h.object x hlt o ho
    · rw [hempty] at ho
      cases ho
  · rintro o x (ho : m.objId o = some x)
    obtain ⟨hlt, hobj⟩ := h.index o x ho
    rw [slot_opened_of_lt ht hlt]
    exact ⟨Nat.lt_of_lt_of_le hlt hmono, hobj⟩
  · intro x hx
    rcases hcases x hx with hlt | ⟨-, hempty⟩
    · rw [slot_opened_of_lt ht hlt]
      exact h.unique x hlt
    · rw [hempty]
      exact Nat.two_pow_pos 64
  · rintro q (hq : q < m.allocated + 1)
    rcases Nat.lt_succ_iff_lt_or_eq.1 hq with hlt | rfl
    · rw [objcnt_opened_of_lt m hlt, object_opened_of_lt m hlt]
      exact h.count q hlt
    · rw [chunk_opened_self]
      simp [ObjectChunk.allocateChunk, ObjectStub.empty]
  · refine (forall_update_iff m.svcdq fun i' v => i' < m.crtsvcidx → v.objcache.Nodup).2
      ⟨h.nodup i, fun i' _ => h.nodup i'⟩
  · refine (forall_update_iff m.svcdq fun i' v => i' < m.crtsvcidx →
      ∀ x ∈ v.objcache, (m.opened i).Spare i' x ∧ ¬ v.Ahead x).2 ⟨?_, ?_⟩
    · intro hi x hx
      have hsp := (h.cached i hi x hx).1
      refine ⟨hspare i x hsp, ?_⟩
      rintro ⟨c, e, hc, -, hle, -⟩
      cases hc
      have hlt := hsp.1
      rw [ht.max] at hlt
      omega
    · intro i' _ hi' x hx
      exact ⟨hspare i' x (h.cached i' hi' x hx).1, (h.cached i' hi' x hx).2⟩
  · refine (forall_update_iff m.svcdq fun i' v => i' < m.crtsvcidx →
      ∀ x : ℕ, v.Ahead x → (m.opened i).Spare i' x).2 ⟨?_, ?_⟩
    · rintro - x ⟨c, e, hc, he, hle, hlt⟩
      cases hc
      cases he
      refine (spare_opened ht (by omega) ?_).1
      rw [Nat.succ_mul]
      exact hlt
    · intro i' _ hi' x hx
      exact hspare i' x (h.ahead i' hi' x hx)

theorem Objects.opened (h : Objects m) {i : ℕ} (hi : i < m.crtsvcidx) :
    Objects (m.opened i) ∧ (m.opened i).Held (m.allocated * m.objchkcnt) ∧
      (m.opened i).Spare i (m.allocated * m.objchkcnt) := by
  have hslots := h.slots.opened h.tables (i := i)
  have hfirst : m.allocated * m.objchkcnt < (m.allocated + 1) * m.objchkcnt :=
    Nat.mul_lt_mul_of_pos_right (Nat.lt_succ_self _) h.tables.pos
  have hspare := (spare_opened h.tables (i := i) (Nat.le_refl _) hfirst).1
  have hobj : Objects (m.opened i) :=
    ⟨h.services.of_same (.of_stub rfl rfl rfl rfl rfl rfl),
      ⟨h.tables.pos, rfl, ⟨m.allocated, Nat.le_succ _, h.tables.cur⟩, rfl, h.tables.svccache,
        h.tables.chkcache⟩, h.links.opened hi, hslots⟩
  have hstub : ((m.opened i).svcdq i).objcache = (m.svcdq i).objcache ∧
      ((m.opened i).svcdq i).crtobjidx = some (m.allocated * m.objchkcnt + 1) := by
    simp [Manager.opened, svcdq_setStub]
  refine ⟨hobj, hslots.held_of_spare hspare ?_ ?_, hspare⟩
  · rw [hstub.1]
    intro hmem
    have hlt := (h.slots.cached i hi _ hmem).1.1
    rw [h.tables.max] at hlt
    exact Nat.lt_irrefl _ hlt
  · rintro ⟨c, e, hc, -, hle, -⟩
    rw [hstub.2] at hc
    cases hc
    omega

/-! ## Calls -/

/-- What no call takes back: slots, the services of chunks and the indices of services. -/
structure Extends (m m' : Manager S O R) : Prop where
  max : m.maxobjcnt ≤ m'.maxobjcnt
  owner : ∀ x < m.maxobjcnt, m'.owner x = m.owner x
  svcId : ∀ (s : S) (i : ℕ), m.svcId s = some i → m'.svcId s = some i

structure SameSlots (m m' : Manager S O R) : Prop where
  objId : m'.objId = m.objId
  slot : ∀ x < m.maxobjcnt, m'.slot x = m.slot x

/-- What a call does with the slots. -/
inductive Change [DecidableEq O] (m m' : Manager S O R) : Action S O R → Outcome O R → Prop where
  | service {s capacity b} :
      SameSlots m m' →
      Change m m' (.registerService s capacity) (.registered b)
  | failed {s o r scheduled e} :
      SameSlots m m' →
      Change m m' (.registerObject s o r scheduled) (.failed e)
  | absent {o b} :
      m.objId o = none →
      SameSlots m m' →
      Change m m' (.disableObjectVisits o) (.disabled b)
  | notify {uid os} (h : SameSlots m m') : Change m m' (.notify uid) (.visited os)
  | notifyAll {s os} (h : SameSlots m m') : Change m m' (.notifyAll s) (.visited os)
  | placed {s o r} {uid : UniqueId} {i} :
      m.objId o = none →
      m.svcId s = some i →
      m'.objId = update m.objId o (some uid.index) →
      uid.index < m'.maxobjcnt →
      m'.owner uid.index = some i →
      (uid.index < m.maxobjcnt →
        (m.slot uid.index).pobject = none ∧ (m.slot uid.index).unique = uid.unique) →
      m'.slot uid.index = ⟨some o, some r, uid.unique⟩ →
      (∀ x < m.maxobjcnt, x ≠ uid.index → m'.slot x = m.slot x) →
      Change m m' (.registerObject s o r true) (.id uid)
  | released {o x} (ho : m.objId o = some x) (hid : m'.objId = update m.objId o none) (hnew :
      m'.slot x = ⟨none, none, ((m.slot x).unique + 1) % uniqueLimit⟩) (hslot : ∀ x' : ℕ, x' ≠ x →
      m'.slot x' = m.slot x') : Change m m' (.unregisterObject o) (.released x)
  | disabled {o x b} :
      m.objId o = some x →
      m'.objId = m.objId →
      m'.slot x = { m.slot x with preactor := none } →
      (∀ x' : ℕ, x' ≠ x → m'.slot x' = m.slot x') →
      Change m m' (.disableObjectVisits o) (.disabled b)

theorem Extends.refl (m : Manager S O R) : Extends m m :=
  ⟨Nat.le_refl _, fun _ _ => rfl, fun _ _ h => h⟩

theorem Links.chunksOf_eq_nil (h : Links m) {i : ℕ} (hi : m.crtsvcidx ≤ i) : m.chunksOf i = [] := by
  refine filter_eq_nil_iff.2 fun q hq => ?_
  obtain ⟨i', hi', hown⟩ := h.owned q (mem_range.1 hq)
  rw [hown]
  simp only [decide_eq_true_eq, Option.some.injEq]
  omega

theorem Objects.addService (h : Objects m) {store : Copies (Option ℕ)}
    {ids : S → Option ℕ}
    (hservices : Services { m.setStub m.crtsvcidx (.resetTo s) with
      crtsvcidx := m.crtsvcidx + 1, svcstore := store, svcId := ids, svccnt := cnt }) :
    Objects { m.setStub m.crtsvcidx (.resetTo s) with
      crtsvcidx := m.crtsvcidx + 1, svcstore := store, svcId := ids, svccnt := cnt } := by
  have hold : ∀ {i : ℕ}, i < m.crtsvcidx + 1 → i ≠ m.crtsvcidx → i < m.crtsvcidx := by
    intro i hi hne
    omega
  have hnew : m.Linked (ServiceStub.resetTo s).firstchk (m.chunksOf m.crtsvcidx) := by
    rw [h.links.chunksOf_eq_nil (Nat.le_refl _)]
    rfl
  refine ⟨hservices, ⟨h.tables.pos, h.tables.cur, h.tables.other, h.tables.max, h.tables.svccache,
    h.tables.chkcache⟩, ⟨?_, ?_, ?_⟩, ⟨h.slots.object, h.slots.index, h.slots.unique,
    h.slots.count, ?_, ?_, ?_⟩⟩
  · intro q hq
    obtain ⟨i, hi, hown⟩ := h.links.owned q hq
    exact ⟨i, Nat.lt_succ_of_lt hi, hown⟩
  · have hlinked := (forall_update_iff m.svcdq fun i v => i < m.crtsvcidx + 1 →
      m.Linked v.firstchk (m.chunksOf i)).2 ⟨fun _ => hnew, fun i hne hi =>
        h.links.linked i (hold hi hne)⟩
    exact fun i hi => (hlinked i hi).congr fun _ _ => rfl
  · refine (forall_update_iff m.svcdq fun i v => i < m.crtsvcidx + 1 →
      v.lastchk = (m.chunksOf i).getLast?).2 ⟨fun _ => ?_, ?_⟩
    · rw [h.links.chunksOf_eq_nil (Nat.le_refl _)]
      rfl
    · intro i hne hi
      exact h.links.last i (hold hi hne)
  · refine (forall_update_iff m.svcdq fun i v => i < m.crtsvcidx + 1 →
      v.objcache.Nodup).2 ⟨fun _ => nodup_nil, fun i hne hi => h.slots.nodup i (hold hi hne)⟩
  · refine (forall_update_iff m.svcdq fun i v => i < m.crtsvcidx + 1 →
      ∀ x ∈ v.objcache, m.Spare i x ∧ ¬ v.Ahead x).2
      ⟨fun _ x hx => absurd hx not_mem_nil, fun i hne hi => h.slots.cached i (hold hi hne)⟩
  · refine (forall_update_iff m.svcdq fun i v => i < m.crtsvcidx + 1 →
      ∀ x : ℕ, v.Ahead x → m.Spare i x).2
      ⟨?_, fun i hne hi => h.slots.ahead i (hold hi hne)⟩
    rintro - x ⟨c, e, hc, -⟩
    cases hc

theorem takeServiceIndex_eq (hcache : m.svccache = []) {i : ℕ}
    (htake : m.takeServiceIndex capacity = some (m', i)) :
    i = m.crtsvcidx ∧ ∃ store : Copies (Option ℕ), m' = { m.setStub m.crtsvcidx .reset with
      crtsvcidx := m.crtsvcidx + 1, svcstore := store } := by
  unfold takeServiceIndex at htake
  rw [hcache] at htake
  dsimp only at htake
  split_ifs at htake
  all_goals
    cases htake
    exact ⟨rfl, _, rfl⟩

theorem Objects.registerService_eq [DecidableEq S] (h : Objects m) {b : Bool}
    (hreg : m.registerService s capacity = some (m', b)) :
    m' = m ∨ m.svcId s = none ∧ ∃ store : Copies (Option ℕ),
      m' = { m.setStub m.crtsvcidx (.resetTo s) with
        crtsvcidx := m.crtsvcidx + 1, svcstore := store
        svcId := update m.svcId s (some m.crtsvcidx), svccnt := m.svccnt + 1 } := by
  unfold Manager.registerService at hreg
  split_ifs at hreg with hsome
  · cases hreg
    exact .inl rfl
  · cases hreg
    exact .inl rfl
  obtain ⟨⟨m1, i⟩, htake, hreg⟩ := bind_eq_some_iff.1 hreg
  obtain ⟨rfl, store, rfl⟩ := takeServiceIndex_eq h.tables.svccache htake
  obtain ⟨p, hp, hreg⟩ := bind_eq_some_iff.1 hreg
  obtain ⟨h1, hlt, -⟩ := h.services.takeServiceIndex
    (fun i hi => by rw [h.tables.svccache] at hi; cases hi) htake
  obtain rfl : m.crtsvcidx = p := by
    rw [h1.table _ hlt] at hp
    exact Option.some.inj hp
  refine .inr ⟨by simpa using hsome, store, ?_⟩
  cases hreg
  simp only [Manager.setStub, update_idem]

theorem Objects.registerService [DecidableEq S] (h : Objects m) {b : Bool}
    (hreg : m.registerService s capacity = some (m', b)) :
    Objects m' ∧ Extends m m' ∧ SameSlots m m' := by
  obtain ⟨hservices, hkeep⟩ := h.services.registerService
    (fun _ i hi => by rw [h.tables.svccache] at hi; cases hi) hreg
  obtain rfl | ⟨hnone, store, rfl⟩ := h.registerService_eq hreg
  · exact ⟨h, .refl _, rfl, fun _ _ => rfl⟩
  · refine ⟨h.addService hservices, ⟨Nat.le_refl _, fun _ _ => rfl, ?_⟩, rfl, fun _ _ => rfl⟩
    intro s' i' hs'
    refine (hkeep s' ?_ i' hs').1
    rintro rfl
    rw [hnone] at hs'
    cases hs'

/-! ### Objects -/

theorem claim_of_owner {q i : ℕ} {c : Option ℕ} (h : (m.chunk q).svcidx = some i) :
    m.claim q c = m := by
  rw [claim, h, if_neg (by simp), setChunk, update_eq_self]

theorem Objects.takeObjectIndex (h : Objects m) {i x : ℕ} (hi : i < m.crtsvcidx)
    {m1 : Manager S O R} (htake : m.takeObjectIndex i = some (m1, x)) :
    ∃ m2 : Manager S O R, m2 = m1.claim (x / m1.objchkcnt) (some i) ∧ Objects m2 ∧ m2.Held x ∧
      m2.Spare i x ∧ Extends m m2 ∧ SameSlots m m2 := by
  unfold Manager.takeObjectIndex at htake
  split at htake
  next y rest hcache =>
    cases htake
    obtain ⟨hobj, hheld, hspare⟩ := h.takeCached hi hcache
    exact ⟨_, (claim_of_owner (m := m.setStub i _) hspare.2.1).symm, hobj, hheld, hspare,
      ⟨Nat.le_refl _, fun _ _ => rfl, fun _ _ h => h⟩, rfl, fun _ _ => rfl⟩
  next =>
    split at htake
    next y hnext =>
      cases htake
      obtain ⟨hobj, hheld, hspare⟩ := h.takeNext hi hnext
      exact ⟨_, (claim_of_owner (m := m.setStub i _) hspare.2.1).symm, hobj, hheld, hspare,
        ⟨Nat.le_refl _, fun _ _ => rfl, fun _ _ h => h⟩, rfl, fun _ _ => rfl⟩
    next =>
      obtain ⟨rfl, heq⟩ := openChunk_eq h hi htake
      obtain ⟨hobj, hheld, hspare⟩ := h.opened hi
      have hcnt : (m1.claim m.allocated (some i)).objchkcnt = m.objchkcnt := by
        rw [heq]
        rfl
      have hdiv : m.allocated * m.objchkcnt / m1.objchkcnt = m.allocated := by
        rw [show m1.objchkcnt = m.objchkcnt from hcnt, Nat.mul_div_cancel _ h.tables.pos]
      refine ⟨m.opened i, by rw [hdiv, heq], hobj, hheld, hspare, ⟨?_, ?_, fun _ _ h => h⟩, rfl,
        fun x hx => slot_opened_of_lt h.tables hx⟩
      · rw [h.tables.max]
        exact Nat.mul_le_mul_right _ (Nat.le_succ _)
      · exact fun x hx => svcidx_opened_of_lt m (h.tables.div_lt hx)

/-- The object goes to its slot in the chunk, or the index back to the stack. -/
theorem placeObject_eq [DecidableEq O] {p x : ℕ} {r : R} {scheduled : Bool}
    (hq : m.chkPtr x = some (x / m.objchkcnt))
    (hm' : m' = m.claim (x / m.objchkcnt) (m.svcId s)) :
    m.placeObject p x s o r scheduled = if scheduled then
      some ((m'.putSlot x ⟨some o, some r, (m'.slot x).unique⟩
          ((m'.chunk (x / m'.objchkcnt)).objcnt + 1) (update m'.objId o (some x))).setStub p
            { m'.svcdq p with objcnt := (m'.svcdq p).objcnt + 1 }, .id ⟨x, (m'.slot x).unique⟩)
    else some (m'.setStub p { m'.svcdq p with objcache := x :: (m'.svcdq p).objcache },
      .failed .objectSchedule) := by
  unfold placeObject
  rw [hq, hm']
  cases scheduled with
  | false => rfl
  | true =>
    simp [bind, claim, putSlot, slot, setChunk, setStub, update_idem]

theorem Objects.fill [DecidableEq O] (h : Objects m) {i x : ℕ} (hspare : m.Spare i x)
    (hheld : m.Held x) (ho : m.objId o = none) (r : R) :
    Objects (m.putSlot x ⟨some o, some r, (m.slot x).unique⟩
      ((m.chunk (x / m.objchkcnt)).objcnt + 1) (update m.objId o (some x))) := by
  obtain ⟨hlt, -, hempty⟩ := hspare
  refine h.putSlot (h.slots.putSlot hlt ?_ ?_ ?_ (h.slots.unique x hlt) ?_ (.inr hheld))
  · rintro o' ⟨⟩
    rw [update_self]
  · intro o' ho'
    rcases eq_or_ne o' o with rfl | hne
    · rfl
    · rw [update_of_ne hne] at ho'
      rw [(h.slots.index o' x ho').2] at hempty
      cases hempty
  · intro o' x' hne
    rcases eq_or_ne o' o with rfl | hne'
    · rw [update_self, ho]
      constructor
      · rintro ⟨⟩
        exact absurd rfl hne
      · rintro ⟨⟩
    · rw [update_of_ne hne']
  · rw [h.slots.count _ (h.tables.div_lt hlt)]
    symm
    refine countP_range_add_one (mod_lt x h.tables.pos) ?_ ?_ ?_
    · show (m.slot x).pobject.isSome = false
      rw [hempty]
      rfl
    · rw [update_self]
      rfl
    · intro j hj
      rw [update_of_ne hj]

theorem Objects.vacate [DecidableEq O] (h : Objects m) {x : ℕ} (ho : m.objId o = some x) :
    Objects (m.putSlot x ⟨none, none, ((m.slot x).unique + 1) % uniqueLimit⟩
      ((m.chunk (x / m.objchkcnt)).objcnt - 1) (update m.objId o none)) := by
  obtain ⟨hlt, hobj⟩ := h.slots.index o x ho
  refine h.putSlot (h.slots.putSlot hlt ?_ ?_ ?_ (Nat.mod_lt _ (Nat.two_pow_pos 64)) ?_ (.inl rfl))
  · rintro o' ⟨⟩
  · intro o' ho'
    rcases eq_or_ne o' o with rfl | hne
    · rw [update_self] at ho'
      cases ho'
    · rw [update_of_ne hne] at ho'
      rw [(h.slots.index o' x ho').2] at hobj
      exact absurd (Option.some.inj hobj) hne
  · intro o' x' hne
    rcases eq_or_ne o' o with rfl | hne'
    · rw [update_self, ho]
      constructor
      · rintro ⟨⟩
      · rintro ⟨⟩
        exact absurd rfl hne
    · rw [update_of_ne hne']
  · rw [h.slots.count _ (h.tables.div_lt hlt)]
    refine Nat.sub_eq_of_eq_add (countP_range_add_one (Nat.mod_lt x h.tables.pos) ?_ ?_ ?_)
    · rw [update_self]
      rfl
    · show (m.slot x).pobject.isSome
      rw [hobj]
      rfl
    · intro j hj
      rw [update_of_ne hj]

theorem Objects.registerObject [DecidableEq S] [DecidableEq O] (h : Objects m) {s : S} {o : O}
    {r : R} {scheduled : Bool} {out : Outcome O R}
    (hreg : m.registerObject s o r scheduled = some (m', out)) :
    Objects m' ∧ Extends m m' ∧ Change m m' (.registerObject s o r scheduled) out := by
  unfold Manager.registerObject at hreg
  split_ifs at hreg with ho
  split at hreg
  · cases hreg
    exact ⟨h, .refl _, .failed ⟨rfl, fun _ _ => rfl⟩⟩
  next i hs =>
  obtain ⟨p, hp, hreg⟩ := bind_eq_some_iff.1 hreg
  obtain ⟨hi, -⟩ := h.services.back s i hs
  obtain rfl : i = p := by
    rw [h.services.table i hi] at hp
    exact Option.some.inj hp
  split_ifs at hreg
  · cases hreg
    exact ⟨h, .refl _, .failed ⟨rfl, fun _ _ => rfl⟩⟩
  obtain ⟨⟨m1, x⟩, htake, hreg⟩ := bind_eq_some_iff.1 hreg
  obtain ⟨m2, hm2, hobj, hheld, hspare, hext, hsame⟩ := h.takeObjectIndex hi htake
  have hi2 := (hobj.services.back s i (hext.svcId s i hs)).1
  have hq : m1.chkPtr x = some (x / m1.objchkcnt) := by
    have hptr := hobj.tables.chkPtr hspare.1
    rw [hm2] at hptr
    exact hptr
  rw [← hs, ← (takeObjectIndex_same htake).svcId] at hm2
  dsimp only at hreg
  rw [placeObject_eq hq hm2] at hreg
  cases scheduled with
  | false =>
    cases hreg
    refine ⟨hobj.setStub rfl rfl rfl ?_ ?_ (hobj.slots.ahead i hi2),
      ⟨hext.max, hext.owner, hext.svcId⟩, .failed ⟨hsame.objId, hsame.slot⟩⟩
    · exact nodup_cons.2 ⟨(hheld i hi2).1, hobj.slots.nodup i hi2⟩
    · rintro x' (_ | ⟨_, hx'⟩)
      · exact ⟨hspare, (hheld i hi2).2⟩
      · exact hobj.slots.cached i hi2 x' hx'
  | true =>
    have ho2 : m2.objId o = none := by
      rw [hsame.objId]
      simpa using ho
    have hfill := hobj.fill hspare hheld ho2 r
    cases hreg
    refine ⟨hfill.setStub (u := { m2.svcdq i with objcnt := (m2.svcdq i).objcnt + 1 }) rfl rfl rfl
      (hfill.slots.nodup i hi2) (hfill.slots.cached i hi2) (hfill.slots.ahead i hi2),
      ⟨hext.max, ?_, hext.svcId⟩, ?_⟩
    · exact fun x' hx' => (svcidx_putSlot m2 (update m2.objId o (some x)) _).trans
        (hext.owner x' hx')
    · refine .placed (i := i) (by simpa using ho) hs ?_ hspare.1
        ((svcidx_putSlot m2 (update m2.objId o (some x)) _).trans hspare.2.1) ?_
        (slot_putSlot_self m2
          (update m2.objId o (some x))) ?_
      · rw [← hsame.objId]
        rfl
      · intro hx
        rw [← hsame.slot x hx]
        exact ⟨hspare.2.2, rfl⟩
      · exact fun x' hx' hne => (slot_putSlot_of_ne m2 (update m2.objId o (some x))
          hne).trans (hsame.slot x' hx')

theorem Objects.unregisterObject [DecidableEq O] (h : Objects m) {o : O} {x : ℕ}
    (hunreg : m.unregisterObject o = some (m', x)) :
    Objects m' ∧ Extends m m' ∧ Change m m' (.unregisterObject o) (.released x) := by
  unfold Manager.unregisterObject at hunreg
  obtain ⟨x', ho, hunreg⟩ := Option.bind_eq_some_iff.1 hunreg
  obtain ⟨q, hq, hunreg⟩ := Option.bind_eq_some_iff.1 hunreg
  obtain ⟨i, hown, hunreg⟩ := Option.bind_eq_some_iff.1 hunreg
  obtain ⟨p, hp, hunreg⟩ := Option.bind_eq_some_iff.1 hunreg
  obtain ⟨rfl, hlt⟩ := h.tables.of_chkPtr hq
  have hi : i < m.crtsvcidx := by
    obtain ⟨i', hi', hown'⟩ := h.links.owned _ (h.tables.div_lt hlt)
    rw [hown] at hown'
    exact Option.some.inj hown' ▸ hi'
  obtain rfl : i = p := by
    rw [h.services.table i hi] at hp
    exact Option.some.inj hp
  obtain ⟨-, hobj⟩ := h.slots.index o x' ho
  have hheld := h.slots.held_of_object hobj
  have hleft := h.vacate ho
  obtain ⟨rfl, rfl⟩ : x = x' ∧ m' = (m.putSlot x'
    ⟨none, none, ((m.slot x').unique + 1) % uniqueLimit⟩
      ((m.chunk (x' / m.objchkcnt)).objcnt - 1) (Function.update m.objId o none)).setStub i
        { m.svcdq i with
          objcache := x' :: (m.svcdq i).objcache, objcnt := (m.svcdq i).objcnt - 1 } := by
    cases hunreg
    exact ⟨rfl, rfl⟩
  refine ⟨hleft.setStub rfl rfl rfl ?_ ?_ (hleft.slots.ahead i hi), ⟨Nat.le_refl _, ?_, ?_⟩, ?_⟩
  · exact List.nodup_cons.2 ⟨(hheld i hi).1, h.slots.nodup i hi⟩
  · rintro y (_ | ⟨_, hy⟩)
    · exact ⟨⟨hlt, (svcidx_putSlot m _ _).trans hown, by rw [slot_putSlot_self]⟩, (hheld i hi).2⟩
    · exact hleft.slots.cached i hi y hy
  · exact fun y _ => svcidx_putSlot m (Function.update m.objId o none) _
  · exact fun _ _ h => h
  · exact .released ho rfl (slot_putSlot_self m (Function.update m.objId o none)) fun y hy =>
      slot_putSlot_of_ne m (Function.update m.objId o none) hy

theorem Objects.disableObjectVisits [DecidableEq O] (h : Objects m) {o : O} {b : Bool}
    (hdis : m.disableObjectVisits o = some (m', b)) :
    Objects m' ∧ Extends m m' ∧ Change m m' (.disableObjectVisits o) (.disabled b) := by
  unfold Manager.disableObjectVisits at hdis
  split at hdis
  next ho =>
    cases hdis
    exact ⟨h, .refl _, .absent ho ⟨rfl, fun _ _ => rfl⟩⟩
  next x ho =>
  obtain ⟨q, hq, hdis⟩ := Option.bind_eq_some_iff.1 hdis
  obtain ⟨rfl, hlt⟩ := h.tables.of_chkPtr hq
  obtain ⟨-, hobj⟩ := h.slots.index o x ho
  have heq : m' = m.putSlot x { m.slot x with preactor := none }
      (m.chunk (x / m.objchkcnt)).objcnt m.objId := by
    cases hdis
    rfl
  subst heq
  refine ⟨h.putSlot (h.slots.putSlot hlt (h.slots.object x hlt) (fun o' ho' => (h.slots.index o' x
    ho').2) (fun _ _ _ => Iff.rfl) (h.slots.unique x hlt) ?_ (.inr (h.slots.held_of_object hobj))),
    ⟨Nat.le_refl _, fun y _ => svcidx_putSlot m m.objId _, fun _ _ h => h⟩,
    .disabled ho rfl (slot_putSlot_self m m.objId) fun y hy => slot_putSlot_of_ne m m.objId hy⟩
  rw [h.slots.count _ (h.tables.div_lt hlt)]
  refine List.countP_congr fun j _ => ?_
  rcases eq_or_ne j (x % m.objchkcnt) with rfl | hne
  · rw [Function.update_self]
    rfl
  · rw [Function.update_of_ne hne]

end Manager

end SolidFrame.Frame
