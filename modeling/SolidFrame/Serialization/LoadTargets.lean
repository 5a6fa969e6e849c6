/-
  SolidFrame formalization — loading into targets.

  `Takes tm Q t o`: a target of the calls `t` that is ready takes what is sent for
  the object `o`, and then holds it.  Containers, arrays, structures and pairs
  take their parts one after the other (`Loads.loadContainer`, `Loads.loadArray`,
  `Takes.load`, `Takes.pair`); `takes` puts them together.
-/
import SolidFrame.Serialization.LoadRules

namespace SolidFrame

open DeserializerBase List Mem

/-! ## Pushed targets -/

/-- What pushing does to a target: strings are cleared. -/
def clearStr : Ty → Obj → Obj
  | .str, .str _ => .str []
  | .utf8, .str _ => .str []
  | .pair t u, .pair a b => .pair (clearStr t a) (clearStr u b)
  | _, o => o

variable {a b o : Obj} {os : List Obj} {n : ℕ} {l : Loc}

section Memory
variable {m : Mem} {l : Loc} {o v : Obj}

theorem Mem.set_get (h : m.get l = some o) : m.set l o = m := by
  have hid := upd_eq_set (f := id) h
  rwa [upd_id, id, eq_comm] at hid

theorem Mem.set_first (m : Mem) (l : Loc) (a b v : Obj) :
    (m.set l (.pair a b)).set (l.sub 0) v = m.set l (.pair v b) := by
  rw [set, upd_sub, upd_set]
  rfl

theorem Mem.set_second (m : Mem) (l : Loc) (a b v : Obj) :
    (m.set l (.pair a b)).set (l.sub 1) v = m.set l (.pair a v) := by
  rw [set, upd_sub, upd_set]
  rfl

theorem Mem.get_first (h : m.get l = some (.pair a b)) : m.get (l.sub 0) = some a := by
  rw [get_sub, h]
  rfl

theorem Mem.get_second (h : m.get l = some (.pair a b)) : m.get (l.sub 1) = some b := by
  rw [get_sub, h]
  rfl

theorem Mem.set_elem (m : Mem) (l : Loc) (os : List Obj) (n i : ℕ) (v : Obj) :
    (m.set l (.arr os n)).set (l.sub i) v = m.set l (.arr (os.set i v) n) := by
  have hmod : os.modify i (Obj.upd [] fun _ => v) = os.set i v := by
    apply ext_getElem?
    intro j
    rw [getElem?_modify, getElem?_set]
    by_cases hj : i = j
    · subst hj
      by_cases hi : i < os.length
      · simp [hi, Obj.upd]
      · simp [hi]
    · simp [hj]
  rw [set, upd_sub, upd_set, Obj.upd, hmod]

theorem Mem.get_elem {i : ℕ} (h : m.get l = some (.arr os n)) :
    m.get (l.sub i) = os[i]? := by
  rw [get_sub, h]
  simp only [Option.bind_some, Obj.get]
  cases os[i]? <;> rfl

end Memory

theorem Mem.clearStrings_eq {m : Mem} {t : Ty} (h : m.get l = some o)
    (hs : Shape t o) : m.clearStrings t l = m.set l (clearStr t o) := by
  induction t generalizing m l o with
  | str => cases o with
    | str c => rfl
    | _ => exact hs.elim
  | utf8 => cases o with
    | str c => rfl
    | _ => exact hs.elim
  | pair t u iht ihu => cases o with
    | pair a b =>
      have hu := ihu (get_second h) hs.2
      have hset : m.set (l.sub 1) (clearStr u b) = m.set l (.pair a (clearStr u b)) := by
        conv_lhs => rw [← set_get h]
        rw [set_second]
      have hget : (m.set l (.pair a (clearStr u b))).get (l.sub 0) = some a :=
        get_first (get_set h)
      rw [clearStrings, hu, hset, iht hget hs.1, set_first]
      rfl
    | _ => exact hs.elim
  | _ => cases o <;> first | exact hs.elim | exact (set_get h).symm

/-- The functions that are pushed for a target do not depend on the memory: no stream
    is null. -/
theorem DFrame.ofTy_eq {m : Mem} {t : Ty} (h : m.get l = some o)
    (hr : Shape t o) : DFrame.ofTy m t l = DFrame.ofTy ⟨[], []⟩ t l := by
  induction t generalizing l o with
  | pair t u iht ihu => cases o with
    | pair a b =>
      rw [DFrame.ofTy, iht (Mem.get_first h) hr.1, ihu (Mem.get_second h) hr.2]
      rfl
    | _ => exact hr.elim
  | stream src dst => cases o with
    | ostream s =>
      have hnone : (⟨[], []⟩ : Mem).get l = none := by cases hl : l.root <;> simp [Mem.get, hl]
      cases dst <;> simp only [DFrame.ofTy, h, hnone]
    | _ => exact hr.elim
  | _ => rfl

theorem DeserializerBase.push_eq {d : DeserializerBase} {t : Ty}
    (h : d.mem.get l = some o) (hr : Shape t o) :
    d.push t l = { d with
      fstk := (DFrame.ofTy ⟨[], []⟩ t l).1 ++ d.fstk
      estk := (DFrame.ofTy ⟨[], []⟩ t l).2 ++ d.estk
      mem := d.mem.set l (clearStr t o) } := by
  rw [push, DFrame.ofTy_eq h hr, clearStrings_eq h hr]

/-- The limits let a deserializer load the object: a string or bits that reach the limit
    are refused, and elements that do not fit the buffer of `ExtendedData` cannot be deleted. -/
def Loadable (L : Limits) : Ty → Obj → Prop
  | .str, .str c => c.length < L.stringlimit
  | .utf8, .str c => c.length ≤ L.stringlimit
  | .bitset _, .bits bs => bs.length < L.containerlimit
  | .bitvec, .bits bs => bs.length < L.containerlimit
  | .container _ size t, .seq os =>
    os.length ≤ L.containerlimit ∧ (os ≠ [] → size ≤ maxGenericSize) ∧ ∀ o ∈ os, Loadable L t o
  | .array _ _ t, .arr os n => n ≤ L.containerlimit ∧ ∀ o ∈ os.take n, Loadable L t o
  | .pair t u, .pair a b => Loadable L t a ∧ Loadable L u b
  | .struct _ t, o => Loadable L t o
  | _, _ => True

/-- A target, ready to hold what is sent when it is to hold it. -/
def Target (Q : Goal) (t : Ty) (old : Obj) : Prop := Shape t old ∧ (Q.faithful → Ready t old)

/-- What the target is after it was loaded. -/
def Held (Q : Goal) (t : Ty) (o v : Obj) : Prop := Shape t v ∧ (Q.faithful → norm t v = norm t o)

/-- A target takes what is sent for the object `o`, unless the limits forbid it, and then
    holds it. -/
def Takes (tm : TypeMap) (Q : Goal) (t : Ty) (o : Obj) : Prop :=
  ∀ (m : Mem) (l : Loc) (old : Obj) (fs : List DFrame) (es : List DExt) (pl : List Wire),
    m.get l = some old → Target Q t old →
    (Loadable Q.lmts t o → ∀ v, Held Q t o v → Loads tm Q fs es (m.set l v) pl) →
    Loads tm Q ((DFrame.ofTy ⟨[], []⟩ t l).1 ++ fs) ((DFrame.ofTy ⟨[], []⟩ t l).2 ++ es)
      (m.set l (clearStr t old)) (wire t o ++ pl)

section Takes
variable {tm : TypeMap} {Q : Goal} {fs : List DFrame} {es : List DExt} {m : Mem}
  {pl : List Wire} {l : Loc} {t : Ty}

theorem Takes.of_keeps (hkeeps : ∀ x, clearStr t x = x)
    (h : ∀ (m : Mem) (l : Loc) (old : Obj) (fs : List DFrame) (es : List DExt) (pl : List Wire),
      m.get l = some old → Target Q t old →
      (Loadable Q.lmts t o → ∀ v, Held Q t o v → Loads tm Q fs es (m.set l v) pl) →
      Loads tm Q ((DFrame.ofTy ⟨[], []⟩ t l).1 ++ fs) ((DFrame.ofTy ⟨[], []⟩ t l).2 ++ es) m
        (wire t o ++ pl)) : Takes tm Q t o := by
  intro m l old fs es pl hget htarget hend
  rw [hkeeps, set_get hget]
  exact h m l old fs es pl hget htarget hend

/-! ## Containers -/

variable {old : Obj}

theorem insertEnd_pushTemp {acc : List Obj} (hget : m.get l = some old) (v : Obj) :
    (((m.set l (.seq acc)).pushTemp v).upd l (Obj.insertEnd v)).upd ⟨.temp m.temps.length, []⟩
      (moved t) = (m.set l (.seq (acc ++ [v]))).pushTemp (moved t v) := by
  have hlen : ∀ o, (m.set l o).temps.length = m.temps.length := fun o => m.temps_length_upd l _
  rw [upd_pushTemp (get_set hget), upd_set, Obj.insertEnd, ← hlen (.seq (acc ++ [v])), upd_topTemp]

def AllHeld (Q : Goal) (t : Ty) (os vs : List Obj) : Prop :=
  (∀ v ∈ vs, Shape t v) ∧ (Q.faithful → vs.map (norm t) = os.map (norm t))

theorem AllHeld.cons {v : Obj} {vs : List Obj} (h : Held Q t o v) (hs : AllHeld Q t os vs) :
    AllHeld Q t (o :: os) (v :: vs) :=
  ⟨forall_mem_cons.2 ⟨h.1, hs.1⟩, fun hf => by
    rw [map_cons, map_cons, h.2 hf, hs.2 hf]⟩

theorem Held.moved {v : Obj} (hmv : Q.faithful → MovesOut t) (h : Held Q t o v) :
    Target Q t (moved t v) :=
  ⟨shape_moved h.1, fun hf => ready_moved (hmv hf) h.1⟩

/-- The elements of a container, one after the other; `x` is what `generic()` made
    or what the last element left behind. -/
theorem Loads.elements {size : ℕ} {x : Obj} {acc rest : List Obj}
    (hsize : Q.met → size ≤ maxGenericSize) (hmv : Q.faithful → MovesOut t)
    (hget : m.get l = some old) (hx : Target Q t x) (hel : ∀ o' ∈ o :: rest, Takes tm Q t o')
    (h : size ≤ maxGenericSize → (∀ o' ∈ o :: rest, Loadable Q.lmts t o') →
      ∀ vs, AllHeld Q t (o :: rest) vs → Loads tm Q fs es (m.set l (.seq (acc ++ vs))) pl) :
    Loads tm Q
      ((DFrame.ofTy ⟨[], []⟩ t ⟨.temp m.temps.length, []⟩).1 ++ .loadContainerContinue t l :: fs)
      ((DFrame.ofTy ⟨[], []⟩ t ⟨.temp m.temps.length, []⟩).2 ++
        .val (rest.length + 1) (some size) :: es)
      ((m.set l (.seq acc)).pushTemp (clearStr t x))
      (wire t o ++ (rest.flatMap (wire t) ++ pl)) := by
  have hlen : ∀ o, (m.set l o).temps.length = m.temps.length := fun o => m.temps_length_upd l _
  have htop : ∀ o v, ((m.set l o).pushTemp v).topTemp = ⟨.temp m.temps.length, []⟩ := by
    intro o v; rw [Mem.topTemp_pushTemp, hlen]
  have hgettop : ∀ o v, ((m.set l o).pushTemp v).get ⟨.temp m.temps.length, []⟩ = some v := by
    intro o v; rw [← hlen o, Mem.get_topTemp]
  have hsettop : ∀ o v w, ((m.set l o).pushTemp v).set ⟨.temp m.temps.length, []⟩ w =
      (m.set l o).pushTemp w := by
    intro o v w; rw [← hlen o, Mem.set, Mem.upd_topTemp]
  induction rest generalizing o acc x with
  | nil =>
    have htake := hel o List.mem_cons_self ((m.set l (.seq acc)).pushTemp x)
      ⟨.temp m.temps.length, []⟩ x (.loadContainerContinue t l :: fs) (.val 1 (some size) :: es) pl
      (hgettop _ _) hx
    rw [hsettop] at htake
    refine htake fun hload v hheld => ?_
    rw [hsettop]
    by_cases hbuf : size ≤ maxGenericSize
    · refine .of_success (.loadContainerContinue t l) (fun d hc avail => ?_)
        (h hbuf (by simpa using hload) [v] (.cons hheld ⟨by simp, fun _ => rfl⟩))
      simp [DeserializerBase.step, DeserializerBase.reads, DeserializerBase.loadContainerContinue,
        DeserializerBase.popSuccess, DeserializerBase.popExt, htop, hgettop, Option.getD_some,
        insertEnd_pushTemp hget, if_pos hbuf, Mem.popTemp_pushTemp]
    · -- the element is not deleted by its own address
      refine .refused (fun hmet => hbuf (hsize hmet)) fun d hc avail => .inl ?_
      simp [DeserializerBase.step, DeserializerBase.reads, DeserializerBase.loadContainerContinue,
        DeserializerBase.popSuccess, DeserializerBase.popExt, htop, hgettop, Option.getD_some,
        if_neg hbuf, Option.map_none]
  | cons o' rest ih =>
    have htake := hel o List.mem_cons_self ((m.set l (.seq acc)).pushTemp x)
      ⟨.temp m.temps.length, []⟩ x (.loadContainerContinue t l :: fs)
      (.val (rest.length + 1 + 1) (some size) :: es)
      (wire t o' ++ (rest.flatMap (wire t) ++ pl)) (hgettop _ _) hx
    rw [hsettop] at htake
    rw [List.flatMap_cons, List.append_assoc]
    refine htake fun hload v hheld => ?_
    rw [hsettop]
    have htarget := hheld.moved hmv
    have hnext : size ≤ maxGenericSize → (∀ o'' ∈ o' :: rest, Loadable Q.lmts t o'') →
        ∀ vs, AllHeld Q t (o' :: rest) vs →
        Loads tm Q fs es (m.set l (.seq ((acc ++ [v]) ++ vs))) pl := by
      intro hbuf hloads vs hvs
      rw [List.append_assoc]
      exact h hbuf (List.forall_mem_cons.2 ⟨hload, hloads⟩) (v :: vs) (AllHeld.cons hheld hvs)
    have hrec := ih htarget (fun o'' ho'' => hel o'' (List.mem_cons_of_mem _ ho'')) hnext
    refine .of_cont (fun d hc avail => ?_) hrec
    have hpush := DeserializerBase.push_eq (d := { d with
      fstk := .loadContainerContinue t l :: fs
      estk := .val (rest.length + 1) (some size) :: es
      mem := (m.set l (.seq (acc ++ [v]))).pushTemp (moved t v) }) (hgettop _ _) htarget.1
    simp only [hsettop] at hpush
    simp [DeserializerBase.step, DeserializerBase.reads, DeserializerBase.loadContainerContinue,
      htop, hgettop, Option.getD_some, insertEnd_pushTemp hget, Nat.add_eq_zero_iff,
      one_ne_zero, hpush]

theorem Loads.loadContainer {size : ℕ} {olds : List Obj}
    (hlen : os.length ≤ maxValueWithoutCrc .w64)
    (hload : Q.met → Loadable Q.lmts (.container false size t) (.seq os))
    (hmv : Q.faithful → MovesOut t) (hget : m.get l = some (.seq olds))
    (hdflt : os ≠ [] → Target Q t (dflt t)) (hel : ∀ o ∈ os, Takes tm Q t o)
    (h : Loadable Q.lmts (.container false size t) (.seq os) → ∀ vs, AllHeld Q t os vs →
      Loads tm Q fs es (m.set l (.seq (olds ++ vs))) pl) :
    Loads tm Q (.loadContainer false size t l :: fs) es m
      (bytes (sizeBytes os.length) ++ (os.flatMap (wire t) ++ pl)) := by
  refine .of_cont (fun d hc avail => rfl) (.announced isValue_val hlen fun crcsz hcrc => ?_)
  have hne : ¬ os.length = invalidSize := (lt_invalidSize hlen).ne
  by_cases hlim : os.length ≤ Q.lmts.containerlimit
  rotate_left
  · refine .refused (fun hmet => hlim (hload hmet).1) fun d hc avail => ?_
    simp only [Refused, DeserializerBase.step, DeserializerBase.reads,
      DeserializerBase.loadContainerBegin, checkSize_compute hcrc, if_neg hne, hc.lmts,
      if_pos (Nat.not_le.1 hlim), DeserializerBase.fail, Nat.lt_irrefl, if_false,
      Bool.false_eq_true, false_and]
    exact .inr ⟨_, _, rfl⟩
  have hlim' := Nat.not_lt.2 hlim
  cases os with
  | nil =>
    have hnil := h ⟨hlim, fun hne => absurd rfl hne, by simp⟩ [] ⟨by simp, fun _ => rfl⟩
    rw [List.append_nil, Mem.set_get hget] at hnil
    rw [List.length_nil] at hcrc hne hlim'
    refine .of_success (.loadContainerBegin false size t l) (fun d hc avail => ?_) hnil
    simp only [DeserializerBase.step, DeserializerBase.reads, DeserializerBase.loadContainerBegin,
      DeserializerBase.popSuccess, DeserializerBase.popExt, checkSize_compute hcrc, if_neg hne,
      hc.lmts, if_neg hlim', Nat.lt_irrefl, if_false, if_true,
      Bool.false_eq_true, false_and, Option.map_some]
  | cons o rest =>
    have hx := hdflt (by simp)
    have hrec := Loads.elements (fun hmet => (hload hmet).2.1 (by simp)) hmv hget hx hel
      fun hbuf hloads vs hvs => h ⟨hlim, fun _ => hbuf, hloads⟩ vs hvs
    rw [Mem.set_get hget] at hrec
    rw [List.flatMap_cons, List.append_assoc]
    rw [List.length_cons] at hcrc hne hlim'
    refine .of_cont (fun d hc avail => ?_) hrec
    have hpush := DeserializerBase.push_eq (d := { d with
      fstk := .loadContainerContinue t l :: fs
      estk := .val (rest.length + 1) (some size) :: es
      mem := m.pushTemp (dflt t) }) (Mem.get_topTemp m (dflt t)) hx.1
    rw [Mem.set, Mem.upd_topTemp] at hpush
    have hlim'' : ¬ d.lmts.containerlimit < rest.length + 1 := by rw [hc.lmts]; exact hlim'
    simp only [DeserializerBase.step, DeserializerBase.reads, DeserializerBase.loadContainerBegin,
      checkSize_compute hcrc, if_neg hne, if_neg hlim'', Nat.lt_irrefl, if_false,
      Bool.false_eq_true, Nat.add_eq_zero_iff, one_ne_zero, and_false, Mem.topTemp_pushTemp, hpush]

/-! ## Arrays -/

theorem Loads.loadArrayContinue {pre post rest : List Obj}
    (hget : m.get l = some old) (hn : pre.length + rest.length = n)
    (hle : rest.length ≤ post.length) (hpost : ∀ x ∈ post, Target Q t x)
    (hel : ∀ o ∈ rest, Takes tm Q t o)
    (h : (∀ o ∈ rest, Loadable Q.lmts t o) → ∀ vs, vs.length = post.length → (∀ v ∈ vs, Shape t v) →
      (Q.faithful → (vs.take rest.length).map (norm t) = rest.map (norm t)) →
      Loads tm Q fs es (m.set l (.arr (pre ++ vs) n)) pl) :
    Loads tm Q (.loadArrayContinue t l :: fs) (.vals n pre.length :: es)
      (m.set l (.arr (pre ++ post) n)) (rest.flatMap (wire t) ++ pl) := by
  induction rest generalizing pre post with
  | nil =>
    refine .of_success (.loadArrayContinue t l) (fun d hc avail => ?_)
      (h (by simp) post rfl (fun v hv => (hpost v hv).1) fun _ => rfl)
    have hlt : ¬ pre.length < n := by rw [← hn]; simp
    simp [DeserializerBase.step, DeserializerBase.reads, DeserializerBase.loadArrayContinue,
      DeserializerBase.popSuccess, DeserializerBase.popExt, if_neg hlt]
  | cons o rest ih =>
    obtain _ | ⟨x, post⟩ := post
    · simp at hle
    rw [List.length_cons] at hn hle
    have hset : ∀ y v, (m.set l (.arr (pre ++ y :: post) n)).set (l.sub pre.length) v =
        m.set l (.arr (pre ++ v :: post) n) := by
      intro y v
      rw [Mem.set_elem, List.set_append_right _ _ (Nat.le_refl _), Nat.sub_self, List.set_cons_zero]
    have hgetx : (m.set l (.arr (pre ++ x :: post) n)).get (l.sub pre.length) = some x := by
      rw [Mem.get_elem (Mem.get_set hget), List.getElem?_append_right (Nat.le_refl _), Nat.sub_self,
        List.getElem?_cons_zero]
    have hx := hpost x List.mem_cons_self
    have htake := hel o List.mem_cons_self _ _ x (.loadArrayContinue t l :: fs)
      (.vals n (pre.length + 1) :: es) (rest.flatMap (wire t) ++ pl) hgetx hx
    have hrest : Loadable Q.lmts t o → ∀ v, Held Q t o v →
        Loads tm Q (.loadArrayContinue t l :: fs) (.vals n (pre.length + 1) :: es)
          (m.set l (.arr (pre ++ v :: post) n)) (rest.flatMap (wire t) ++ pl) := by
      intro hload v hheld
      have hrec : Loads tm Q (.loadArrayContinue t l :: fs) (.vals n (pre ++ [v]).length :: es)
          (m.set l (.arr ((pre ++ [v]) ++ post) n)) (rest.flatMap (wire t) ++ pl) := by
        refine ih (by simp; omega) (by simp at hle; omega)
          (fun y hy => hpost y (List.mem_cons_of_mem _ hy))
          (fun y hy => hel y (List.mem_cons_of_mem _ hy)) fun hloads vs hlen hvs hnorms => ?_
        have hv' := h (List.forall_mem_cons.2 ⟨hload, hloads⟩) (v :: vs) (by simp [hlen])
          (List.forall_mem_cons.2 ⟨hheld.1, hvs⟩)
          (fun hf => by simp [hheld.2 hf, hnorms hf])
        rwa [List.append_assoc]
      simpa using hrec
    simp only [hset] at htake
    have hbody := htake hrest
    rw [List.flatMap_cons, List.append_assoc]
    refine .of_cont (fun d hc avail => ?_) hbody
    have hpush := DeserializerBase.push_eq (d := { d with
      fstk := .loadArrayContinue t l :: fs
      estk := .vals n (pre.length + 1) :: es
      mem := m.set l (.arr (pre ++ x :: post) n) }) hgetx hx.1
    simp only [hset] at hpush
    have hlt : pre.length < n := by omega
    simp [DeserializerBase.step, DeserializerBase.reads, DeserializerBase.loadArrayContinue,
      if_pos hlt, hpush]

theorem Loads.loadArray {n0 : ℕ} {olds : List Obj} (hget : m.get l = some (.arr olds n0))
    (hlen : n ≤ maxValueWithoutCrc .w64) (hn : n ≤ os.length) (hcap : olds.length = os.length)
    (hlim : Q.met → n ≤ Q.lmts.containerlimit) (hready : ∀ x ∈ olds, Target Q t x)
    (hel : ∀ o ∈ os.take n, Takes tm Q t o)
    (h : n ≤ Q.lmts.containerlimit → (∀ o ∈ os.take n, Loadable Q.lmts t o) →
      ∀ vs, vs.length = os.length → (∀ v ∈ vs, Shape t v) →
      (Q.faithful → (vs.take n).map (norm t) = (os.take n).map (norm t)) →
      Loads tm Q fs es (m.set l (.arr vs n)) pl) :
    Loads tm Q (.loadCross .w64 .top :: .loadArray false t l :: fs) (.vals 0 0 :: es) m
      (bytes (sizeBytes n) ++ ((os.take n).flatMap (wire t) ++ pl)) := by
  suffices hann : ∀ crcsz, computeValueWithCrc .w64 n = some crcsz →
      Loads tm Q (.loadArray false t l :: fs) (.vals crcsz 0 :: es) m
        ((os.take n).flatMap (wire t) ++ pl) by
    have := Loads.announced (x := 0) (isValue_vals 0) hlen hann
    exact this
  intro crcsz hcrc
  have hne : ¬ n = invalidSize := (lt_invalidSize hlen).ne
  by_cases hfit : n ≤ Q.lmts.containerlimit
  · have htake : (os.take n).length = n := List.length_take_of_le hn
    have hloop : Loads tm Q (.loadArrayContinue t l :: fs) (.vals n ([] : List Obj).length :: es)
        (m.set l (.arr ([] ++ olds) n)) ((os.take n).flatMap (wire t) ++ pl) := by
      refine .loadArrayContinue hget (by simpa using hn) (by rw [htake, hcap]; exact hn) hready hel
        fun hloads vs hvs hshape hnorm => ?_
      rw [htake] at hnorm
      exact h hfit hloads vs (hvs.trans hcap) hshape hnorm
    refine .of_cont (fun d hc avail => ?_) hloop
    have hmem : m.upd l (Obj.setSize n) = m.set l (.arr olds n) := Mem.upd_eq_set hget
    simp [DeserializerBase.step, DeserializerBase.reads, DeserializerBase.loadArray,
      checkSize_compute hcrc, if_neg hne, hc.lmts, if_neg (Nat.not_lt.2 hfit), hmem]
  · refine .refused (fun hmet => hfit (hlim hmet)) fun d hc avail => ?_
    simp only [Refused, DeserializerBase.step, DeserializerBase.reads,
      DeserializerBase.loadArray, checkSize_compute hcrc, if_neg hne, hc.lmts,
      if_pos (Nat.not_le.1 hfit), DeserializerBase.fail, Nat.lt_irrefl, if_false,
      Bool.false_eq_true, false_and]
    exact .inr ⟨_, _, rfl⟩

/-! ## Structures, pairs and streams -/

theorem Takes.load {mv : Bool} (ht : Takes tm Q t o) : Takes tm Q (.struct mv t) o := by
  refine .of_keeps (fun x => by cases x <;> rfl) fun m l old fs es pl hget hready h => ?_
  rw [DFrame.ofTy, cons_append, nil_append, nil_append]
  change Target Q t old at hready
  refine .of_cont (fun d hc avail => ?_) (ht m l old fs es pl hget hready h)
  have hpush := push_eq (d := { d with fstk := fs, estk := es, mem := m }) hget hready.1
  simp [step, reads, hpush]

theorem Target.pair {u : Ty} {x y : Obj} (h : Target Q (.pair t u) (.pair x y)) :
    Target Q t x ∧ Target Q u y :=
  ⟨⟨h.1.1, fun hf => (h.2 hf).1⟩, ⟨h.1.2, fun hf => (h.2 hf).2⟩⟩

theorem Takes.pair {u : Ty} (ha : Takes tm Q t a) (hb : Takes tm Q u b) :
    Takes tm Q (.pair t u) (.pair a b) := by
  intro m l old fs es pl hget hready h
  cases old with
  | pair x y =>
    obtain ⟨hx, hy⟩ := hready.pair
    simp only [clearStr, DFrame.ofTy, wire, append_assoc]
    have hfirst := ha (m.set l (.pair x (clearStr u y))) (l.sub 0) x
      ((DFrame.ofTy ⟨[], []⟩ u (l.sub 1)).1 ++ fs) ((DFrame.ofTy ⟨[], []⟩ u (l.sub 1)).2 ++ es)
      (wire u b ++ pl) (get_first (get_set hget)) hx
    simp only [set_first] at hfirst
    refine hfirst fun hla v hv => ?_
    have hsecond := hb (m.set l (.pair v y)) (l.sub 1) y fs es pl (get_second (get_set hget)) hy
    simp only [set_second] at hsecond
    exact hsecond fun hlb w hw => h ⟨hla, hlb⟩ (.pair v w)
      ⟨⟨hv.1, hw.1⟩, fun hf => by rw [norm, norm, hv.2 hf, hw.2 hf]⟩
  | _ => exact hready.1.elim

theorem Takes.stream (hunlim : Q.lmts.streamlimit = invalidSize) (hfaith : Q.faithful)
    (src : Option (ℕ × ℕ)) (s : IStream) : Takes tm Q (.stream src none) (.istream s) := by
  intro m l old fs es pl hget hready h
  cases old with
  | ostream os =>
    cases hready.2 hfaith
    have hnone : (⟨[], []⟩ : Mem).get l = none := by cases hl : l.root <;> simp [Mem.get, hl]
    have hend := h trivial (.ostream (.received (requested s src))) ⟨trivial, fun _ => rfl⟩
    have hload : Loads tm Q (.loadStream l invalidSize :: fs) es (m.set l (.ostream (.received [])))
        (.chunks (requested s src) :: pl) := .loadStream hunlim hget hend
    have hmem : m.set l (.ostream (.received [])) = m := Mem.set_get hget
    have hseek : m.upd l (Obj.mapStream (·.seekp 0)) = m := by
      rw [Mem.upd_eq_set hget]
      exact hmem
    have hzero : ¬ 0 = invalidSize := by decide
    rw [hmem] at hload
    simp only [DFrame.ofTy, hnone, clearStr, Mem.set_get hget, wire, List.cons_append,
      List.nil_append]
    intro d hc
    refine .silent { d with
      fstk := .loadStreamBegin (some l) 0 :: .loadStream l invalidSize :: fs, estk := es, mem := m,
      streamsz := 0 } (by simp) hc.update (fun avail => ?_) (.inl rfl) ?_
    · simp [DeserializerBase.step, DeserializerBase.reads, DeserializerBase.loadStreamBegin, hseek,
        hget, Obj.stream?, OStream.tellp, hc.streamerr]
    · exact hload { d with streamsz := 0 } hc.update
  | _ => exact hready.1.elim

/-- **A target takes what is sent for an object**, unless the limits forbid it. -/
theorem takes (ht : HasTy t o) (hfit : Fits t o)
    (hload : Q.met → Loadable Q.lmts t o) (hbuf : Q.faithful → InBuffer t)
    (hstream : Streamless t ∨ Q.lmts.streamlimit = invalidSize ∧ Q.faithful) :
    Takes tm Q t o := by
  induction t generalizing o with
  | struct mv t ih => exact .load (ih ht hfit hload hbuf hstream)
  | pair t u iht ihu => cases o with
    | pair a b =>
      exact .pair
        (iht ht.1 hfit.1 (fun h => (hload h).1) (fun h => (hbuf h).1) (hstream.imp_left And.left))
        (ihu ht.2 hfit.2 (fun h => (hload h).2) (fun h => (hbuf h).2) (hstream.imp_left And.right))
    | _ => exact ht.elim
  | stream src dst => cases o with
    | istream s =>
      obtain ⟨hunlim, hfaith⟩ := hstream.resolve_left id
      cases dst with
      | none => exact .stream hunlim hfaith src s
      | some p => cases src <;> exact ht.elim
    | _ => cases src <;> cases dst <;> exact ht.elim
  | container b size t ih => cases o with
    | seq os =>
      obtain ⟨rfl, hos⟩ := ht
      refine .of_keeps (fun x => by cases x <;> rfl) fun m l old fs es pl hget hready h => ?_
      cases old with
      | seq olds =>
        rw [wire, append_assoc]
        refine .loadContainer hfit.1 hload (fun hf => (hbuf hf).2.1) hget (fun hne => ?_)
          (fun o ho => ih (hos o ho) (hfit.2 o ho) (fun hmet => (hload hmet).2.2 o ho)
            (fun hf => (hbuf hf).2.2) hstream)
          fun hl vs hvs => h hl (.seq (olds ++ vs)) ⟨?_, fun hf => ?_⟩
        · obtain ⟨o, ho⟩ := exists_mem_of_ne_nil os hne
          have hdflt := ready_dflt (hos o ho)
          exact ⟨shape_of_ready hdflt, fun _ => hdflt⟩
        · intro o ho
          rcases mem_append.1 ho with ho | ho
          · exact hready.1 o ho
          · exact hvs.1 o ho
        · obtain rfl : olds = [] := hready.2 hf
          rw [norm, norm, nil_append, hvs.2 hf]
      | _ => exact hready.1.elim
    | _ => exact ht.elim
  | array b cap t ih => cases o with
    | arr os n =>
      obtain ⟨rfl, hcap, hn, hos⟩ := ht
      refine .of_keeps (fun x => by cases x <;> rfl) fun m l old fs es pl hget hready h => ?_
      cases old with
      | arr olds n0 =>
        rw [wire, append_assoc]
        exact .loadArray hget hfit.1 (hcap ▸ hn) (hready.1.1.trans hcap.symm)
          (fun hmet => (hload hmet).1)
          (fun x hx => ⟨hready.1.2 x hx, fun hf => (hready.2 hf).2 x hx⟩)
          (fun o ho => ih (hos o (mem_of_mem_take ho)) (hfit.2 o ho)
            (fun hmet => (hload hmet).2 o ho) hbuf hstream)
          fun hl hls vs hlen hvs hnorm => h ⟨hl, hls⟩ (.arr vs n)
            ⟨⟨hlen.trans hcap, hvs⟩, fun hf => by rw [norm, norm, hnorm hf]⟩
      | _ => exact hready.1.elim
    | _ => exact ht.elim
  | bool => cases o with
    | bool b =>
      refine .of_keeps (fun x => by cases x <;> rfl) fun m l old fs es pl hget hready h => ?_
      exact .loadBool (h trivial (.bool b) ⟨trivial, fun _ => rfl⟩)
    | _ => exact ht.elim
  | int w => cases o with
    | raw bs =>
      refine .of_keeps (fun x => by cases x <;> rfl) fun m l old fs es pl hget hready h => ?_
      cases old with
      | raw olds =>
        have hmem : m.upd l (Obj.writeRaw 0 bs) = m.set l (.raw bs) := by
          rw [upd_eq_set hget, Obj.writeRaw, overwrite_all (hready.1.trans ht.symm)]
        exact .loadInt ht (hmem ▸ h trivial (.raw bs) ⟨ht, fun _ => rfl⟩)
      | _ => exact hready.1.elim
    | _ => exact ht.elim
  | binary n => cases o with
    | raw bs =>
      refine .of_keeps (fun x => by cases x <;> rfl) fun m l old fs es pl hget hready h => ?_
      cases old with
      | raw olds =>
        have hmem : m.upd l (Obj.writeRaw 0 bs) = m.set l (.raw bs) := by
          rw [upd_eq_set hget, Obj.writeRaw, overwrite_all (hready.1.trans ht.symm)]
        cases ht
        exact .loadBinary0 (hmem ▸ h trivial (.raw bs) ⟨rfl, fun _ => rfl⟩)
      | _ => exact hready.1.elim
    | _ => exact ht.elim
  | str => cases o with
    | str c =>
      intro m l old fs es pl hget hready h
      cases old with
      | str olds =>
        have hmem : (m.set l (.str [])).upd l (Obj.appendStr c) = m.set l (.str c) := upd_set ..
        rw [wire, append_assoc]
        exact .loadString hfit hload fun hl => hmem ▸ h hl (.str c) ⟨trivial, fun _ => rfl⟩
      | _ => exact hready.1.elim
    | _ => exact ht.elim
  | utf8 => cases o with
    | str c =>
      intro m l old fs es pl hget hready h
      cases old with
      | str olds =>
        have hlen : ([] : List Byte).length + c.length = c.length := Nat.zero_add _
        by_cases hl : c.length ≤ Q.lmts.stringlimit
        · have hend := h hl (.str c) ⟨trivial, fun _ => rfl⟩
          rw [← set_set m l (.str []) (.str c)] at hend
          exact .loadUtf8 (get_set hget) ht (by rw [hlen]; exact hfit) (by rw [hlen]; exact hl) hend
        · exact .loadUtf8_refused (fun hmet => hl (hload hmet)) (get_set hget) ht
            (by rw [hlen]; exact hfit) (by rw [hlen]; exact Nat.not_le.1 hl)
      | _ => exact hready.1.elim
    | _ => exact ht.elim
  | cross w => cases o with
    | raw bs =>
      refine .of_keeps (fun x => by cases x <;> rfl) fun m l old fs es pl hget hready h => ?_
      have hval : leBytes w.bytes (leNat bs) = bs := by rw [← ht, leBytes_leNat]
      have hst := storesCross_loc w (leNat bs) l es m
      rw [hval] at hst
      exact .loadCross (bytes_lt_bound ht) hst (h trivial (.raw bs) ⟨ht, fun _ => rfl⟩)
    | _ => exact ht.elim
  | bitset v => cases o with
    | bits bs =>
      refine .of_keeps (fun x => by cases x <;> rfl) fun m l old fs es pl hget hready h => ?_
      cases old with
      | bits olds =>
        rw [wire, append_assoc]
        refine .loadBits hfit hget (fun n hn => ?_) hload
          fun hl => h hl (.bits bs) ⟨ht, fun _ => rfl⟩
        cases hn
        exact ⟨ht, hready.1⟩
      | _ => exact hready.1.elim
    | _ => exact ht.elim
  | bitvec => cases o with
    | bits bs =>
      refine .of_keeps (fun x => by cases x <;> rfl) fun m l old fs es pl hget hready h => ?_
      cases old with
      | bits olds =>
        rw [wire, append_assoc]
        exact .loadBits hfit hget (by rintro n ⟨⟩) hload
          fun hl => h hl (.bits bs) ⟨trivial, fun _ => rfl⟩
      | _ => exact hready.1.elim
    | _ => exact ht.elim
  | unit => cases o with
    | unit =>
      intro m l old fs es pl hget hready h
      cases old with
      | unit => exact h trivial .unit ⟨trivial, fun _ => rfl⟩
      | _ => exact hready.1.elim
    | _ => exact ht.elim
  | _ => cases o <;> exact ht.elim

end Takes

end SolidFrame
