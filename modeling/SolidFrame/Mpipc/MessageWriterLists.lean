/-
  SolidFrame formalization — the lists of the message writer
  (`solid/frame/mpipc/src/mpipcmessagewriter.cpp`).

  A stub is unused (in the cache list), or its message is to be sent (in the
  write list), or its message was sent and waits for a response (in neither).
  The order list has the stubs that own a message.
-/
import SolidFrame.Mpipc.MessageWriter

namespace SolidFrame

open Function List Option

namespace MessageWriter
variable {β F σ : Type}

/-! ## Lists -/

/-- The lists of a writer, front first.  The write list and the cache list use the same
    links. -/
structure Lists (w : MessageWriter β F σ) (W C O : List ℕ) : Prop where
  write : w.writeInnerList.Repr w.statusLinks W
  cache : w.cacheInnerList.Repr w.statusLinks C
  order : w.orderInnerList.Repr w.orderLinks O
  disjoint : W.Disjoint C

namespace Lists
variable {w : MessageWriter β F σ} {W C O : List ℕ} {i : ℕ}

theorem modifyStub (h : w.Lists W C O) (i : ℕ) (f : MessageStub β F σ → MessageStub β F σ) :
    (w.modifyStub i f).Lists W C O := ⟨h.write, h.cache, h.order, h.disjoint⟩

theorem resetCurrentSynchronous (h : w.Lists W C O) (i : ℕ) :
    (w.resetCurrentSynchronous i).Lists W C O := by
  unfold MessageWriter.resetCurrentSynchronous
  split_ifs
  · exact ⟨h.write, h.cache, h.order, h.disjoint⟩
  · exact h

theorem writePushBack (h : w.Lists W C O) (hW : i ∉ W) (hC : i ∉ C) :
    (w.writePushBack i).Lists (W ++ [i]) C O := by
  obtain ⟨hwrite, hframe⟩ := h.write.pushBack hW
  refine ⟨hwrite, h.cache.congr fun x hx => hframe x ?_ ?_, h.order, ?_⟩
  · exact fun hxW => h.disjoint hxW hx
  · rintro rfl
    exact hC hx
  · rw [disjoint_append_left, singleton_disjoint]
    exact ⟨h.disjoint, hC⟩

theorem writeErase (h : w.Lists W C O) (hW : i ∈ W) : (w.writeErase i).Lists (W.erase i) C O := by
  obtain ⟨hwrite, hframe⟩ := h.write.erase_mem hW
  refine ⟨hwrite, h.cache.congr fun x hx => hframe x fun hxW => h.disjoint hxW hx, h.order, ?_⟩
  exact fun x hx hxC => h.disjoint (mem_of_mem_erase hx) hxC

theorem writePopFront (h : w.Lists (i :: W) C O) :
    w.writePopFront = some (w.writeErase i) ∧ (w.writeErase i).Lists W C O := by
  obtain ⟨hpop, -, -⟩ := h.write.popFront
  have herase := h.writeErase mem_cons_self
  rw [erase_cons_head] at herase
  exact ⟨by rw [MessageWriter.writePopFront, hpop]; rfl, herase⟩

theorem cachePushFront (h : w.Lists W C O) (hW : i ∉ W) (hC : i ∉ C) :
    (w.cachePushFront i).Lists W (i :: C) O := by
  obtain ⟨hcache, hframe⟩ := h.cache.pushFront hC
  refine ⟨h.write.congr fun x hx => hframe x ?_ ?_, hcache, h.order, ?_⟩
  · exact fun hxC => h.disjoint hx hxC
  · rintro rfl
    exact hW hx
  · rw [disjoint_cons_right]
    exact ⟨hW, h.disjoint⟩

theorem doUnprepareMessageStub (h : w.Lists W C O) (hW : i ∉ W) (hC : i ∉ C) :
    (w.doUnprepareMessageStub i).Lists W (i :: C) O :=
  (h.modifyStub i _).cachePushFront hW hC

theorem orderPushBack (h : w.Lists W C O) (hO : i ∉ O) : (w.orderPushBack i).Lists W C (O ++ [i]) :=
  ⟨h.write, h.cache, (h.order.pushBack hO).1, h.disjoint⟩

theorem orderErase (h : w.Lists W C O) (hO : i ∈ O) : (w.orderErase i).Lists W C (O.erase i) :=
  ⟨h.write, h.cache, (h.order.erase_mem hO).1, h.disjoint⟩

theorem rotate (h : w.Lists (i :: W) C O) :
    ((w.writeErase i).writePushBack i).Lists (W ++ [i]) C O := by
  have hi : i ∉ W := (nodup_cons.1 h.write.nodup).1
  exact h.writePopFront.2.writePushBack hi fun hC => h.disjoint mem_cons_self hC

end Lists

/-! ## Stubs -/

section Stub
variable (w : MessageWriter β F σ) (i : ℕ)

@[simp] theorem modifyStub_self (f : MessageStub β F σ → MessageStub β F σ) :
    (w.modifyStub i f).messageVec i = f (w.messageVec i) := update_self _ _ _

@[simp] theorem writeErase_vec : (w.writeErase i).messageVec = w.messageVec := rfl

@[simp] theorem writePushBack_vec : (w.writePushBack i).messageVec = w.messageVec := rfl

@[simp] theorem orderPushBack_vec : (w.orderPushBack i).messageVec = w.messageVec := rfl

@[simp] theorem orderErase_vec : (w.orderErase i).messageVec = w.messageVec := rfl

@[simp] theorem resetCurrentSynchronous_vec :
    (w.resetCurrentSynchronous i).messageVec = w.messageVec := by
  unfold resetCurrentSynchronous
  split_ifs <;> rfl

variable {j : ℕ}

theorem resetCurrentSynchronous_current :
    (w.resetCurrentSynchronous i).currentSynchronousMessageIdx = some j ↔
      j ≠ i ∧ w.currentSynchronousMessageIdx = some j := by
  unfold resetCurrentSynchronous
  by_cases h : w.currentSynchronousMessageIdx = some i
  · rw [if_pos h, h]
    simp [eq_comm]
  · rw [if_neg h]
    refine ⟨fun hj => ⟨?_, hj⟩, And.right⟩
    rintro rfl
    exact h hj

@[simp] theorem doUnprepareMessageStub_self :
    (w.doUnprepareMessageStub i).messageVec i = (w.messageVec i).clear := update_self _ _ _

variable {i}

theorem modifyStub_of_ne (h : j ≠ i) (f : MessageStub β F σ → MessageStub β F σ) :
    (w.modifyStub i f).messageVec j = w.messageVec j := update_of_ne h _ _

theorem doUnprepareMessageStub_of_ne (h : j ≠ i) :
    (w.doUnprepareMessageStub i).messageVec j = w.messageVec j := update_of_ne h _ _

end Stub

namespace MessageStub

structure Blank (s : MessageStub β F σ) : Prop where
  msgbundle : s.msgbundle = {}
  packetCount : s.packetCount = 0
  serializerPtr : s.serializerPtr = none

theorem Blank.enqueued {s : MessageStub β F σ} (h : s.Blank) (b : MessageBundle β F)
    (poolMsgId : MessageId) : { s with msgbundle := b, poolMsgId := poolMsgId } =
      ({ msgbundle := b, unique := s.unique, poolMsgId := poolMsgId } : MessageStub β F σ) := by
  rw [h.packetCount, h.serializerPtr]

/-- The stub of a message that is to be sent, or is being sent. -/
structure Live (s : MessageStub β F σ) : Prop where
  messagePtr : s.msgbundle.messagePtr.isSome
  canceled : s.msgbundle.messageFlags.canceled = false
  doneSend : s.msgbundle.messageFlags.doneSend = false

/-- The stub of a message that was canceled while it was being sent. -/
structure Dropped (s : MessageStub β F σ) : Prop where
  messagePtr : s.msgbundle.messagePtr = none
  canceled : s.msgbundle.messageFlags.canceled = true
  serializerPtr : s.serializerPtr.isSome

/-- The stub of a request that was sent and waits for its response. -/
structure Waiting (s : MessageStub β F σ) : Prop where
  messagePtr : s.msgbundle.messagePtr.isSome
  canceled : s.msgbundle.messageFlags.canceled = false
  doneSend : s.msgbundle.messageFlags.doneSend = true
  waitResponse : s.msgbundle.messageFlags.waitResponse = true
  serializerPtr : s.serializerPtr = none

end MessageStub

/-- The lists of a writer, and the phases of the stubs in them. -/
structure Inv (w : MessageWriter β F σ) (W C O : List ℕ) : Prop extends w.Lists W C O where
  writeLt : ∀ i ∈ W, i < w.vecSize
  cacheLt : ∀ i ∈ C, i < w.vecSize
  cached : ∀ i ∈ C, (w.messageVec i).Blank
  written : ∀ i ∈ W, (w.messageVec i).Live ∨ (w.messageVec i).Dropped
  waiting : ∀ i < w.vecSize, i ∉ W → i ∉ C → (w.messageVec i).Waiting
  owned : ∀ i, i ∈ O ↔ i < w.vecSize ∧ (w.messageVec i).msgbundle.messagePtr.isSome
  current : ∀ i, w.currentSynchronousMessageIdx = some i →
    i ∈ W ∧ (w.messageVec i).serializerPtr.isSome

/-- The phase of a stub fits the list it is in. -/
def MessageStub.Fits (s : MessageStub β F σ) (i : ℕ) (W C : List ℕ) : Prop :=
  (i ∈ W ∧ (s.Live ∨ s.Dropped)) ∨ (i ∈ C ∧ s.Blank) ∨ (i ∉ W ∧ i ∉ C ∧ s.Waiting)

variable {j : ℕ}

namespace Inv
variable {w w' : MessageWriter β F σ} {W W' C C' O O' : List ℕ} {i : ℕ}

theorem orderNodup (h : w.Inv W C O) : O.Nodup := h.order.nodup

theorem orderLt (h : w.Inv W C O) (hj : j ∈ O) : j < w.vecSize := ((h.owned j).1 hj).1

/-- **One stub changes**, and the lists only for this stub. -/
theorem update (h : w.Inv W C O) (hlists : w'.Lists W' C' O') (hi : i < w'.vecSize)
    (hsize : ∀ j, j ≠ i → (j < w'.vecSize ↔ j < w.vecSize))
    (hvec : ∀ j, j ≠ i → w'.messageVec j = w.messageVec j)
    (hW : ∀ j, j ≠ i → (j ∈ W' ↔ j ∈ W)) (hC : ∀ j, j ≠ i → (j ∈ C' ↔ j ∈ C))
    (hO : ∀ j, j ≠ i → (j ∈ O' ↔ j ∈ O))
    (hcur : ∀ j, w'.currentSynchronousMessageIdx = some j →
      j ∈ W' ∧ (w'.messageVec j).serializerPtr.isSome)
    (hfits : (w'.messageVec i).Fits i W' C')
    (hown : i ∈ O' ↔ (w'.messageVec i).msgbundle.messagePtr.isSome) : w'.Inv W' C' O' where
  toLists := hlists
  writeLt j hj := by
    rcases eq_or_ne j i with rfl | hne
    · exact hi
    · exact (hsize j hne).2 (h.writeLt j ((hW j hne).1 hj))
  cacheLt j hj := by
    rcases eq_or_ne j i with rfl | hne
    · exact hi
    · exact (hsize j hne).2 (h.cacheLt j ((hC j hne).1 hj))
  cached j hj := by
    rcases eq_or_ne j i with rfl | hne
    · rcases hfits with ⟨hjW, -⟩ | ⟨-, hblank⟩ | ⟨-, hjC, -⟩
      · exact absurd hj (hlists.disjoint hjW)
      · exact hblank
      · exact absurd hj hjC
    · rw [hvec j hne]
      exact h.cached j ((hC j hne).1 hj)
  written j hj := by
    rcases eq_or_ne j i with rfl | hne
    · rcases hfits with ⟨-, hlive⟩ | ⟨hjC, -⟩ | ⟨hjW, -⟩
      · exact hlive
      · exact absurd hjC (hlists.disjoint hj)
      · exact absurd hj hjW
    · rw [hvec j hne]
      exact h.written j ((hW j hne).1 hj)
  waiting j hj hjW hjC := by
    rcases eq_or_ne j i with rfl | hne
    · rcases hfits with ⟨hmem, -⟩ | ⟨hmem, -⟩ | ⟨-, -, hwait⟩
      · exact absurd hmem hjW
      · exact absurd hmem hjC
      · exact hwait
    · rw [hvec j hne]
      exact h.waiting j ((hsize j hne).1 hj) (fun hmem => hjW ((hW j hne).2 hmem))
        fun hmem => hjC ((hC j hne).2 hmem)
  owned j := by
    rcases eq_or_ne j i with rfl | hne
    · rw [hown]
      exact ⟨fun hsome => ⟨hi, hsome⟩, And.right⟩
    · rw [hO j hne, h.owned j, hvec j hne, hsize j hne]
  current := hcur

theorem retire (h : w.Inv W C O) (hi : i < w.vecSize)
    (hlists : w'.Lists (W.erase i) (i :: C) (O.erase i)) (hsize : w'.vecSize = w.vecSize)
    (hvec : ∀ j, j ≠ i → w'.messageVec j = w.messageVec j) (hblank : (w'.messageVec i).Blank)
    (hcur : ∀ j, w'.currentSynchronousMessageIdx = some j →
      j ≠ i ∧ w.currentSynchronousMessageIdx = some j) :
    w'.Inv (W.erase i) (i :: C) (O.erase i) := by
  refine h.update hlists (hsize ▸ hi) (fun j _ => by rw [hsize]) hvec (fun j hj => ?_)
    (fun j hj => by simp [hj]) (fun j hj => ?_) (fun j hj => ?_)
    (.inr (.inl ⟨mem_cons_self, hblank⟩)) ?_
  · rw [h.write.nodup.mem_erase_iff]
    exact and_iff_right hj
  · rw [h.order.nodup.mem_erase_iff]
    exact and_iff_right hj
  · obtain ⟨hne, hjcur⟩ := hcur j hj
    obtain ⟨hjW, hser⟩ := h.current j hjcur
    rw [hvec j hne]
    exact ⟨h.write.nodup.mem_erase_iff.2 ⟨hne, hjW⟩, hser⟩
  · rw [hblank.msgbundle]
    simp [h.order.nodup.mem_erase_iff]

theorem modify (h : w.Inv W C O) (hi : i ∈ W) {f : MessageStub β F σ → MessageStub β F σ}
    (hphase : (f (w.messageVec i)).Live ∨ (f (w.messageVec i)).Dropped)
    (hptr : (f (w.messageVec i)).msgbundle.messagePtr = (w.messageVec i).msgbundle.messagePtr)
    (hser : (w.messageVec i).serializerPtr.isSome → (f (w.messageVec i)).serializerPtr.isSome) :
    (w.modifyStub i f).Inv W C O := by
  refine h.update (i := i) (h.toLists.modifyStub i f) (h.writeLt i hi) (fun _ _ => Iff.rfl)
    (fun j hj => w.modifyStub_of_ne hj f) (fun _ _ => Iff.rfl) (fun _ _ => Iff.rfl)
    (fun _ _ => Iff.rfl) (fun j hj => ?_) ?_ ?_
  · obtain ⟨hjW, hjser⟩ := h.current j hj
    refine ⟨hjW, ?_⟩
    rcases eq_or_ne j i with rfl | hne
    · rw [modifyStub_self]
      exact hser hjser
    · rw [modifyStub_of_ne _ hne]
      exact hjser
  · rw [modifyStub_self]
    exact .inl ⟨hi, hphase⟩
  · rw [modifyStub_self, hptr, h.owned i]
    exact and_iff_right (h.writeLt i hi)

theorem rotate (h : w.Inv (i :: W) C O) :
    ((w.writeErase i).writePushBack i).Inv (W ++ [i]) C O := by
  have hmem : ∀ j, j ∈ W ++ [i] ↔ j ∈ i :: W := fun j => by simp [or_comm]
  refine h.update (i := i) h.toLists.rotate (h.writeLt i mem_cons_self) (fun _ _ => Iff.rfl)
    (fun _ _ => rfl) (fun j _ => hmem j) (fun _ _ => Iff.rfl) (fun _ _ => Iff.rfl) (fun j hj => ?_)
    (.inl ⟨by simp, h.written i mem_cons_self⟩) ?_
  · obtain ⟨hjW, hser⟩ := h.current j hj
    exact ⟨(hmem j).2 hjW, hser⟩
  · rw [h.owned i]
    exact and_iff_right (h.writeLt i mem_cons_self)

theorem live_or_waiting (h : w.Inv W C O) (hi : i ∈ O) :
    (i ∈ W ∧ (w.messageVec i).Live) ∨ (i ∉ W ∧ i ∉ C ∧ (w.messageVec i).Waiting) := by
  obtain ⟨hlt, hptr⟩ := (h.owned i).1 hi
  have hC : i ∉ C := by
    intro hmem
    rw [(h.cached i hmem).msgbundle] at hptr
    exact absurd hptr (by simp)
  by_cases hW : i ∈ W
  · rcases h.written i hW with hlive | hdropped
    · exact .inl ⟨hW, hlive⟩
    · rw [hdropped.messagePtr] at hptr
      exact absurd hptr (by simp)
  · exact .inr ⟨hW, hC, h.waiting i hlt hW hC⟩

theorem notMem_cache (h : w.Inv W C O) (hi : i ∈ O) : i ∉ C := by
  rcases h.live_or_waiting hi with ⟨hW, -⟩ | ⟨-, hC, -⟩
  · exact fun hC => h.disjoint hW hC
  · exact hC

end Inv

/-! ## Bundles that come and go -/

/-- What identifies a bundle in the writer: all but its flags, and its id in the pool. -/
abbrev Entry (β F : Type) := Option ℕ × Option (Message β) × Option F × MessageId

def entryOf (b : MessageBundle β F) (poolMsgId : MessageId) : Entry β F :=
  (b.messageTypeId, b.messagePtr, b.completeFnc, poolMsgId)

def entered (events : List (WriterEvent β F)) : List (Entry β F) :=
  events.filterMap fun e => match e with
    | .enqueued b poolMsgId _ => some (entryOf b poolMsgId)
    | _ => none

def left (events : List (WriterEvent β F)) : List (Entry β F) :=
  events.filterMap fun e => match e with
    | .completed b poolMsgId | .canceled b poolMsgId | .taken b poolMsgId =>
      some (entryOf b poolMsgId)
    | _ => none

@[simp] theorem entered_append (es fs : List (WriterEvent β F)) :
    entered (es ++ fs) = entered es ++ entered fs := filterMap_append

@[simp] theorem left_append (es fs : List (WriterEvent β F)) :
    left (es ++ fs) = left es ++ left fs := filterMap_append

def ownedBy (w : MessageWriter β F σ) (O : List ℕ) : List (Entry β F) :=
  O.map fun i => entryOf (w.messageVec i).msgbundle (w.messageVec i).poolMsgId

/-- What was in the writer or comes in, is in the writer or goes out. -/
def Balanced (w : MessageWriter β F σ) (O : List ℕ) (events : List (WriterEvent β F))
    (w' : MessageWriter β F σ) (O' : List ℕ) : Prop :=
  (entered events ++ w.ownedBy O).Perm (left events ++ w'.ownedBy O')

section Balance
variable {w w' w'' : MessageWriter β F σ} {O O' O'' : List ℕ} {i : ℕ}
  {es es' : List (WriterEvent β F)}

theorem ownedBy_congr (h : ∀ j ∈ O, entryOf (w'.messageVec j).msgbundle
    (w'.messageVec j).poolMsgId =
    entryOf (w.messageVec j).msgbundle (w.messageVec j).poolMsgId) : w'.ownedBy O = w.ownedBy O :=
  map_congr_left h

theorem Balanced.refl (w : MessageWriter β F σ) (O : List ℕ) : Balanced w O [] w O :=
  List.Perm.refl _

theorem Balanced.trans (h : Balanced w O es w' O') (h' : Balanced w' O' es' w'' O'') :
    Balanced w O (es ++ es') w'' O'' := by
  unfold Balanced at *
  rw [entered_append, left_append, append_assoc, append_assoc]
  refine (perm_append_comm_assoc _ _ _).trans ?_
  refine (h.append_left _).trans ?_
  refine (perm_append_comm_assoc _ _ _).trans ?_
  exact h'.append_left _

theorem ownedBy_erase (hO : O.Nodup) (hi : i ∈ O)
    (hvec : ∀ j, j ≠ i → w'.messageVec j = w.messageVec j) :
    (w.ownedBy O).Perm
      (entryOf (w.messageVec i).msgbundle (w.messageVec i).poolMsgId ::
      w'.ownedBy (O.erase i)) := by
  have heq : w'.ownedBy (O.erase i) = w.ownedBy (O.erase i) := by
    refine ownedBy_congr fun j hj => ?_
    rw [hvec j (hO.mem_erase_iff.1 hj).1]
  rw [heq]
  exact (perm_cons_erase hi).map _

end Balance

/-! ## Enqueue -/

section Enqueue
variable {w w' : MessageWriter β F σ} {W C O : List ℕ} {cfg : WriterConfiguration}

/-- A bundle that a caller may enqueue. -/
def Enqueueable (b : MessageBundle β F) : Prop :=
  b.messagePtr.isSome ∧ b.messageFlags.canceled = false

theorem allocateStub_spec (h : w.Inv W C O) :
    ∃ i w1 C', w.allocateStub = some (i, w1) ∧ w1.Lists W C' O ∧ i ∉ W ∧ i ∉ C' ∧ i ∉ O ∧
      i < w1.vecSize ∧ (∀ j, j ≠ i → (j ∈ C' ↔ j ∈ C)) ∧
      (∀ j, j ≠ i → (j < w1.vecSize ↔ j < w.vecSize)) ∧
      (∀ j, j ≠ i → w1.messageVec j = w.messageVec j) ∧ (w1.messageVec i).Blank ∧
      w1.currentSynchronousMessageIdx = w.currentSynchronousMessageIdx := by
  unfold allocateStub
  cases C with
  | nil =>
    have hsize : w.cacheInnerList.size = 0 := h.cache.size
    have hW : w.vecSize ∉ W := fun hmem => absurd (h.writeLt _ hmem) (Nat.lt_irrefl _)
    have hO : w.vecSize ∉ O := fun hmem => absurd (h.orderLt hmem) (Nat.lt_irrefl _)
    rw [if_neg (not_not.2 hsize)]
    refine ⟨w.vecSize, _, [], rfl, ⟨?_, ?_, ?_, h.disjoint⟩, hW, not_mem_nil, hO,
      Nat.lt_succ_self _, fun _ _ => Iff.rfl, fun j hj => ?_, fun j hj => ?_, ?_, rfl⟩
    · exact h.write.congr fun x hx => update_of_ne (fun heq : x = w.vecSize => hW (heq ▸ hx)) _ _
    · exact h.cache.congr fun x hx => absurd hx not_mem_nil
    · exact h.order.congr fun x hx => update_of_ne (fun heq : x = w.vecSize => hO (heq ▸ hx)) _ _
    · show j < w.vecSize + 1 ↔ _
      omega
    · exact update_of_ne hj _ _
    · show MessageStub.Blank (update w.messageVec w.vecSize {} w.vecSize)
      rw [update_self]
      exact ⟨rfl, rfl, rfl⟩
  | cons i C =>
    obtain ⟨hpop, hcache, hframe⟩ := h.cache.popFront
    have hblank := h.cached i mem_cons_self
    have hW : i ∉ W := fun hmem => h.disjoint hmem mem_cons_self
    have hC : i ∉ C := (nodup_cons.1 h.cache.nodup).1
    have hO : i ∉ O := by
      intro hmem
      have hptr := ((h.owned i).1 hmem).2
      rw [hblank.msgbundle] at hptr
      exact absurd hptr (by simp)
    rw [if_pos h.cache.size_pos, hpop]
    refine ⟨i, _, C, rfl, ⟨?_, hcache, h.order, ?_⟩, hW, hC, hO, h.cacheLt i mem_cons_self,
      fun j hj => ?_, fun _ _ => Iff.rfl, fun _ _ => rfl, hblank, rfl⟩
    · exact h.write.congr fun x hx => hframe x fun hxC => h.disjoint hx hxC
    · exact fun x hx hxC => h.disjoint hx (mem_cons_of_mem i hxC)
    · simp [hj]

/-- **A message that is enqueued** is the last of the write list and of the order list;
    a message that is refused changes nothing. -/
theorem enqueue_spec (h : w.Inv W C O) {b : MessageBundle β F} (hb : Enqueueable b)
    {poolMsgId : MessageId} {ret : Option MessageId × MessageWriter β F σ}
    (he : w.enqueue cfg b poolMsgId = some ret) :
    ret = (none, w) ∨
    ∃ i C' u, ret.1 = some ⟨some i, u⟩ ∧ W.length < cfg.maxMessageCountMultiplex ∧ i ∉ W ∧ i ∉ O ∧
      ret.2.Inv (W ++ [i]) C' (O ++ [i]) ∧
      ret.2.messageVec = update w.messageVec i
        { msgbundle := clearDisruptingFlags b, unique := u, poolMsgId := poolMsgId } ∧
      ret.2.currentSynchronousMessageIdx = w.currentSynchronousMessageIdx := by
  unfold enqueue at he
  split_ifs at he with hfull hresponse
  · exact .inl (some.inj he).symm
  · exact .inl (some.inj he).symm
  obtain ⟨i, w1, C', halloc, hlists, hW, hC, hO, hi, hC', hsize, hvec, hblank, hcur⟩ :=
    allocateStub_spec h
  rw [halloc, map_some] at he
  obtain rfl := some.inj he
  have hstub := hblank.enqueued (clearDisruptingFlags b) poolMsgId
  refine .inr ⟨i, C', (w1.messageVec i).unique, rfl, ?_, hW, hO, ?_, ?_, hcur⟩
  · rw [← h.write.size]
    omega
  · refine h.update (i := i) (((hlists.modifyStub i _).orderPushBack hO).writePushBack hW hC)
      hi hsize (fun j hj => ?_) (fun j hj => ?_) hC' (fun j hj => ?_) (fun j hj => ?_) ?_ ?_
    · exact (update_of_ne hj _ _).trans (hvec j hj)
    · simp [hj]
    · simp [hj]
    · obtain ⟨hjW, hser⟩ := h.current j (hcur ▸ hj)
      have hne : j ≠ i := fun heq => hW (heq ▸ hjW)
      refine ⟨mem_append_left _ hjW, ?_⟩
      rw [writePushBack_vec, orderPushBack_vec, modifyStub_of_ne _ hne, hvec j hne]
      exact hser
    · refine .inl ⟨by simp, .inl ?_⟩
      rw [writePushBack_vec, orderPushBack_vec, modifyStub_self]
      exact ⟨hb.1, hb.2, rfl⟩
    · rw [writePushBack_vec, orderPushBack_vec, modifyStub_self]
      exact ⟨fun _ => hb.1, fun _ => by simp⟩
  · funext j
    rcases eq_or_ne j i with rfl | hne
    · rw [update_self, ← hstub]
      exact update_self _ _ _
    · rw [update_of_ne hne, ← hvec j hne]
      exact update_of_ne hne _ _

end Enqueue

/-! ## Cancel -/

section Cancel
variable {w : MessageWriter β F σ} {W C O : List ℕ} {i : ℕ}

theorem clear_blank (s : MessageStub β F σ) : s.clear.Blank := ⟨rfl, rfl, rfl⟩

/-- A request that was not sent to its end, and has no serializer yet. -/
def Unstarted (s : MessageStub β F σ) : Prop :=
  s.serializerPtr = none ∧ s.msgbundle.messageFlags.waitResponse = true ∧
    s.msgbundle.messageFlags.doneSend = false

/-- A stub after its bundle was moved out, with or without being taken out of the write
    list. -/
def unqueue (w : MessageWriter β F σ) (i : ℕ) (b : MessageBundle β F) (wait : Bool) :
    MessageWriter β F σ :=
  (if wait then w.release i b else (w.release i b).writeErase i).doUnprepareMessageStub i

section
variable (P : Protocol β σ) (hcanceled : (w.messageVec i).isCanceled = false)
include hcanceled

theorem doCancel_started {ser : σ} (hser : (w.messageVec i).serializerPtr = some ser) :
    w.doCancel P i = (some ((w.messageVec i).msgbundle.setCanceled, (w.messageVec i).poolMsgId),
        (w.release i (w.messageVec i).msgbundle.setCanceled).modifyStub i fun s =>
          { s with serializerPtr := some (P.clear ser) }) := by
  unfold doCancel
  rw [if_neg (by simp [hcanceled]), hser]

theorem doCancel_unsent (hser : (w.messageVec i).serializerPtr = none) : w.doCancel P i =
      (some ((w.messageVec i).msgbundle.setCanceled, (w.messageVec i).poolMsgId),
        w.unqueue i (w.messageVec i).msgbundle.setCanceled
          (w.messageVec i).msgbundle.messageFlags.waitResponse) := by
  unfold doCancel MessageWriter.unqueue
  rw [if_neg (by simp [hcanceled]), hser]
  cases hwait : (w.messageVec i).msgbundle.messageFlags.waitResponse <;>
    simp [MessageBundle.setCanceled, hwait]

end

theorem release_of_ne (hj : j ≠ i) (b : MessageBundle β F) :
    (w.release i b).messageVec j = w.messageVec j := by
  rw [release, orderErase_vec, modifyStub_of_ne _ hj]

theorem release_self (b : MessageBundle β F) :
    (w.release i b).messageVec i = { w.messageVec i with msgbundle := b.movedFrom } := by
  rw [release, orderErase_vec, modifyStub_self]

theorem Lists.release (h : w.Lists W C O) (hi : i ∈ O) (b : MessageBundle β F) :
    (w.release i b).Lists W C (O.erase i) := (h.modifyStub i _).orderErase hi

theorem unqueue_of_ne (hj : j ≠ i) (b : MessageBundle β F) (wait : Bool) :
    (w.unqueue i b wait).messageVec j = w.messageVec j := by
  cases wait <;> exact (doUnprepareMessageStub_of_ne _ hj).trans (release_of_ne hj b)

theorem unqueue_current (i : ℕ) (b : MessageBundle β F) (wait : Bool) :
    (w.unqueue i b wait).currentSynchronousMessageIdx = w.currentSynchronousMessageIdx := by
  cases wait <;> rfl

theorem Inv.unqueue (h : w.Inv W C O) (hi : i ∈ O) (b : MessageBundle β F) {wait : Bool}
    (hwait : wait = false ↔ i ∈ W) (hcur : w.currentSynchronousMessageIdx ≠ some i) :
    (w.unqueue i b wait).Inv (W.erase i) (i :: C) (O.erase i) := by
  have hC : i ∉ C := h.notMem_cache hi
  have hne : ∀ j, w.currentSynchronousMessageIdx = some j →
      j ≠ i ∧ w.currentSynchronousMessageIdx = some j := by
    intro j hj
    refine ⟨?_, hj⟩
    rintro rfl
    exact hcur hj
  cases wait with
  | true =>
    have hW : i ∉ W := fun hmem => absurd (hwait.2 hmem) (by simp)
    refine h.retire (h.orderLt hi) ?_ rfl (fun j hj => unqueue_of_ne hj b true) ?_ hne
    · rw [erase_of_not_mem hW]
      exact (h.toLists.release hi b).doUnprepareMessageStub hW hC
    · rw [MessageWriter.unqueue, if_pos rfl, doUnprepareMessageStub_self]
      exact clear_blank _
  | false =>
    have hW : i ∈ W := hwait.1 rfl
    refine h.retire (h.orderLt hi) ?_ rfl (fun j hj => unqueue_of_ne hj b false) ?_ hne
    · exact ((h.toLists.release hi b).writeErase hW).doUnprepareMessageStub
        h.write.nodup.not_mem_erase hC
    · rw [MessageWriter.unqueue, if_neg (by simp), doUnprepareMessageStub_self]
      exact clear_blank _

/-- A message without a serializer that is not in the write list waits for its response. -/
theorem Inv.waitResponse_iff (h : w.Inv W C O) (hi : i ∈ O)
    (hstarted : ¬ Unstarted (w.messageVec i)) (hser : (w.messageVec i).serializerPtr = none) :
    (w.messageVec i).msgbundle.messageFlags.waitResponse = false ↔ i ∈ W := by
  rcases h.live_or_waiting hi with ⟨hW, hlive⟩ | ⟨hW, -, hwaiting⟩
  · refine iff_of_true ?_ hW
    rw [← Bool.not_eq_true]
    exact fun hwait => hstarted ⟨hser, hwait, hlive.doneSend⟩
  · exact iff_of_false (by simp [hwaiting.waitResponse]) hW

/-- **The message of a stub is canceled**: when it is being sent, the stub stays in the
    write list until the peer is told; otherwise it becomes unused. -/
theorem doCancel_spec (P : Protocol β σ) (h : w.Inv W C O) (hi : i ∈ O)
    (hstarted : ¬ Unstarted (w.messageVec i)) :
    ∃ w', w.doCancel P i =
        (some ((w.messageVec i).msgbundle.setCanceled, (w.messageVec i).poolMsgId), w') ∧
      (∀ j, j ≠ i → w'.messageVec j = w.messageVec j) ∧
      w'.currentSynchronousMessageIdx = w.currentSynchronousMessageIdx ∧
      ((∃ ser, (w.messageVec i).serializerPtr = some ser ∧ i ∈ W ∧ w'.Inv W C (O.erase i) ∧
          w'.messageVec i = { w.messageVec i with
            msgbundle := (w.messageVec i).msgbundle.setCanceled.movedFrom
            serializerPtr := some (P.clear ser) }) ∨
        ((w.messageVec i).serializerPtr = none ∧ w'.Inv (W.erase i) (i :: C) (O.erase i))) := by
  have hlt : i < w.vecSize := h.orderLt hi
  have hcanceled : (w.messageVec i).isCanceled = false := by
    rcases h.live_or_waiting hi with ⟨-, hlive⟩ | ⟨-, -, hwait⟩
    · exact hlive.canceled
    · exact hwait.canceled
  cases hser : (w.messageVec i).serializerPtr with
  | some ser =>
    have hW : i ∈ W := by
      rcases h.live_or_waiting hi with ⟨hW, -⟩ | ⟨-, -, hwait⟩
      · exact hW
      · exact absurd (hwait.serializerPtr.symm.trans hser) (by simp)
    have hstub : ((w.release i (w.messageVec i).msgbundle.setCanceled).modifyStub i fun s =>
        { s with serializerPtr := some (P.clear ser) }).messageVec i = { w.messageVec i with
            msgbundle := (w.messageVec i).msgbundle.setCanceled.movedFrom
            serializerPtr := some (P.clear ser) } := by
      rw [modifyStub_self, release_self]
    have hvec : ∀ j, j ≠ i → ((w.release i (w.messageVec i).msgbundle.setCanceled).modifyStub i
        fun s => { s with serializerPtr := some (P.clear ser) }).messageVec j = w.messageVec j :=
      fun j hj => (modifyStub_of_ne _ hj _).trans (release_of_ne hj _)
    refine ⟨_, doCancel_started P hcanceled hser, hvec, rfl, .inl ⟨ser, rfl, hW, ?_, hstub⟩⟩
    refine h.update (i := i) ((h.toLists.release hi _).modifyStub i _) hlt
      (fun _ _ => Iff.rfl) hvec (fun _ _ => Iff.rfl) (fun _ _ => Iff.rfl) (fun j hj => ?_)
      (fun j hj => ?_) (.inl ⟨hW, .inr ?_⟩) ?_
    · rw [h.order.nodup.mem_erase_iff]
      exact and_iff_right hj
    · obtain ⟨hjW, hjser⟩ := h.current j hj
      refine ⟨hjW, ?_⟩
      rcases eq_or_ne j i with rfl | hne
      · rw [hstub]
        rfl
      · rw [hvec j hne]
        exact hjser
    · rw [hstub]
      exact ⟨rfl, rfl, rfl⟩
    · rw [hstub, h.order.nodup.mem_erase_iff]
      simp [MessageBundle.movedFrom]
  | none =>
    have hcur : w.currentSynchronousMessageIdx ≠ some i := by
      intro hj
      have hsome := (h.current i hj).2
      rw [hser] at hsome
      cases hsome
    refine ⟨_, doCancel_unsent P hcanceled hser, fun j hj => unqueue_of_ne hj _ _, ?_,
      .inr ⟨rfl, h.unqueue hi _ (h.waitResponse_iff hi hstarted hser) hcur⟩⟩
    exact unqueue_current _ _ _

end Cancel

/-! ## The visitor -/

section Visit
variable {w w' : MessageWriter β F σ} {W C O : List ℕ} {i : ℕ}

/-- A message that a visitor may take: it is not the synchronous message that is being
    sent, nor a request that was not sent to its end. -/
def Removable (w : MessageWriter β F σ) (i : ℕ) : Prop :=
  w.currentSynchronousMessageIdx ≠ some i ∧
  ((w.messageVec i).msgbundle.messageFlags.waitResponse = true →
    (w.messageVec i).msgbundle.messageFlags.doneSend = true)

theorem Inv.unqueue_removable (h : w.Inv W C O) (hi : i ∈ O) (hrem : w.Removable i) :
    (w.unqueue i (w.messageVec i).msgbundle
      (w.messageVec i).msgbundle.messageFlags.waitResponse).Inv (W.erase i) (i :: C)
      (O.erase i) := by
  refine h.unqueue hi _ ?_ hrem.1
  rcases h.live_or_waiting hi with ⟨hW, hlive⟩ | ⟨hW, -, hwaiting⟩
  · refine iff_of_true ?_ hW
    rw [← Bool.not_eq_true]
    exact fun hwait => absurd (hrem.2 hwait) (by simp [hlive.doneSend])
  · exact iff_of_false (by simp [hwaiting.waitResponse]) hW

variable {takes : ℕ → Bool} {n : ℕ}

theorem visitFrom_take (htake : takes i) (hptr : (w.messageVec i).msgbundle.messagePtr.isSome) :
    visitFrom takes (n + 1) (some i) w = (visitFrom takes n (InnerList.previousIndex w.orderLinks i)
        (w.unqueue i (w.messageVec i).msgbundle
          (w.messageVec i).msgbundle.messageFlags.waitResponse)).map fun p =>
            (((w.messageVec i).msgbundle, (w.messageVec i).poolMsgId) :: p.1, p.2) := by
  rw [visitFrom]
  simp only [htake, if_true, ← not_isSome, hptr, Bool.not_true, Bool.false_eq_true, if_false]
  cases hwait : (w.messageVec i).msgbundle.messageFlags.waitResponse <;> rfl

theorem visitFrom_leave (htake : takes i = false)
    (hptr : (w.messageVec i).msgbundle.messagePtr.isSome) :
    visitFrom takes (n + 1) (some i) w =
      visitFrom takes n (InnerList.previousIndex w.orderLinks i) w := by
  rw [visitFrom]
  simp [htake, ← not_isSome, hptr]

theorem entered_taken (taken : List (MessageBundle β F × MessageId)) :
    entered (taken.map fun p => .taken p.1 p.2) = [] := by
  simp [entered, filterMap_map]

variable {taken : List (MessageBundle β F × MessageId)} {seen rest : List ℕ}

/-- The lists after the visitor took a message, and the messages that it may still take. -/
theorem Inv.take (h : w.Inv W C (seen ++ i :: rest)) (htake : takes i)
    (hrem : ∀ j ∈ i :: rest, takes j → w.Removable j) :
    (seen ++ i :: rest).erase i = seen ++ rest ∧
    (∃ W' C', (w.unqueue i (w.messageVec i).msgbundle
      (w.messageVec i).msgbundle.messageFlags.waitResponse).Inv W' C' (seen ++ rest)) ∧
    ∀ j ∈ rest, takes j → (w.unqueue i (w.messageVec i).msgbundle
      (w.messageVec i).msgbundle.messageFlags.waitResponse).Removable j := by
  have hnd := nodup_middle.1 h.orderNodup
  have hiseen : i ∉ seen := fun hmem => (nodup_cons.1 hnd).1 (by simp [hmem])
  have hirest : i ∉ rest := fun hmem => (nodup_cons.1 hnd).1 (by simp [hmem])
  have herase : (seen ++ i :: rest).erase i = seen ++ rest := by
    rw [erase_append_right _ hiseen, erase_cons_head]
  have h1 := h.unqueue_removable (by simp) (hrem i mem_cons_self htake)
  rw [herase] at h1
  refine ⟨herase, ⟨_, _, h1⟩, fun j hj hjt => ?_⟩
  have hne : j ≠ i := fun heq => hirest (heq ▸ hj)
  rw [Removable, unqueue_of_ne hne, unqueue_current]
  exact hrem j (mem_cons_of_mem i hj) hjt

/-- **The visitor keeps the lists**, from any point of the order list on. -/
theorem visitFrom_spec (h : w.Inv W C (seen ++ rest))
    (hrem : ∀ i ∈ rest, takes i → w.Removable i)
    (hvisit : visitFrom takes n rest.head? w = some (taken, w')) :
    ∃ W' C' O', w'.Inv W' C' O' ∧
      Balanced w (seen ++ rest) (taken.map fun p => .taken p.1 p.2) w' O' := by
  induction n generalizing w W C seen rest taken with
  | zero =>
    cases rest with
    | nil =>
      rw [head?_nil, visitFrom] at hvisit
      cases hvisit
      exact ⟨W, C, _, h, Balanced.refl _ _⟩
    | cons i rest => cases hvisit
  | succ n ih =>
    cases rest with
    | nil =>
      rw [head?_nil, visitFrom] at hvisit
      cases hvisit
      exact ⟨W, C, _, h, Balanced.refl _ _⟩
    | cons i rest =>
      have hi : i ∈ seen ++ i :: rest := by simp
      have hptr := ((h.owned i).1 hi).2
      have hprev := h.order.previousIndex
      rw [head?_cons] at hvisit
      cases htake : takes i with
      | false =>
        rw [visitFrom_leave htake hptr, hprev] at hvisit
        have h1 : w.Inv W C ((seen ++ [i]) ++ rest) := by simpa using h
        obtain ⟨W', C', O', h', hbal⟩ :=
          ih h1 (fun j hj => hrem j (mem_cons_of_mem i hj)) hvisit
        exact ⟨W', C', O', h', by simpa using hbal⟩
      | true =>
        rw [visitFrom_take htake hptr, hprev] at hvisit
        obtain ⟨⟨taken', w''⟩, hrest, heq⟩ := map_eq_some_iff.1 hvisit
        cases heq
        obtain ⟨herase, ⟨W₁, C₁, h1⟩, hrem1⟩ := h.take htake hrem
        obtain ⟨W', C', O', h', hbal⟩ := ih h1 hrem1 hrest
        refine ⟨W', C', O', h', ?_⟩
        have hown := ownedBy_erase h.orderNodup hi fun j hj => unqueue_of_ne (w := w) hj
          (w.messageVec i).msgbundle (w.messageVec i).msgbundle.messageFlags.waitResponse
        rw [herase] at hown
        unfold Balanced at hbal ⊢
        rw [entered_taken] at hbal ⊢
        exact hown.trans (hbal.cons _)

theorem visitFrom_returns (h : w.Inv W C (seen ++ rest))
    (hrem : ∀ i ∈ rest, takes i → w.Removable i) :
    (visitFrom takes rest.length rest.head? w).isSome := by
  induction rest generalizing w W C seen with
  | nil => rfl
  | cons i rest ih =>
    have hptr := ((h.owned i).1 (by simp)).2
    have hprev := h.order.previousIndex
    rw [head?_cons, length_cons]
    cases htake : takes i with
    | false =>
      have h1 : w.Inv W C ((seen ++ [i]) ++ rest) := by simpa using h
      rw [visitFrom_leave htake hptr, hprev]
      exact ih h1 fun j hj => hrem j (mem_cons_of_mem i hj)
    | true =>
      obtain ⟨-, ⟨W₁, C₁, h1⟩, hrem1⟩ := h.take htake hrem
      rw [visitFrom_take htake hptr, hprev, isSome_map]
      exact ih h1 hrem1

theorem forEveryMessagesNewerToOlder_spec {fuel : ℕ}
    (h : w.Inv W C O)
    (hrem : ∀ i ∈ O, takes i → w.Removable i)
    (hvisit : w.forEveryMessagesNewerToOlder takes fuel = some (taken, w')) :
    ∃ W' C' O', w'.Inv W' C' O' ∧ Balanced w O (taken.map fun p => .taken p.1 p.2) w' O' := by
  unfold forEveryMessagesNewerToOlder at hvisit
  rw [h.order.front] at hvisit
  have hseen : w.Inv W C ([] ++ O) := h
  exact visitFrom_spec hseen hrem hvisit

end Visit

end MessageWriter

end SolidFrame
