/-
  SolidFrame formalization — who uses the stubs of a pool
  (`solid/frame/mpipc/src/mpipcservice.cpp`, `mpipcconnection.cpp`).

  A stub of a pool is in the order list, in the cache, or held by one connection, which
  has its id: in its writer, in its vector of pending messages, or in an event that was not
  delivered yet.
-/
import SolidFrame.Mpipc.Service

namespace SolidFrame

open Function List Nat Option PoolMessages

/-! ## Ids that a connection holds -/

/-- The message of the pool that an event announces, or that it asks to complete. -/
def ConnectionEvent.messageId? : ConnectionEvent → Option MessageId
  | .newConnMessage id => some id
  | .cancelPoolMessage id => some id
  | _ => none

variable {ids : List MessageId} {i : ℕ} {cfg : PoolConfiguration}

namespace Connection
variable {β F : Type}

def writerTokens (v : ConnectionWriter β F) : List MessageId :=
  (v.messages.map WriterMessage.poolMsgId).filter fun id => id.index.isSome

def tokens (con : Connection β F) : List MessageId :=
  writerTokens con.writer ++
    (con.pendingMessageVec ++ con.events.filterMap ConnectionEvent.messageId?)

theorem tokens_addEvent (con : Connection β F) (e : ConnectionEvent) :
    ({ con with events := con.events ++ [e] } : Connection β F).tokens =
      con.tokens ++ e.messageId?.toList := by
  unfold tokens
  rw [filterMap_append, append_assoc, append_assoc]
  cases he : e.messageId? <;> simp [he]

theorem tokens_popEvent (con : Connection β F) {e : ConnectionEvent} {es : List ConnectionEvent}
    (h : con.events = e :: es) :
    con.tokens.Perm (e.messageId?.toList ++
    ({ con with events := es } : Connection β F).tokens) := by
  unfold tokens
  rw [h]
  cases he : e.messageId? with
  | none =>
    rw [filterMap_cons_none he]
    rfl
  | some id =>
    rw [filterMap_cons_some he, ← append_assoc]
    refine perm_middle.trans ?_
    rw [append_assoc]
    rfl

theorem tokens_addPending (con : Connection β F) (id : MessageId) :
    ({ con with pendingMessageVec := con.pendingMessageVec ++ [id] } : Connection β F).tokens.Perm
      (id :: con.tokens) := by
  unfold tokens
  rw [append_assoc, singleton_append, ← append_assoc, ← append_assoc]
  exact perm_middle

theorem tokens_popPending (con : Connection β F) {id : MessageId}
    (h : con.pendingMessageVec = id :: ids) :
    con.tokens.Perm (id :: ({ con with pendingMessageVec := ids } : Connection β F).tokens) := by
  unfold tokens
  rw [h]
  exact perm_middle

end Connection

section Enqueue
variable {β F : Type} {v v' : ConnectionWriter β F} {cfg : WriterConfiguration}
  {b : MessageBundle β F} {poolMsgId id : MessageId}

theorem ConnectionWriter.enqueue_some (h : v.enqueue cfg b poolMsgId = some (id, v')) :
    v'.messages = v.messages ++ [⟨MessageWriter.clearDisruptingFlags b, id, poolMsgId, true,
    false⟩] ∧
      v'.canceled = v.canceled := by
  unfold enqueue at h
  split_ifs at h with hfull hresponse
  obtain ⟨rfl, rfl⟩ := Prod.mk.inj (Option.some.inj h)
  exact ⟨rfl, rfl⟩

theorem Connection.tokens_enqueue (con : Connection β F)
    (h : con.writer.enqueue cfg b poolMsgId = some (id, v')) :
    ({ con with writer := v' } : Connection β F).tokens.Perm
      ([poolMsgId].filter (fun id => id.index.isSome) ++ con.tokens) := by
  obtain ⟨hmessages, -⟩ := ConnectionWriter.enqueue_some h
  have hwriter : writerTokens v' = writerTokens con.writer ++
      [poolMsgId].filter fun id => id.index.isSome := by
    rw [writerTokens, hmessages, map_append, filter_append]
    rfl
  unfold tokens
  rw [hwriter, append_assoc]
  exact perm_append_comm_assoc _ _ _

end Enqueue

section Writer
variable {β F : Type} (con : Connection β F)

theorem Connection.tokens_erase {k : ℕ} {t : WriterMessage β F}
    (h : con.writer.messages[k]? = some t) :
    con.tokens.Perm ([t.poolMsgId].filter (fun id => id.index.isSome) ++
      ({ con with writer := con.writer.erase k } : Connection β F).tokens) := by
  obtain ⟨hk, rfl⟩ := List.getElem?_eq_some_iff.1 h
  have hwriter : (writerTokens con.writer).Perm
      ([con.writer.messages[k].poolMsgId].filter (fun id => id.index.isSome) ++
        writerTokens (con.writer.erase k)) := by
    have hperm := ((List.getElem_cons_eraseIdx_perm hk).map WriterMessage.poolMsgId).filter
      fun id => id.index.isSome
    rw [List.map_cons, ← List.singleton_append, List.filter_append] at hperm
    exact hperm.symm
  unfold tokens
  rw [← List.append_assoc ([con.writer.messages[k].poolMsgId].filter _)]
  exact hwriter.append_right _

theorem Connection.tokens_modify (k : ℕ) {f : WriterMessage β F → WriterMessage β F}
    (hf : ∀ t, (f t).poolMsgId = t.poolMsgId) :
    ({ con with writer := { con.writer with messages := con.writer.messages.modify k f } } :
      Connection β F).tokens = con.tokens := by
  have hmap : (con.writer.messages.modify k f).map WriterMessage.poolMsgId =
      con.writer.messages.map WriterMessage.poolMsgId := by
    refine ext_getElem? fun j => ?_
    rw [getElem?_map, getElem?_map, getElem?_modify]
    split_ifs with hj
    · cases con.writer.messages[j]? <;> simp [hf]
    · simp
  unfold tokens writerTokens
  rw [hmap]

end Writer

namespace PoolMessages
variable {β F : Type} {m m' : PoolMessages β F} {id : MessageId} {i : ℕ}

theorem find_eq_some :
    m.find id = some i ↔ id.index = some i ∧ i < m.vecSize ∧ (m.msgvec i).unique = id.unique := by
  unfold find
  constructor
  · intro h
    obtain ⟨hindex, hi⟩ := filter_eq_some_iff.1 h
    exact ⟨hindex, of_decide_eq_true hi⟩
  · rintro ⟨hindex, hi⟩
    exact filter_eq_some_iff.2 ⟨hindex, decide_eq_true hi⟩

theorem find_messageId (h : i < m.vecSize) : m.find (m.messageId i) = some i :=
  find_eq_some.2 ⟨rfl, h, rfl⟩

theorem find_inj {id' : MessageId} (h : m.find id = some i) (h' : m.find id' = some i) :
    id = id' := by
  obtain ⟨hindex, -, hunique⟩ := find_eq_some.1 h
  obtain ⟨hindex', -, hunique'⟩ := find_eq_some.1 h'
  rcases id with ⟨n, u⟩
  rcases id' with ⟨n', u'⟩
  exact congrArg₂ MessageId.mk (hindex.trans hindex'.symm) (hunique.symm.trans hunique')

theorem find_of_frame (h : m.find id = some i) (hsize : m.vecSize ≤ m'.vecSize)
    (hunique : (m'.msgvec i).unique = (m.msgvec i).unique) : m'.find id = some i := by
  obtain ⟨hindex, hlt, hu⟩ := find_eq_some.1 h
  exact find_eq_some.2 ⟨hindex, lt_of_lt_of_le hlt hsize, hunique.trans hu⟩

end PoolMessages

theorem Service.makeCancelable_msgbundle {β F : Type} (m : PoolMessages β F) (i j : ℕ)
    (cancelable : Bool) :
    ((Service.makeCancelable m i cancelable).msgvec j).msgbundle = (m.msgvec j).msgbundle := by
  cases cancelable
  · rfl
  · unfold Service.makeCancelable
    rcases eq_or_ne j i with rfl | hne
    · rw [if_pos rfl, modifyStub_self]
    · rw [if_pos rfl, modifyStub_of_ne _ _ hne]

/-! ## Stubs -/

/-- Who uses a stub. -/
inductive Owner where
  | order
  | cache
  | conn (c : ObjectId)
  deriving DecidableEq

/-- **No stub is used twice**: not by two lists, two connections, or a list and a
    connection. -/
structure Slots {β F : Type} (m : PoolMessages β F) (conns : ObjectId → Connection β F)
    (O A C : List ℕ) (own : ℕ → Owner) : Prop where
  lists : m.Lists O A C
  async : ∀ i ∈ O, (m.msgvec i).isAsynchronous = true ↔ i ∈ A
  order : ∀ i ∈ O, own i = .order
  cache : ∀ i ∈ C, own i = .cache
  held : ∀ c, ∀ id ∈ (conns c).tokens, ∃ i, m.find id = some i ∧ own i = .conn c
  nodup : ∀ c, (conns c).tokens.Nodup

namespace Slots
variable {β F : Type} {m m' : PoolMessages β F} {conns conns' : ObjectId → Connection β F}
  {O A C O' A' C' : List ℕ} {own : ℕ → Owner} {i : ℕ}

section
variable (h : Slots m conns O A C own)
include h

theorem notMem_order {c : ObjectId} (hi : own i = .conn c) : i ∉ O := by
  intro hmem
  rw [h.order i hmem] at hi
  cases hi

theorem notMem_cache {c : ObjectId} (hi : own i = .conn c) : i ∉ C := by
  intro hmem
  rw [h.cache i hmem] at hi
  cases hi

theorem move (o : Owner) (hlists : m'.Lists O' A' C')
    (hO : ∀ j ∈ O', j ≠ i → j ∈ O ∧ (j ∈ A' ↔ j ∈ A))
    (hOi : i ∈ O' → o = .order ∧ ((m'.msgvec i).isAsynchronous ↔ i ∈ A'))
    (hC : ∀ j ∈ C', j ≠ i → j ∈ C) (hCi : i ∈ C' → o = .cache)
    (hsize : m.vecSize ≤ m'.vecSize) (hframe : ∀ j, j ≠ i → m'.msgvec j = m.msgvec j)
    (htokens : ∀ c, ∀ id ∈ (conns' c).tokens, (m'.find id = some i ∧ o = .conn c) ∨
      (id ∈ (conns c).tokens ∧ m.find id ≠ some i))
    (hnodup : ∀ c, (conns' c).tokens.Nodup) :
    Slots m' conns' O' A' C' (update own i o) := by
  refine ⟨hlists, fun j hj => ?_, fun j hj => ?_, fun j hj => ?_, fun c id hid => ?_, hnodup⟩
  · rcases eq_or_ne j i with rfl | hne
    · exact (hOi hj).2
    · obtain ⟨hjO, hA⟩ := hO j hj hne
      rw [hframe j hne, hA]
      exact h.async j hjO
  · rcases eq_or_ne j i with rfl | hne
    · rw [update_self]
      exact (hOi hj).1
    · rw [update_of_ne hne]
      exact h.order j (hO j hj hne).1
  · rcases eq_or_ne j i with rfl | hne
    · rw [update_self]
      exact hCi hj
    · rw [update_of_ne hne]
      exact h.cache j (hC j hj hne)
  · rcases htokens c id hid with ⟨hfind, rfl⟩ | ⟨hid, hnot⟩
    · exact ⟨i, hfind, update_self _ _ _⟩
    · obtain ⟨j, hfind, hown⟩ := h.held c id hid
      have hne : j ≠ i := fun heq => hnot (heq ▸ hfind)
      refine ⟨j, find_of_frame hfind hsize (by rw [hframe j hne]), ?_⟩
      rw [update_of_ne hne, hown]

theorem congr_tokens
    (hsub : ∀ c, (conns' c).tokens.Subperm (conns c).tokens) : Slots m conns' O A C own := by
  refine ⟨h.lists, h.async, h.order, h.cache, fun c id hid => h.held c id ((hsub c).subset hid),
    fun c => ?_⟩
  obtain ⟨l, hperm, hl⟩ := hsub c
  exact hperm.nodup_iff.1 ((h.nodup c).sublist hl)

theorem modifyStub (i : ℕ) {f : MessageStub β F → MessageStub β F}
    (hunique : (f (m.msgvec i)).unique = (m.msgvec i).unique)
    (hasync : i ∈ O → (f (m.msgvec i)).isAsynchronous = (m.msgvec i).isAsynchronous) :
    Slots (m.modifyStub i f) conns O A C own := by
  have hstub : ∀ j, ((m.modifyStub i f).msgvec j).unique = (m.msgvec j).unique := by
    intro j
    rcases eq_or_ne j i with rfl | hne
    · rw [modifyStub_self, hunique]
    · rw [modifyStub_of_ne _ _ hne]
  refine ⟨h.lists.modifyStub i f, fun j hj => ?_, h.order, h.cache, fun c id hid => ?_, h.nodup⟩
  · rw [← h.async j hj]
    rcases eq_or_ne j i with rfl | hne
    · rw [modifyStub_self, hasync hj]
    · rw [modifyStub_of_ne _ _ hne]
  · obtain ⟨j, hfind, hown⟩ := h.held c id hid
    exact ⟨j, find_of_frame hfind (le_refl _) (hstub j), hown⟩

theorem find_ne {c : ObjectId} {id : MessageId}
    (hi : own i ≠ .conn c) (hid : id ∈ (conns c).tokens) : m.find id ≠ some i := by
  intro hfind
  obtain ⟨j, hj, hown⟩ := h.held c id hid
  obtain rfl := Option.some.inj (hfind.symm.trans hj)
  exact hi hown

theorem clearPopAndCacheMessage (hi : i ∈ O) :
    Slots (m.clearPopAndCacheMessage i) conns (O.erase i) (A.erase i) (C ++ [i])
      (update own i .cache) := by
  have hown := h.order i hi
  refine h.move .cache (h.lists.clearPopAndCacheMessage hi (h.async i hi)) (fun j hj hne => ?_)
    (fun hmem => absurd hmem h.lists.order.nodup.not_mem_erase) (fun j hj hne => ?_)
    (fun _ => rfl) ?_ (fun j hne => ?_) (fun c id hid => .inr ⟨hid, ?_⟩) h.nodup
  · exact ⟨mem_of_mem_erase hj, mem_erase_of_ne hne⟩
  · exact (mem_append.1 hj).resolve_right fun hmem => hne (mem_singleton.1 hmem)
  · simp [PoolMessages.clearPopAndCacheMessage, PoolMessages.modifyStub,
      PoolMessages.cachePushBack, PoolMessages.withCache]
  · rw [PoolMessages.clearPopAndCacheMessage, PoolMessages.modifyStub_of_ne _ _ hne]
    simp [PoolMessages.cachePushBack, PoolMessages.withCache]
  · exact h.find_ne (by rw [hown]; exact Owner.noConfusion) hid

theorem release {c : ObjectId} (hown : own i = .conn c) (hlt : i < m.vecSize)
    (htokens : ∀ c, ∀ id ∈ (conns' c).tokens, id ∈ (conns c).tokens ∧ m.find id ≠ some i)
    (hnodup : ∀ c, (conns' c).tokens.Nodup) :
    Slots (m.clearAndCacheMessage i) conns' O A (C ++ [i]) (update own i .cache) := by
  have hO := h.notMem_order hown
  refine h.move .cache (h.lists.clearAndCacheMessage hO (h.notMem_cache hown) hlt)
    (fun j hj _ => ⟨hj, Iff.rfl⟩) (fun hi => absurd hi hO) (fun j hj hne => ?_) (fun _ => rfl)
    (le_refl _) (fun j hne => modifyStub_of_ne _ _ hne _)
    (fun c id hid => .inr (htokens c id hid)) hnodup
  exact (mem_append.1 hj).resolve_right fun hmem => hne (mem_singleton.1 hmem)

variable {con : Connection β F}

theorem forget {c : ObjectId} {id : MessageId} (hfind : m.find id = some i)
    (hid : (id :: con.tokens).Subperm (conns c).tokens) :
    own i = .conn c ∧ (∀ c', (update conns c con c').tokens.Nodup) ∧
      ∀ c', ∀ id' ∈ (update conns c con c').tokens,
        id' ∈ (conns c').tokens ∧ m.find id' ≠ some i := by
  have hmem : id ∈ (conns c).tokens := hid.subset mem_cons_self
  obtain ⟨l, hperm, hl⟩ := hid
  obtain ⟨hnotin, hnodup⟩ := nodup_cons.1 (hperm.nodup_iff.1 ((h.nodup c).sublist hl))
  have hown : own i = .conn c := by
    obtain ⟨j, hj, hown⟩ := h.held c id hmem
    rwa [← Option.some.inj (hfind.symm.trans hj)] at hown
  refine ⟨hown, fun c' => ?_, fun c' id' hid' => ?_⟩
  · rcases eq_or_ne c' c with rfl | hc
    · rw [update_self]
      exact hnodup
    · rw [update_of_ne hc]
      exact h.nodup c'
  · rcases eq_or_ne c' c with rfl | hc
    · rw [update_self] at hid'
      refine ⟨hl.subset (hperm.mem_iff.2 (mem_cons_of_mem id hid')), fun hfind' => ?_⟩
      exact hnotin (find_inj hfind' hfind ▸ hid')
    · rw [update_of_ne hc] at hid'
      refine ⟨hid', h.find_ne ?_ hid'⟩
      rw [hown]
      exact fun heq => hc (Owner.conn.inj heq).symm

theorem clearAndCacheMessage {c : ObjectId} {id : MessageId} (hfind : m.find id = some i)
    (hid : (id :: con.tokens).Subperm (conns c).tokens) :
    Slots (m.clearAndCacheMessage i) (update conns c con) O A (C ++ [i]) (update own i .cache) := by
  obtain ⟨hown, hnodup, htokens⟩ := h.forget hfind hid
  exact h.release hown (find_eq_some.1 hfind).2.1 htokens hnodup

theorem find_ne_placed {b : MessageBundle β F} {c : ObjectId} {id : MessageId}
    (hp : Placed m m' O C C' i b) (hid : id ∈ (conns c).tokens) : m.find id ≠ some i := by
  intro hfind
  rcases hp.unused with hC | hle
  · exact h.find_ne (by rw [h.cache i hC]; exact Owner.noConfusion) hid hfind
  · exact absurd (find_eq_some.1 hfind).2.1 (not_lt.2 hle)

theorem placed {b : MessageBundle β F} {o : Owner}
    (hlists : m'.Lists O' A' C') (hp : Placed m m' O C C' i b)
    (hO : ∀ j ∈ O', j ≠ i → j ∈ O ∧ (j ∈ A' ↔ j ∈ A))
    (hOi : i ∈ O' → o = .order ∧ (b.messageFlags.isAsynchronous ↔ i ∈ A'))
    (htokens : ∀ c, ∀ id ∈ (conns' c).tokens,
      (m'.find id = some i ∧ o = .conn c) ∨ id ∈ (conns c).tokens)
    (hnodup : ∀ c, (conns' c).tokens.Nodup) :
    Slots m' conns' O' A' C' (update own i o) := by
  refine h.move o hlists hO (fun hi => ?_) (fun j hj _ => hp.cacheSub hj)
    (fun hi => absurd hi hp.notCache) hp.size_le hp.frame (fun c id hid => ?_) hnodup
  · obtain ⟨ho, hA⟩ := hOi hi
    refine ⟨ho, ?_⟩
    rw [MessageStub.isAsynchronous, hp.bundle]
    exact hA
  · rcases htokens c id hid with hnew | hold
    · exact .inl hnew
    · exact .inr ⟨hold, h.find_ne_placed hp hold⟩

theorem makeCancelable (i : ℕ) (cancelable : Bool) :
    Slots (Service.makeCancelable m i cancelable) conns O A C own := by
  unfold Service.makeCancelable
  cases cancelable
  · exact h
  · rw [if_pos rfl]
    exact h.modifyStub i rfl fun _ => rfl

theorem pushBackMessage (b : MessageBundle β F) :
    ∃ i m' A' C', m.pushBackMessage b = some (i, m') ∧ Placed m m' O C C' i b ∧
      Slots m' conns (O ++ [i]) A' C' (update own i .order) := by
  obtain ⟨i, m', C', hpush, hlists, hp⟩ := pushBackMessage_spec h.lists b
  have hiA : i ∉ A := fun hi => hp.notOrder (h.lists.asyncSub hi)
  refine ⟨i, m', _, C', hpush, hp, h.placed hlists hp (fun j hj hne => ?_) (fun _ => ⟨rfl, ?_⟩)
    (fun c id hid => .inr hid) h.nodup⟩
  · refine ⟨(mem_append.1 hj).resolve_right fun hi => hne (mem_singleton.1 hi), ?_⟩
    cases b.messageFlags.isAsynchronous <;> simp [hne]
  · cases b.messageFlags.isAsynchronous <;> simp [hiA]

theorem insertMessage (b : MessageBundle β F) (c : ObjectId) :
    ∃ i m' C', m.insertMessage b = some (i, m') ∧ Placed m m' O C C' i b ∧
      (∀ conns' : ObjectId → Connection β F,
        (∀ c', (conns' c').tokens.Subperm ((if c' = c then [m'.messageId i] else []) ++
          (conns c').tokens)) →
        Slots m' conns' O A C' (update own i (.conn c))) ∧
      Slots (m'.clearAndCacheMessage i) conns O A (C' ++ [i]) (update own i .cache) := by
  obtain ⟨i, m', C', hins, hlists, hp⟩ := insertMessage_spec h.lists b
  refine ⟨i, m', C', hins, hp, fun conns' hsub => ?_, ?_⟩
  rotate_left
  · -- the message is taken back
    refine h.move .cache (hlists.clearAndCacheMessage hp.notOrder hp.notCache hp.lt)
      (fun j hj _ => ⟨hj, Iff.rfl⟩) (fun hi => absurd hi hp.notOrder) (fun j hj hne => ?_)
      (fun _ => rfl) hp.size_le (fun j hne => ?_)
      (fun c id hid => .inr ⟨hid, h.find_ne_placed hp hid⟩) h.nodup
    · exact hp.cacheSub ((mem_append.1 hj).resolve_right fun hmem =>
        hne (mem_singleton.1 hmem))
    · rw [← hp.frame j hne]
      exact modifyStub_of_ne _ _ hne _
  have hfresh : m'.messageId i ∉ (conns c).tokens := by
    intro hmem
    obtain ⟨j, hfind, -⟩ := h.held c _ hmem
    obtain rfl : i = j := Option.some.inj (find_eq_some.1 hfind).1
    exact h.find_ne_placed hp hmem hfind
  refine h.placed hlists hp (fun j hj _ => ⟨hj, Iff.rfl⟩) (fun hi => absurd hi hp.notOrder)
    (fun c' id hid => ?_) fun c' => ?_
  · have hmem := (hsub c').subset hid
    by_cases hc : c' = c
    · rw [if_pos hc, singleton_append, mem_cons] at hmem
      rcases hmem with rfl | hmem
      · exact .inl ⟨find_messageId hp.lt, by rw [hc]⟩
      · exact .inr hmem
    · rw [if_neg hc] at hmem
      exact .inr hmem
  · obtain ⟨l, hperm, hl⟩ := hsub c'
    refine hperm.nodup_iff.1 (List.Nodup.sublist hl ?_)
    by_cases hc : c' = c
    · subst hc
      rw [if_pos rfl, singleton_append]
      exact nodup_cons.2 ⟨hfresh, h.nodup c'⟩
    · rw [if_neg hc]
      exact h.nodup c'

end

section Take
variable {cfg : PoolConfiguration} {c : ObjectId} {v' : ConnectionWriter β F}

theorem doTryPushMessageToConnection (h : Slots m conns O A C own) (hi : i ∈ O)
    (hpush : m.doTryPushMessageToConnection cfg c (conns c).writer i = some (m', v')) :
    ∃ C' own', Slots m' (update conns c { conns c with writer := v' }) (O.erase i)
        (A.erase i) C' own' ∧
      (m.msgvec i).msgbundle.messagePtr.isSome ∧ ∀ j, j ≠ i → m'.msgvec j = m.msgvec j := by
  unfold PoolMessages.doTryPushMessageToConnection at hpush
  have hown := h.order i hi
  have hfind : ∀ c', ∀ id ∈ (conns c').tokens, m.find id ≠ some i := fun c' id hid =>
    h.find_ne (by rw [hown]; exact Owner.noConfusion) hid
  by_cases hnull : (m.msgvec i).msgbundle.messagePtr.isNone
  · rw [if_pos hnull] at hpush
    cases hpush
  rw [if_neg hnull] at hpush
  have hptr : (m.msgvec i).msgbundle.messagePtr.isSome := by simpa [isNone_iff_eq_none,
    isSome_iff_ne_none] using hnull
  by_cases hcancel : (m.msgvec i).cancelable
  · rw [if_pos hcancel] at hpush
    obtain ⟨⟨connMsgId, v1⟩, henq, heq⟩ := map_eq_some_iff.1 hpush
    obtain ⟨rfl, rfl⟩ := Prod.mk.inj heq
    have hperm := (conns c).tokens_enqueue henq
    rw [filter_cons_of_pos rfl, filter_nil, singleton_append] at hperm
    have hfresh : m.messageId i ∉ (conns c).tokens := fun hmem =>
      hfind c _ hmem (PoolMessages.find_messageId (h.lists.orderLt i hi))
    have hframe : ∀ j, j ≠ i →
        ((m.handOver c i connMsgId).unlink i (m.msgvec i).isAsynchronous).msgvec j =
        m.msgvec j := by
      intro j hne
      rw [PoolMessages.unlink_msgvec, PoolMessages.handOver, PoolMessages.modifyStub_of_ne _ _ hne]
    refine ⟨C, _, h.move (.conn c) ((h.lists.modifyStub i _).unlink hi (h.async i hi))
      (fun j hj hne => ⟨mem_of_mem_erase hj, mem_erase_of_ne hne⟩)
      (fun hmem => absurd hmem h.lists.order.nodup.not_mem_erase) (fun j hj _ => hj)
      (fun hC => absurd hC (h.lists.disjoint hi)) ?_ hframe (fun c' id hid => ?_) fun c' => ?_,
      hptr, hframe⟩
    · rw [PoolMessages.unlink_vecSize]
      exact le_refl _
    · rcases eq_or_ne c' c with rfl | hc
      · rw [update_self, hperm.mem_iff, mem_cons] at hid
        rcases hid with rfl | hid
        · refine .inl ⟨PoolMessages.find_eq_some.2 ⟨rfl, ?_, ?_⟩, rfl⟩
          · rw [PoolMessages.unlink_vecSize]
            exact h.lists.orderLt i hi
          · rw [PoolMessages.unlink_msgvec, PoolMessages.handOver, PoolMessages.modifyStub_self]
            rfl
        · exact .inr ⟨hid, hfind c' id hid⟩
      · rw [update_of_ne hc] at hid
        exact .inr ⟨hid, hfind c' id hid⟩
    · rcases eq_or_ne c' c with rfl | hc
      · rw [update_self]
        exact hperm.nodup_iff.2 (nodup_cons.2 ⟨hfresh, h.nodup c'⟩)
      · rw [update_of_ne hc]
        exact h.nodup c'
  · rw [if_neg hcancel] at hpush
    obtain ⟨⟨connMsgId, v1⟩, henq, heq⟩ := map_eq_some_iff.1 hpush
    obtain ⟨rfl, rfl⟩ := Prod.mk.inj heq
    have hperm := (conns c).tokens_enqueue henq
    rw [filter_cons_of_neg (by simp), filter_nil, nil_append] at hperm
    refine ⟨_, _, (h.clearPopAndCacheMessage hi).congr_tokens fun c' => ?_, hptr, fun j hne => ?_⟩
    · rcases eq_or_ne c' c with rfl | hc
      · rw [update_self]
        exact hperm.subperm
      · rw [update_of_ne hc]
    · rw [PoolMessages.clearPopAndCacheMessage, PoolMessages.modifyStub_of_ne _ _ hne]
      simp [PoolMessages.cachePushBack, PoolMessages.withCache]

theorem doTryPushMessageIdToConnection {id : MessageId}
    (h : Slots m conns O A C own) (hids : (conns c).pendingMessageVec = id :: ids)
    (hfind : m.find id = some i)
    (hpush : m.doTryPushMessageIdToConnection cfg c (conns c).writer i id = some (m', v')) :
    ∃ C' own', Slots m' (update conns c
        { conns c with writer := v', pendingMessageVec := ids }) O A C' own' ∧
      i ∉ O ∧ ∀ j, j ≠ i → m'.msgvec j = m.msgvec j := by
  have htokens := (conns c).tokens_popPending hids
  have hown : own i = .conn c := by
    obtain ⟨j, hj, hown⟩ := h.held c id (htokens.mem_iff.2 mem_cons_self)
    rwa [← Option.some.inj (hfind.symm.trans hj)] at hown
  have hiO : i ∉ O := h.notMem_order hown
  set con : Connection β F := { conns c with pendingMessageVec := ids } with hcon
  unfold PoolMessages.doTryPushMessageIdToConnection at hpush
  by_cases hcancel : (m.msgvec i).cancelable
  · rw [if_pos hcancel] at hpush
    obtain ⟨⟨connMsgId, v1⟩, henq, heq⟩ := map_eq_some_iff.1 hpush
    obtain ⟨rfl, rfl⟩ := Prod.mk.inj heq
    have hperm := con.tokens_enqueue henq
    have hindex : id.index.isSome := by rw [(PoolMessages.find_eq_some.1 hfind).1]; rfl
    rw [filter_cons_of_pos (by simpa using hindex), filter_nil, singleton_append] at hperm
    refine ⟨C, own, (h.modifyStub i rfl fun hi => absurd hi hiO).congr_tokens fun c' => ?_,
      hiO, fun j hne => PoolMessages.modifyStub_of_ne _ _ hne _⟩
    rcases eq_or_ne c' c with rfl | hc
    · rw [update_self]
      exact (hperm.trans htokens.symm).subperm
    · rw [update_of_ne hc]
  · rw [if_neg hcancel] at hpush
    obtain ⟨⟨connMsgId, v1⟩, henq, heq⟩ := map_eq_some_iff.1 hpush
    obtain ⟨rfl, rfl⟩ := Prod.mk.inj heq
    have hperm := con.tokens_enqueue henq
    rw [filter_cons_of_neg (by simp), filter_nil, nil_append] at hperm
    exact ⟨C ++ [i], _, h.clearAndCacheMessage hfind ((hperm.cons id).trans htokens.symm).subperm,
      hiO, fun j hne => PoolMessages.modifyStub_of_ne _ _ hne _⟩

theorem cacheMessageId {k : ℕ} {t : WriterMessage β F} (h : Slots m conns O A C own)
    (hk : (conns c).writer.messages[k]? = some t) :
    ∃ C' own' j, Slots (m.cacheMessageId t.poolMsgId) (update conns c
        { conns c with writer := (conns c).writer.erase k }) O A C' own' ∧ j ∉ O ∧
      (∀ i, i ≠ j → (m.cacheMessageId t.poolMsgId).msgvec i = m.msgvec i) ∧
      ∀ c', ∀ id ∈ (update conns c { conns c with writer := (conns c).writer.erase k }
        c').tokens, m.find id ≠ some j := by
  have hperm := (conns c).tokens_erase hk
  cases hindex : t.poolMsgId.index with
  | none =>
    rw [filter_cons_of_neg (by simp [hindex]), filter_nil, nil_append] at hperm
    have hsame : m.cacheMessageId t.poolMsgId = m := by rw [PoolMessages.cacheMessageId, hindex]
    rw [hsame]
    refine ⟨C, own, m.vecSize, h.congr_tokens fun c' => ?_,
      fun hO => absurd (h.lists.orderLt _ hO) (lt_irrefl _), fun _ _ => rfl,
      fun c' id _ hfind => absurd (PoolMessages.find_eq_some.1 hfind).2.1 (lt_irrefl _)⟩
    rcases eq_or_ne c' c with rfl | hc
    · rw [update_self]
      exact hperm.symm.subperm
    · rw [update_of_ne hc]
  | some i =>
    rw [filter_cons_of_pos (by simp [hindex]), filter_nil, singleton_append] at hperm
    obtain ⟨j, hfind, hown⟩ := h.held c _ (hperm.mem_iff.2 mem_cons_self)
    obtain ⟨hindex', hlt, hunique⟩ := PoolMessages.find_eq_some.1 hfind
    have hcache : m.cacheMessageId t.poolMsgId = m.clearAndCacheMessage j := by
      rw [PoolMessages.cacheMessageId, hindex']
      exact if_pos ⟨hlt, hunique⟩
    obtain ⟨-, hnodup, htokens⟩ := h.forget hfind hperm.symm.subperm
    rw [hcache]
    exact ⟨_, _, j, h.release hown hlt htokens hnodup, h.notMem_order hown,
      fun i hne => PoolMessages.modifyStub_of_ne _ _ hne _, fun c' id hid => (htokens c' id hid).2⟩

end Take

end Slots

/-! ## A poll -/

/-- The messages that left the order list had content, and the others are as before. -/
structure Drained {β F : Type} (m m' : PoolMessages β F) (O O' : List ℕ) : Prop where
  sub : O'.Sublist O
  taken : ∀ i ∈ O, i ∉ O' → (m.msgvec i).msgbundle.messagePtr.isSome
  frame : ∀ i ∈ O', m'.msgvec i = m.msgvec i

namespace Drained
variable {β F : Type} {m m' m'' : PoolMessages β F} {O O' O'' : List ℕ}

theorem of_frame (h : ∀ i ∈ O, m'.msgvec i = m.msgvec i) : Drained m m' O O :=
  ⟨List.Sublist.refl O, fun _ hi hnot => absurd hi hnot, h⟩

theorem trans (h : Drained m m' O O') (h' : Drained m' m'' O' O'') : Drained m m'' O O'' := by
  refine ⟨h'.sub.trans h.sub, fun i hi hnot => ?_, fun i hi => ?_⟩
  · by_cases hi' : i ∈ O'
    · rw [← h.frame i hi']
      exact h'.taken i hi' hnot
    · exact h.taken i hi hi'
  · rw [h'.frame i hi, h.frame i (h'.sub.subset hi)]

theorem erase (hO : O.Nodup) (hi : (m.msgvec i).msgbundle.messagePtr.isSome)
    (hframe : ∀ j, j ≠ i → m'.msgvec j = m.msgvec j) : Drained m m' O (O.erase i) := by
  refine ⟨erase_sublist, fun j hj hnot => ?_, fun j hj => hframe j fun heq => ?_⟩
  · rcases eq_or_ne j i with rfl | hne
    · exact hi
    · exact absurd ((mem_erase_of_ne hne).2 hj) hnot
  · exact hO.not_mem_erase (heq ▸ hj)

end Drained

def ConnectionWriter.Refuses {β F : Type} (cfg : WriterConfiguration) (v : ConnectionWriter β F) :
    Prop :=
  ∃ b id, v.enqueue cfg b id = none

theorem doTryPushMessageToConnection_none {β F : Type} {m : PoolMessages β F}
    {c : ObjectId} {v : ConnectionWriter β F}
    (h : m.doTryPushMessageToConnection cfg c v i = none) :
    (m.msgvec i).msgbundle.messagePtr.isNone ∨ v.Refuses cfg.writer := by
  unfold doTryPushMessageToConnection at h
  by_cases hnull : (m.msgvec i).msgbundle.messagePtr.isNone
  · exact .inl hnull
  · rw [if_neg hnull] at h
    split_ifs at h with hcancel
    · exact .inr ⟨_, _, map_eq_none_iff.1 h⟩
    · exact .inr ⟨_, _, map_eq_none_iff.1 h⟩

theorem doTryPushMessageIdToConnection_none {β F : Type} {m : PoolMessages β F}
    {c : ObjectId} {v : ConnectionWriter β F} {id : MessageId}
    (h : m.doTryPushMessageIdToConnection cfg c v i id = none) : v.Refuses cfg.writer := by
  unfold doTryPushMessageIdToConnection at h
  by_cases hcancel : (m.msgvec i).cancelable
  · rw [if_pos hcancel] at h
    exact ⟨_, _, map_eq_none_iff.1 h⟩
  · rw [if_neg hcancel] at h
    exact ⟨_, _, map_eq_none_iff.1 h⟩

section Poll
variable {β F : Type} {m : PoolMessages β F} {conns : ObjectId → Connection β F}
  {O A C : List ℕ} {own : ℕ → Owner} (cfg : PoolConfiguration) (c : ObjectId)

/-- A property that is kept when the connection `c` takes a message of the pool. -/
structure KeptByTaking (P : PoolMessages β F → (ObjectId → Connection β F) → Prop) : Prop where
  ofList : ∀ {m : PoolMessages β F} {conns : ObjectId → Connection β F} {O A C : List ℕ}
    {own : ℕ → Owner} {i : ℕ} {m' : PoolMessages β F} {v' : ConnectionWriter β F},
    Slots m conns O A C own → i ∈ O →
    m.doTryPushMessageToConnection cfg c (conns c).writer i = some (m', v') →
    P m conns → P m' (update conns c { conns c with writer := v' })
  ofPending : ∀ {m : PoolMessages β F} {conns : ObjectId → Connection β F} {O A C : List ℕ}
    {own : ℕ → Owner} {id : MessageId} {ids : List MessageId} {i : ℕ} {m' : PoolMessages β F}
    {v' : ConnectionWriter β F},
    Slots m conns O A C own → (conns c).pendingMessageVec = id :: ids → m.find id = some i →
    m.doTryPushMessageIdToConnection cfg c (conns c).writer i id = some (m', v') →
    P m conns →
    P m' (update conns c { conns c with writer := v', pendingMessageVec := ids })

variable {P : PoolMessages β F → (ObjectId → Connection β F) → Prop}
variable {v' : ConnectionWriter β F} {r : PoolMessages β F × ConnectionWriter β F}

section
variable (h : Slots m conns O A C own) (hkept : KeptByTaking cfg c P) (hP : P m conns)
include h hkept hP

variable {m' : PoolMessages β F}

/-- The loop over a list of the pool ends when the list is empty, when its first message is a
    close request, or when the writer refuses it. -/
theorem Slots.pushList (isMain : Bool) {n : ℕ}
    (hn : (if isMain then O else A).length ≤ n)
    (hpush : pushList cfg c (if isMain then msgorderInnerList else msgasyncInnerList) n m
      (conns c).writer = (m', v')) :
    ∃ O' A' C' own', Slots m' (update conns c { conns c with writer := v' }) O' A' C' own' ∧
      P m' (update conns c { conns c with writer := v' }) ∧
      Drained m m' O O' ∧ ∀ i ∈ (if isMain then O' else A').head?,
        (m'.msgvec i).msgbundle.messagePtr.isNone ∨ v'.Refuses cfg.writer := by
  induction n generalizing m conns O A C own with
  | zero =>
    obtain ⟨rfl, rfl⟩ := Prod.mk.inj hpush
    rw [update_eq_self]
    refine ⟨O, A, C, own, h, hP, .of_frame fun _ _ => rfl, ?_⟩
    rw [length_eq_zero_iff.1 (le_zero.1 hn)]
    simp
  | succ n ih =>
    have hfront : ((if isMain then msgorderInnerList
        else msgasyncInnerList) m).front = (if isMain then O else A).head? := by
      cases isMain
      · exact h.lists.async.front
      · exact h.lists.order.front
    unfold pushList at hpush
    rw [hfront] at hpush
    cases hL : (if isMain then O else A) with
    | nil =>
      rw [hL] at hpush
      obtain ⟨rfl, rfl⟩ := Prod.mk.inj hpush
      rw [update_eq_self]
      refine ⟨O, A, C, own, h, hP, .of_frame fun _ _ => rfl, ?_⟩
      simp [hL]
    | cons i L =>
      rw [hL] at hpush hn
      simp only [head?_cons] at hpush
      have hi : i ∈ O := by
        have hmem : i ∈ (if isMain then O else A) := hL ▸ mem_cons_self
        cases isMain
        · exact h.lists.asyncSub hmem
        · exact hmem
      cases htake : m.doTryPushMessageToConnection cfg c (conns c).writer i with
      | none =>
        rw [htake] at hpush
        obtain ⟨rfl, rfl⟩ := Prod.mk.inj hpush
        rw [update_eq_self]
        refine ⟨O, A, C, own, h, hP, .of_frame fun _ _ => rfl, ?_⟩
        rw [hL, head?_cons]
        rintro j hj
        obtain rfl : i = j := Option.some.inj hj
        exact doTryPushMessageToConnection_none htake
      | some r =>
        obtain ⟨m1, v1⟩ := r
        rw [htake] at hpush
        obtain ⟨C1, own1, h1, hptr, hframe⟩ := h.doTryPushMessageToConnection hi htake
        have hlen : (if isMain then O.erase i else A.erase i).length ≤ n := by
          have heq : (if isMain then O.erase i else A.erase i) =
            (if isMain then O else A).erase i := by
            cases isMain <;> rfl
          rw [heq, hL, erase_cons_head]
          exact le_of_succ_le_succ hn
        have hpush1 : pushList cfg c (if isMain then msgorderInnerList
            else msgasyncInnerList) n m1
            (update conns c { conns c with writer := v1 } c).writer = (m', v') := by
          rw [update_self]
          exact hpush
        obtain ⟨O', A', C', own', h', hP', hdrained, hdone⟩ :=
          ih h1 (hkept.ofList h hi htake hP) hlen hpush1
        rw [update_self, update_idem] at h' hP'
        exact ⟨O', A', C', own', h', hP',
          (Drained.erase h.lists.order.nodup hptr hframe).trans hdrained, hdone⟩

theorem Slots.pushPending
    (hids : (conns c).pendingMessageVec = ids) {more : Bool}
    (hmore : more = false → (conns c).writer.Refuses cfg.writer)
    {ids' : List MessageId} {more' : Bool}
    (hpush : pushPending cfg c ids m (conns c).writer more = (m', v', ids', more')) :
    ∃ C' own', Slots m' (update conns c
        { conns c with writer := v', pendingMessageVec := ids' }) O A C' own' ∧
      P m' (update conns c { conns c with writer := v', pendingMessageVec := ids' }) ∧
      (∀ j ∈ O, m'.msgvec j = m.msgvec j) ∧ (more' = false → v'.Refuses cfg.writer) := by
  induction ids generalizing m conns C own more with
  | nil =>
    obtain ⟨rfl, rfl, rfl, rfl⟩ : m = m' ∧ (conns c).writer = v' ∧ [] = ids' ∧ more = more' := by
      simpa [pushPending] using hpush
    rw [← hids, update_eq_self]
    exact ⟨C, own, h, hP, fun _ _ => rfl, hmore⟩
  | cons id ids ih =>
    have hmem : id ∈ (conns c).tokens := by
      unfold Connection.tokens
      rw [hids]
      simp
    obtain ⟨i, hfind, -⟩ := h.held c id hmem
    rw [pushPending, hfind] at hpush
    simp only at hpush
    cases htake : m.doTryPushMessageIdToConnection cfg c (conns c).writer i id with
    | none =>
      rw [htake] at hpush
      obtain ⟨rfl, rfl, rfl, rfl⟩ : m = m' ∧ (conns c).writer = v' ∧ id :: ids = ids' ∧
          false = more' := by simpa using hpush
      rw [← hids, update_eq_self]
      exact ⟨C, own, h, hP, fun _ _ => rfl, fun _ => doTryPushMessageIdToConnection_none htake⟩
    | some r =>
      obtain ⟨m1, v1⟩ := r
      rw [htake] at hpush
      obtain ⟨C1, own1, h1, hiO, hframe1⟩ := h.doTryPushMessageIdToConnection hids hfind htake
      have hpush1 : pushPending cfg c ids m1 (update conns c
          { conns c with writer := v1, pendingMessageVec := ids } c).writer true =
            (m', v', ids', more') := by
        rw [update_self]
        exact hpush
      obtain ⟨C', own', h', hP', hframe, hdone⟩ :=
        ih h1 (hkept.ofPending h hids hfind htake hP) (by rw [update_self])
          (fun hfalse => by cases hfalse) hpush1
      rw [update_self, update_idem] at h' hP'
      refine ⟨C', own', h', hP', fun j hj => ?_, hdone⟩
      rw [hframe j hj, hframe1 j fun heq => hiO (heq ▸ hj)]

/-- **A poll**: the connection takes messages until there is none left for it, until the next
    one is a close request, or until its writer refuses one. -/
theorem Slots.fetch (isMain : Bool) : ∃ O' A' C' own', Slots (m.fetch cfg c isMain (conns c)).1
        (update conns c (m.fetch cfg c isMain (conns c)).2) O' A' C' own' ∧
      P (m.fetch cfg c isMain (conns c)).1 (update conns c (m.fetch cfg c isMain (conns c)).2) ∧
      Drained m (m.fetch cfg c isMain (conns c)).1 O O' ∧
      ∀ i ∈ (if isMain then O' else A').head?,
        ((m.fetch cfg c isMain (conns c)).1.msgvec i).msgbundle.messagePtr.isNone ∨
          (m.fetch cfg c isMain (conns c)).2.writer.Refuses cfg.writer := by
  have hfull : (!(conns c).writer.full cfg.writer) = false →
    (conns c).writer.Refuses cfg.writer := by
    intro hnot
    refine ⟨{}, {}, ?_⟩
    rw [ConnectionWriter.enqueue, if_pos]
    simpa [ConnectionWriter.full] using hnot
  unfold PoolMessages.fetch
  rcases hr : PoolMessages.pushPending cfg c (conns c).pendingMessageVec m (conns c).writer
    (!(conns c).writer.full cfg.writer) with ⟨m1, v1, ids1, more⟩
  obtain ⟨C1, own1, h1, hP1, hframe1, hrefuse⟩ := h.pushPending cfg c hkept hP rfl hfull hr
  cases more with
  | false =>
    exact ⟨O, A, C1, own1, h1, hP1, .of_frame hframe1, fun _ _ => .inr (hrefuse rfl)⟩
  | true =>
    set list : PoolMessages β F → InnerList :=
      if isMain then PoolMessages.msgorderInnerList else PoolMessages.msgasyncInnerList with hlist
    rcases hq : PoolMessages.pushList cfg c list (list m1).size m1 v1 with ⟨m2, v2⟩
    have hsize : (if isMain then O else A).length ≤ (list m1).size := by
      cases isMain
      · exact le_of_eq h1.lists.async.size.symm
      · exact le_of_eq h1.lists.order.size.symm
    have hq' : PoolMessages.pushList cfg c list (list m1).size m1 (update conns c
        { conns c with writer := v1, pendingMessageVec := ids1 } c).writer = (m2, v2) := by
      rw [update_self]
      exact hq
    obtain ⟨O', A', C', own', h', hP', hdrained, hdone⟩ :=
      h1.pushList cfg c hkept hP1 isMain hsize hq'
    rw [update_self, update_idem] at h' hP'
    simp only [if_true, hq]
    exact ⟨O', A', C', own', h', hP', (Drained.of_frame hframe1).trans hdrained, hdone⟩

end

/-- What a writer is after it has taken the message of a stub. -/
structure ConnectionWriter.HasTaken (v v' : ConnectionWriter β F) (b : MessageBundle β F) :
    Prop where
  messages : ∃ t : WriterMessage β F, v'.messages = v.messages ++ [t] ∧
    t.msgbundle = MessageWriter.clearDisruptingFlags b
  canceled : v'.canceled = v.canceled

theorem ConnectionWriter.HasTaken.of_enqueue {v : ConnectionWriter β F}
    {b : MessageBundle β F} {id id' : MessageId}
    (h : v.enqueue cfg.writer b id = some (id', v')) : v.HasTaken v' b :=
  ⟨⟨_, (ConnectionWriter.enqueue_some h).1, rfl⟩, (ConnectionWriter.enqueue_some h).2⟩

theorem doTryPushMessageToConnection_writer {v : ConnectionWriter β F}
    (h : m.doTryPushMessageToConnection cfg c v i = some r) :
    v.HasTaken r.2 (m.msgvec i).msgbundle := by
  unfold doTryPushMessageToConnection at h
  by_cases hnull : (m.msgvec i).msgbundle.messagePtr.isNone
  · rw [if_pos hnull] at h
    cases h
  rw [if_neg hnull] at h
  by_cases hcancel : (m.msgvec i).cancelable
  · rw [if_pos hcancel] at h
    obtain ⟨⟨connMsgId, v1⟩, henq, rfl⟩ := map_eq_some_iff.1 h
    exact .of_enqueue cfg henq
  · rw [if_neg hcancel] at h
    obtain ⟨⟨connMsgId, v1⟩, henq, rfl⟩ := map_eq_some_iff.1 h
    exact .of_enqueue cfg henq

theorem doTryPushMessageIdToConnection_writer {v : ConnectionWriter β F} {id : MessageId}
    (h : m.doTryPushMessageIdToConnection cfg c v i id = some r) :
    v.HasTaken r.2 (m.msgvec i).msgbundle := by
  unfold doTryPushMessageIdToConnection at h
  by_cases hcancel : (m.msgvec i).cancelable
  · rw [if_pos hcancel] at h
    obtain ⟨⟨connMsgId, v1⟩, henq, rfl⟩ := map_eq_some_iff.1 h
    exact .of_enqueue cfg henq
  · rw [if_neg hcancel] at h
    obtain ⟨⟨connMsgId, v1⟩, henq, rfl⟩ := map_eq_some_iff.1 h
    exact .of_enqueue cfg henq

theorem keptByTaking_canceled (n : ℕ) : @KeptByTaking β F cfg c
    fun _ conns => (conns c).writer.canceled = n where
  ofList _ _ htake hn := by
    rw [update_self]
    exact (doTryPushMessageToConnection_writer cfg c htake).canceled.trans hn
  ofPending _ _ _ htake hn := by
    rw [update_self]
    exact (doTryPushMessageIdToConnection_writer cfg c htake).canceled.trans hn

end Poll

end SolidFrame
