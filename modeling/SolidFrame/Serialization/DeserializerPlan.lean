/-
  SolidFrame formalization — what a deserializer makes of what is sent.

  `Receives tm Q d pl`: however `pl` is cut into pieces, the deserializer `d`
  takes all of it, without an error and without waiting in vain, and ends with
  empty stacks and with the memory in `Q`; or `pl` does not meet the limits, and a
  call is refused before the end.
-/
import SolidFrame.Serialization.Deserializer
import SolidFrame.Serialization.SerializerPlan

namespace SolidFrame

open DeserializerBase List

/-- What is expected of a deserializer: its limits, whether what is sent meets them,
    whether the targets are to hold what was sent, and the memory at the end. -/
structure Goal where
  lmts : Limits
  met : Prop
  faithful : Prop
  post : Mem → Prop

def Goal.unlimited (post : Mem → Prop) : Goal := ⟨.unlimited, True, True, post⟩

structure DClean (L : Limits) (d : DeserializerBase) : Prop where
  lmts : d.lmts = L
  rdefaultlmts : d.rdefaultlmts = L
  err : d.err = none
  streamerr : d.streamerr = none

/-- The state from which `run` goes on: `SuccessE` pops the function. -/
def DeserializerBase.after (ret : Ret) (d : DeserializerBase) : DeserializerBase :=
  match ret with
  | .success => { d with fstk := d.fstk.tail }
  | _ => d

/-- What a call does with a piece `p` of `pl`, when all that can follow the piece
    in the buffer comes after the end of `pl`: it takes a part of the piece and
    goes on with `r`, it takes all of it and waits, or it waits for a first
    byte. -/
def Handles (tm : TypeMap) (d : DeserializerBase) (pl : List Wire) (p ext : List Byte)
    (pl' : List Wire) (r : Option (DeserializerBase × List Wire)) : Prop :=
  match r with
  | none => p = [] ∧ pl ≠ [] ∧ d.step tm false 0 [] = some (.wait, 0, d)
  | some (d', pl₁) => ∃ ret n d'', d.step tm false 0 (p ++ ext) = some (ret, n, d'') ∧
      d' = d''.after ret ∧
      ((ret = .success ∨ ret = .cont) ∧ n ≤ p.length ∧ Sent pl (p.take n) pl₁ ∧
          Sent pl₁ (p.drop n) pl' ∨
        ret = .wait ∧ n = p.length ∧ pl₁ = pl' ∧ pl' ≠ [])

/-- The function fails, or what it does is undefined. -/
def Refused (tm : TypeMap) (d : DeserializerBase) (avail : List Byte) : Prop :=
  d.step tm false 0 avail = none ∨ ∃ n d', d.step tm false 0 avail = some (.failure, n, d')

/-- The deserializer takes all of `pl`, however it is cut, and ends in `Q`; or, when `pl`
    does not meet the limits, some call is refused before the end. -/
inductive Receives (tm : TypeMap) (Q : Goal) : DeserializerBase → List Wire → Prop where
  | done {d} : Q.met → d.fstk = [] → d.estk = [] → DClean Q.lmts d → Q.post d.mem →
      Receives tm Q d []
  | step {d pl} (next : List Byte → List Byte → List Wire → Option (DeserializerBase × List Wire)) :
      d.fstk ≠ [] → DClean Q.lmts d →
      (∀ p ext pl', Sent pl p pl' → (ext ≠ [] → pl' = []) →
        Handles tm d pl p ext pl' (next p ext pl') ∨ (¬ Q.met ∧ Refused tm d (p ++ ext))) →
      (∀ p ext pl' d' pl₁, Sent pl p pl' → (ext ≠ [] → pl' = []) →
        next p ext pl' = some (d', pl₁) → Receives tm Q d' pl₁) →
      Receives tm Q d pl

/-- What a call does with a piece, and what is left for the next calls. -/
def Answers (tm : TypeMap) (Q : Goal) (d : DeserializerBase) (pl : List Wire) (p ext : List Byte)
    (pl' : List Wire) : Prop :=
  (∃ r, Handles tm d pl p ext pl' r ∧ ∀ d' pl₁, r = some (d', pl₁) → Receives tm Q d' pl₁) ∨
    (¬ Q.met ∧ Refused tm d (p ++ ext))

section Receives
variable {tm : TypeMap} {Q : Goal} {d : DeserializerBase} {pl : List Wire}

theorem Receives.of_step (hf : d.fstk ≠ []) (hc : DClean Q.lmts d)
    (h : ∀ p ext pl', Sent pl p pl' → (ext ≠ [] → pl' = []) → Answers tm Q d pl p ext pl') :
    Receives tm Q d pl := by
  classical
  have hr : ∀ p ext pl', Sent pl p pl' → (ext ≠ [] → pl' = []) →
      ∃ r, (Handles tm d pl p ext pl' r ∨ (¬ Q.met ∧ Refused tm d (p ++ ext))) ∧
        ∀ d' pl₁, r = some (d', pl₁) → Receives tm Q d' pl₁ := by
    intro p ext pl' hcut hext
    rcases h p ext pl' hcut hext with ⟨r, hhand, hrec⟩ | hrefused
    · exact ⟨r, .inl hhand, hrec⟩
    · exact ⟨none, .inr hrefused, by rintro _ _ ⟨⟩⟩
  refine .step (fun p ext pl' =>
    if hp : Sent pl p pl' ∧ (ext ≠ [] → pl' = []) then (hr p ext pl' hp.1 hp.2).choose else none)
    hf hc ?_ ?_
  · intro p ext pl' hcut hext
    rw [dif_pos ⟨hcut, hext⟩]
    exact (hr p ext pl' hcut hext).choose_spec.1
  · intro p ext pl' d' pl₁ hcut hext heq
    rw [dif_pos ⟨hcut, hext⟩] at heq
    exact (hr p ext pl' hcut hext).choose_spec.2 d' pl₁ heq

theorem Receives.clean (h : Receives tm Q d pl) : DClean Q.lmts d := by
  cases h with
  | done _ _ _ hc _ => exact hc
  | step _ _ hc _ _ => exact hc

variable {pl' : List Wire} {p ext bs : List Byte}

theorem Handles.go {ret : Ret} {n : ℕ} {pl₁ : List Wire}
    {d' : DeserializerBase} (hstep : d.step tm false 0 (p ++ ext) = some (ret, n, d'))
    (hret : ret = .success ∨ ret = .cont) (hn : n ≤ p.length) (hcut1 : Sent pl (p.take n) pl₁)
    (hcut2 : Sent pl₁ (p.drop n) pl') (h : Receives tm Q (d'.after ret) pl₁) :
    Answers tm Q d pl p ext pl' := by
  refine .inl ⟨some (d'.after ret, pl₁),
    ⟨ret, n, d', hstep, rfl, .inl ⟨hret, hn, hcut1, hcut2⟩⟩, ?_⟩
  rintro _ _ heq
  cases heq
  exact h

theorem Handles.rest {d' : DeserializerBase}
    (hstep : d.step tm false 0 p = some (.wait, p.length, d')) (hne : pl' ≠ [])
    (h : Receives tm Q d' pl') : Answers tm Q d pl p [] pl' := by
  refine .inl ⟨some (d', pl'), ⟨.wait, p.length, d', ?_, rfl, .inr ⟨rfl, rfl, rfl, hne⟩⟩, ?_⟩
  · rw [append_nil]; exact hstep
  · rintro _ _ heq
    cases heq
    exact h

theorem Handles.idle (hstep : d.step tm false 0 [] = some (.wait, 0, d)) (hne : pl ≠ []) :
    Answers tm Q d pl [] [] pl :=
  .inl ⟨none, ⟨rfl, hne, hstep⟩, by rintro _ _ ⟨⟩⟩

theorem Receives.silent {ret : Ret} (d' : DeserializerBase) (hf : d.fstk ≠ [])
    (hc : DClean Q.lmts d) (hstep : ∀ avail, d.step tm false 0 avail = some (ret, 0, d'))
    (hret : ret = .success ∨ ret = .cont) (h : Receives tm Q (d'.after ret) pl) :
    Receives tm Q d pl :=
  .of_step hf hc fun _ _ _ hcut _ => Handles.go (hstep _) hret (Nat.zero_le _) (.nil _) hcut h

theorem Receives.refused (hf : d.fstk ≠ []) (hc : DClean Q.lmts d) (hmet : ¬ Q.met)
    (h : ∀ avail, Refused tm d avail) : Receives tm Q d pl :=
  .of_step hf hc fun _ _ _ _ _ => .inr ⟨hmet, h _⟩

theorem bytes_append_ne_nil (h : bs ≠ []) (pl : List Wire) : bytes bs ++ pl ≠ [] := by
  cases bs with
  | nil => exact absurd rfl h
  | cons b bs => simp

/-- A call that is to load a run of bytes: all of it is there, or only a part. -/
theorem Receives.of_run (hf : d.fstk ≠ []) (hc : DClean Q.lmts d)
    (hfull : ∀ q ext pl', Sent pl q pl' → (ext ≠ [] → pl' = []) →
      Answers tm Q d (bytes bs ++ pl) (bs ++ q) ext pl')
    (hpart : ∀ p bs', bs = p ++ bs' → bs' ≠ [] →
      Answers tm Q d (bytes bs ++ pl) p [] (bytes bs' ++ pl)) :
    Receives tm Q d (bytes bs ++ pl) := by
  refine .of_step hf hc fun p ext pl' hcut hext => ?_
  rcases hcut.bytes_cases with ⟨q, rfl, hq⟩ | ⟨bs', hne, rfl, rfl⟩
  · exact hfull q ext pl' hq hext
  · obtain rfl : ext = [] := by
      by_contra he
      exact bytes_append_ne_nil hne pl (hext he)
    exact hpart p bs' rfl hne

theorem Receives.of_bytes (d1 : DeserializerBase) (hf : d.fstk ≠ []) (hc : DClean Q.lmts d)
    (hfull : ∀ rest, d.step tm false 0 (bs ++ rest) = some (.success, bs.length, d1))
    (h : Receives tm Q { d1 with fstk := d1.fstk.tail } pl)
    (hpart : ∀ p bs', bs = p ++ bs' → bs' ≠ [] →
      (p = [] ∧ d.step tm false 0 [] = some (.wait, 0, d)) ∨
      (∃ d', d.step tm false 0 p = some (.wait, p.length, d') ∧
        Receives tm Q d' (bytes bs' ++ pl)) ∨
      (∃ n d', n ≤ p.length ∧ d.step tm false 0 p = some (.cont, n, d') ∧
        Receives tm Q d' (bytes (bs.drop n) ++ pl))) :
    Receives tm Q d (bytes bs ++ pl) := by
  refine .of_run hf hc (fun q ext pl' hq hext => ?_) fun p bs' hbs hne => ?_
  · have hcut1 : Sent (bytes bs ++ pl) ((bs ++ q).take bs.length) pl := by
      rw [take_left' rfl]
      exact Cut.bytes bs pl
    refine Handles.go (by rw [append_assoc]; exact hfull _) (.inl rfl) (by simp) hcut1 ?_ h
    rw [drop_left' rfl]
    exact hq
  · have hne' := bytes_append_ne_nil hne pl
    rcases hpart p bs' hbs hne with ⟨rfl, hstep⟩ | ⟨d', hstep, hrec⟩ | ⟨n, d', hn, hstep, hrec⟩
    · rw [nil_append] at hbs
      subst hbs
      exact Handles.idle hstep hne'
    · exact Handles.rest hstep hne' hrec
    · subst hbs
      refine Handles.go (by rw [append_nil]; exact hstep) (.inr rfl) hn ?_ ?_ hrec
      · have hsplit : p ++ bs' = p.take n ++ (p ++ bs').drop n := by
          rw [drop_append_of_le_length hn, ← append_assoc, take_append_drop]
        have hcut1 : Sent (bytes (p.take n ++ (p ++ bs').drop n) ++ pl) _ _ :=
          Cut.bytes_append (p.take n) ((p ++ bs').drop n) pl
        rw [← hsplit] at hcut1
        exact hcut1
      · rw [drop_append_of_le_length hn]
        exact Cut.bytes_append _ _ _

/-! ## A call of `run` -/

/-- Where a call of `run` ends: with empty stacks in `Q`, or ready for the rest. -/
def Received (tm : TypeMap) (Q : Goal) (d : DeserializerBase) (pl : List Wire) : Prop :=
  (pl = [] ∧ Q.met ∧ d.fstk = [] ∧ d.estk = [] ∧ DClean Q.lmts d ∧ Q.post d.mem) ∨
  (pl ≠ [] ∧ d.fstk ≠ [] ∧ Receives tm Q d pl)

theorem DClean.resetLimits {L : Limits} (hc : DClean L d) : d.resetLimits = d := by
  have hsame : d.rdefaultlmts = d.lmts := hc.rdefaultlmts.trans hc.lmts.symm
  cases d
  cases hsame
  rfl

theorem Sent.nil {pl : List Wire} (h : Sent pl [] pl') : pl' = pl := by
  generalize hp : ([] : List Byte) = p at h
  cases h with
  | nil => rfl
  | byte _ => cases hp
  | chunk _ _ =>
    have := congrArg List.length hp
    simp [streamChunk_length] at this
    omega
  | stop _ =>
    have := congrArg List.length hp
    simp at this
    omega

/-- The loop of `run` ends in an error, or what it does is undefined. -/
def DRun.Refused : DRun → Prop
  | .done _ _ => False
  | .failure _ | .undefined => True

theorem Receives.runLoop (h : Receives tm Q d pl) (pre : List Byte) (hcut : Sent pl p pl')
    (hext : ext ≠ [] → pl' = []) :
    (∃ fuel d', d.runLoop tm false (pre ++ (p ++ ext)) fuel pre.length =
      some (.done (pre.length + p.length) d') ∧ Received tm Q d' pl') ∨
    (¬ Q.met ∧ ∃ fuel r, d.runLoop tm false (pre ++ (p ++ ext)) fuel pre.length = some r ∧
      r.Refused) := by
  induction h generalizing pre p ext pl' with
  | done hmet hf he hc hq =>
    obtain ⟨bs', hbs, rfl⟩ := Cut.bytes_iff.1 (show Cut _ _ _ (bytes []) p pl' from hcut)
    obtain ⟨rfl, rfl⟩ := append_eq_nil_iff.1 hbs.symm
    refine .inl ⟨1, _, ?_, .inl ⟨rfl, hmet, hf, he, hc, hq⟩⟩
    rw [runLoop, hf, hc.resetLimits]
    rfl
  | @step d pl next hf hc hhand hnext ih =>
    have hpast : pre.length - (pre ++ (p ++ ext)).length = 0 := by simp
    have hdrop : (pre ++ (p ++ ext)).drop pre.length = p ++ ext := drop_left
    have hemp : d.fstk.isEmpty = false := by simpa using hf
    rcases hhand p ext pl' hcut hext with hh | ⟨hmet, hnone | ⟨n, d', hfail⟩⟩
    rotate_left
    · refine .inr ⟨hmet, 1, .undefined, ?_, trivial⟩
      rw [runLoop, hemp, hpast, hdrop, hnone]
      rfl
    · refine .inr ⟨hmet, 1, .failure d'.resetLimits, ?_, trivial⟩
      rw [runLoop, hemp, hpast, hdrop, hfail]
      rfl
    cases hr : next p ext pl' with
    | none =>
      rw [hr] at hh
      obtain ⟨rfl, hne, hstep⟩ := hh
      obtain rfl := Sent.nil hcut
      obtain rfl : ext = [] := by
        by_contra he
        exact hne (hext he)
      refine .inl ⟨1, d, ?_, .inr ⟨hne, hf, .step next hf hc hhand hnext⟩⟩
      rw [runLoop, hemp, hpast, hdrop, append_nil, hstep]
      rfl
    | some res =>
      obtain ⟨d', pl₁⟩ := res
      rw [hr] at hh
      obtain ⟨ret, n, d'', hstep, rfl, ⟨hret, hn, hcut1, hcut2⟩ | ⟨rfl, rfl, rfl, hne⟩⟩ := hh
      · have hsplit : pre ++ (p ++ ext) = (pre ++ p.take n) ++ (p.drop n ++ ext) := by
          rw [append_assoc, ← append_assoc (p.take n), take_append_drop]
        have hlen : (pre ++ p.take n).length = pre.length + n := by
          rw [length_append, length_take, Nat.min_eq_left hn]
        have hloop : ∀ fuel, d.runLoop tm false (pre ++ (p ++ ext)) (fuel + 1) pre.length =
            (d''.after ret).runLoop tm false (pre ++ (p ++ ext)) fuel (pre.length + n) := by
          intro fuel
          rw [runLoop, hemp, hpast, hdrop, hstep]
          rcases hret with rfl | rfl <;> rfl
        have hrest := ih p ext pl' _ pl₁ hcut hext hr (pre ++ p.take n) hcut2 hext
        rw [← hsplit, hlen] at hrest
        rcases hrest with ⟨fuel, d1, hrun, hrec⟩ | ⟨hmet, fuel, r, hrun, hrefused⟩
        · refine .inl ⟨fuel + 1, d1, ?_, hrec⟩
          have htotal : pre.length + n + (p.drop n).length = pre.length + p.length := by
            rw [length_drop]; omega
          rw [hloop, hrun, htotal]
        · exact .inr ⟨hmet, fuel + 1, r, by rw [hloop, hrun], hrefused⟩
      · obtain rfl : ext = [] := by
          by_contra he
          exact hne (hext he)
        have hrec := hnext p [] _ _ _ hcut hext hr
        have hf' : d''.fstk ≠ [] := by
          intro hf'
          cases hrec with
          | done => exact hne rfl
          | step _ hf _ _ _ => exact hf hf'
        refine .inl ⟨1, d'', ?_, .inr ⟨hne, hf', hrec⟩⟩
        rw [runLoop, hemp, hpast, hdrop, hstep]
        rfl

/-- **A call of `run` takes the whole piece**, and nothing that follows it, or it is
    refused. -/
theorem Receives.runs_or_refused (h : Receives tm Q d pl)
    (hcut : Sent pl p pl') (hext : ext ≠ [] → pl' = []) :
    (∃ d', d.Runs tm (p ++ ext) p.length d' ∧ Received tm Q d' pl') ∨
      (¬ Q.met ∧ ∃ fuel r, d.runLoop tm false (p ++ ext) fuel 0 = some r ∧ r.Refused) := by
  rcases h.runLoop [] hcut hext with ⟨fuel, d', hrun, hrec⟩ | hrefused
  · exact .inl ⟨d', ⟨fuel, by simpa using hrun⟩, hrec⟩
  · exact .inr hrefused

/-- **A call of `run` takes the whole piece**, when the limits are met. -/
theorem Receives.runs (h : Receives tm Q d pl) (hmet : Q.met) (hcut : Sent pl p pl')
    (hext : ext ≠ [] → pl' = []) : ∃ d', d.Runs tm (p ++ ext) p.length d' ∧ Received tm Q d' pl' :=
  (h.runs_or_refused hcut hext).resolve_right fun hnot => hnot.1 hmet

end Receives

end SolidFrame
