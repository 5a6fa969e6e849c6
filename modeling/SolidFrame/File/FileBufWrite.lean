/-
  SolidFrame formalization — writing through the buffer of file streams
  (solid/frame/file/src/filestream.cpp).

  The abstract machine is the content of the file and a position; a character is
  written at the position, and a block is written character by character.  What a
  `FileBuf` stands for is its device with the put area written at `off`.
-/
import SolidFrame.File.FileBufRead

namespace SolidFrame

open List Option

variable {α : Type} [Inhabited α]

/-! ## The file -/

structure StreamFile (α : Type) where
  content : List α
  pos : ℕ

namespace StreamFile

def put (f : StreamFile α) (c : α) : StreamFile α := ⟨writeAt f.content f.pos [c], f.pos + 1⟩

def puts (f : StreamFile α) (d : List α) : StreamFile α := d.foldl put f

def exec (f : StreamFile α) : StreamOp α → StreamFile α
  | .sputc c => f.put c
  | .sputn d => f.puts d
  | .seekoff o way => { f with pos := (way.base f.pos f.content.length + o).toNat }
  | _ => f

/-- All the operations of a run, the last one first. -/
def execAll (f : StreamFile α) (tr : List (StreamOp α × StreamResult α)) : StreamFile α :=
  tr.foldr (fun x f => f.exec x.1) f

theorem puts_eq (f : StreamFile α) (d : List α) :
    f.puts d = ⟨writeAt f.content f.pos d, f.pos + d.length⟩ := by
  induction d generalizing f with
  | nil => simp [puts]
  | cons c d ih =>
    have happend := writeAt_append f.content f.pos [c] d
    rw [length_singleton, singleton_append] at happend
    rw [puts, foldl_cons, ← puts, ih]
    simp [put, happend, Nat.add_assoc, Nat.add_comm 1]

theorem puts_append (f : StreamFile α) (d e : List α) : f.puts (d ++ e) = (f.puts d).puts e :=
  foldl_append

end StreamFile

namespace FileBuf

/-! ## The put area -/

def pending (s : FileBuf α) : ℕ := s.pptr.getD 0

def writeOp : StreamOp α → Prop
  | .sputc _ | .sputn _ | .seekoff _ _ | .sync => True
  | _ => False

/-- With a buffer the put area must not be filled to `epptr` before anything but a
    block write, and the end is sought from a position in the file only; without one
    there are no single characters. -/
def writable (s : FileBuf α) : StreamOp α → Prop
  | .sputc _ => s.bufcp ≠ 0 ∧ s.pptr ≠ some (s.bufcp - 1)
  | .seekoff _ way => s.pptr ≠ some (s.bufcp - 1) ∧
      (s.bufcp ≠ 0 → way = .fin → s.off ≤ s.dev.length ∨ 0 < s.pending)
  | .sync => s.pptr ≠ some (s.bufcp - 1)
  | _ => True

/-- The buffer stands for a file: the device with the put area written at `off`.  There is
    no get area. -/
structure Writes (f : StreamFile α) (s : FileBuf α) : Prop where
  cap : s.bufcp ≠ 1
  len : s.buf.length = s.bufcp
  gptr : s.gptr = s.eback
  egptr : s.egptr = s.eback
  direct : s.bufcp = 0 → s.pptr = none
  fits : s.pending ≤ s.bufcp
  content : f.content = writeAt s.dev s.off (s.buf.take s.pending)
  pos : f.pos = s.off + s.pending

variable {s' : FileBuf α}

namespace Writes

variable {f : StreamFile α} {s : FileBuf α}

theorem new (c : List α) {buf : List α} (h : buf.length ≠ 1) :
    Writes ⟨c, 0⟩ (FileBuf.new c buf) where
  cap := h
  len := rfl
  gptr := rfl
  egptr := rfl
  direct := fun _ => rfl
  fits := Nat.zero_le _
  content := by simp [FileBuf.new, pending]
  pos := rfl

theorem eq_dev (h : Writes f s) (hp : s.pending = 0) : f = ⟨s.dev, s.off⟩ := by
  have hcontent := h.content
  have hpos := h.pos
  rw [hp, take_zero, writeAt_nil] at hcontent
  rw [hp, Nat.add_zero] at hpos
  rw [← hcontent, ← hpos]

theorem append (h : Writes f s) (hcap : s.bufcp ≠ 0) {d : List α}
    (hd : s.pending + d.length ≤ s.bufcp) :
    Writes (f.puts d) { s with
      buf := overwrite s.buf s.pending d
      pptr := some (s.pending + d.length) } := by
  have htake := overwrite_take s.buf d (h.len ▸ h.fits)
  have hlen : (s.buf.take s.pending).length = s.pending := by
    rw [length_take, h.len, Nat.min_eq_left h.fits]
  have happend := writeAt_append s.dev s.off (s.buf.take s.pending) d
  rw [hlen, ← h.content, ← h.pos] at happend
  refine ⟨h.cap, ?_, h.gptr, h.egptr, fun h0 => absurd h0 hcap, hd, ?_, ?_⟩
  · show (overwrite s.buf s.pending d).length = s.bufcp
    rw [overwrite_length (by rw [h.len]; exact hd), h.len]
  · show (f.puts d).content =
      writeAt s.dev s.off ((overwrite s.buf s.pending d).take (s.pending + d.length))
    rw [htake, ← happend, StreamFile.puts_eq]
  · show (f.puts d).pos = s.off + (s.pending + d.length)
    rw [StreamFile.puts_eq, h.pos, Nat.add_assoc]

/-! ## The device -/

theorem writeAll_nil (s : FileBuf α) (d : List α) :
    s.writeAll [] d = ({ s with dev := writeAt s.dev s.off d }, d.length, []) := by
  rcases eq_or_ne d [] with rfl | hd
  · simp [writeAll, writeLoop]
  · have hpos := length_pos_iff.2 hd
    have hmin : min (max d.length 1) d.length = d.length := by omega
    simp only [writeAll, writeLoop, headD_nil, hmin, if_neg (Nat.ne_of_gt hpos), if_true,
      take_length, Nat.zero_add, tail_nil]

section
variable (h : Writes f s)
include h

/-- The put area is written, unless it is filled to `epptr`; then the device is the file. -/
theorem flushPut {p : ℕ} (hp : s.pptr = some p) (hne : p ≠ s.bufcp - 1) :
    ∃ s1 : FileBuf α, s.flushPut [] = (s1, true, []) ∧ Writes f s1 ∧ s1.pptr = some 0 ∧
      s1.bufcp = s.bufcp := by
  have hpending : s.pending = p := by rw [pending, hp, getD_some]
  have hlen : (s.buf.take p).length = p := by
    rw [length_take, h.len, Nat.min_eq_left (hpending ▸ h.fits)]
  have hcontent := h.content
  have hpos := h.pos
  rw [hpending] at hcontent hpos
  refine ⟨resetBoth { s with dev := writeAt s.dev s.off (s.buf.take p), off := s.off + p }, ?_,
    ⟨h.cap, h.len, rfl, rfl, fun h0 => ?_, Nat.zero_le _, ?_, hpos⟩, rfl, rfl⟩
  · simp [FileBuf.flushPut, hp, if_pos hne, writeAll_nil, hlen]
  · rw [h.direct h0] at hp
    cases hp
  · simpa [pending, resetBoth, resetPut, resetGet] using hcontent

theorem write (hp : s.pending = 0) (d : List α) :
    Writes (f.puts d) { s with dev := writeAt s.dev s.off d, off := s.off + d.length } := by
  have hf := h.eq_dev hp
  refine ⟨h.cap, h.len, h.gptr, h.egptr, h.direct, h.fits, ?_, ?_⟩
  · show (f.puts d).content =
      writeAt (writeAt s.dev s.off d) (s.off + d.length) (s.buf.take s.pending)
    rw [hp, take_zero, writeAt_nil, StreamFile.puts_eq, hf]
  · show (f.puts d).pos = s.off + d.length + s.pending
    rw [hp, StreamFile.puts_eq, hf, Nat.add_zero]

theorem setPut (hp : s.pending = 0) {o : Option ℕ} (ho : o.getD 0 = 0)
    (hbuf : s.bufcp ≠ 0) : Writes f { s with pptr := o } := by
  have hcontent := h.content
  have hpos := h.pos
  rw [hp] at hcontent hpos
  refine ⟨h.cap, h.len, h.gptr, h.egptr, fun h0 => absurd h0 hbuf, ?_, ?_, ?_⟩
  · simp [pending, ho]
  · simpa [pending, ho] using hcontent
  · simpa [pending, ho] using hpos

/-! ## Puts -/

theorem openPut (hcap : s.bufcp ≠ 0) :
    s.openPut = { s with pptr := some s.pending } ∧ Writes f { s with pptr := some s.pending } := by
  have hget : s.hasGet = false := by simp [hasGet, h.gptr, h.egptr]
  refine ⟨?_, h.cap, h.len, h.gptr, h.egptr, fun h0 => absurd h0 hcap, h.fits, h.content, h.pos⟩
  cases hp : s.pptr with
  | none => simp [FileBuf.openPut, hp, hget, resetPut, pending]
  | some p =>
    have hs : s = { s with pptr := some p } := by rw [← hp]
    simp only [FileBuf.openPut, hp, pending, getD_some]
    exact hs

theorem sputc (hroom : s.pending ≤ s.bufcp - 1) (c : α) (hok : s.writable (.sputc c)) :
    (s.sputc [] c).2 ∧ Writes (f.put c) (s.sputc [] c).1 ∧
      (s.sputc [] c).1.pending ≤ (s.sputc [] c).1.bufcp - 1 := by
  have hcap := h.cap
  obtain ⟨hbuf, hfull⟩ := hok
  cases hp : s.pptr with
  | none =>
    have hpending : s.pending = 0 := by rw [pending, hp, getD_none]
    obtain ⟨hopen, -⟩ := h.openPut hbuf
    have happend := h.append hbuf (d := [c]) (by rw [hpending, length_singleton]; omega)
    rw [hpending] at happend
    simp only [FileBuf.sputc, hp, overflow, if_pos hbuf, hopen]
    exact ⟨trivial, happend, by simp only [pending, getD_some]; omega⟩
  | some p =>
    have hpending : s.pending = p := by rw [pending, hp, getD_some]
    rw [hp] at hfull
    have hlt : p < s.bufcp - 1 := by
      rw [hpending] at hroom
      exact Nat.lt_of_le_of_ne hroom fun heq => hfull (congrArg some heq)
    have happend := h.append hbuf (d := [c]) (by rw [hpending, length_singleton]; omega)
    rw [hpending] at happend
    simp only [FileBuf.sputc, hp, if_pos hlt]
    exact ⟨trivial, happend, hlt⟩

theorem putRest (hbuf : s.bufcp ≠ 0) (hp : s.pptr = some s.bufcp) (d : List α) :
    (s.putRest [] d).2 ∧ Writes (f.puts d) (s.putRest [] d).1 ∧
      (s.putRest [] d).1.pending ≤ (s.putRest [] d).1.bufcp - 1 := by
  have hcap := h.cap
  obtain ⟨s1, hflush, hw, hput, hsame⟩ := h.flushPut hp (by omega)
  have hpending : s1.pending = 0 := by rw [pending, hput, getD_some]
  simp only [FileBuf.putRest, hflush, Bool.true_eq_false, if_false, hput, getD_some]
  rw [← hsame] at hbuf hcap
  by_cases hsmall : d ≠ [] ∧ d.length ≤ s1.bufcp / 2
  · have happend := hw.append hbuf (d := d) (by omega)
    rw [hpending] at happend
    rw [if_pos hsmall]
    exact ⟨rfl, happend, by simp only [pending, getD_some]; omega⟩
  rw [if_neg hsmall]
  by_cases hd : d = []
  · rw [if_neg (not_not.2 hd), hd]
    exact ⟨rfl, hw.setPut hpending rfl hbuf, Nat.zero_le _⟩
  · rw [if_pos hd, writeAll_nil, if_pos rfl]
    exact ⟨rfl, (hw.write hpending d).setPut hpending rfl hbuf, Nat.zero_le _⟩

theorem xsputn (d : List α) : (s.xsputn [] d).2 = d.length ∧ Writes (f.puts d) (s.xsputn [] d).1 ∧
      (s.xsputn [] d).1.pending ≤ (s.xsputn [] d).1.bufcp - 1 := by
  by_cases hbuf : s.bufcp = 0
  · have hpending : s.pending = 0 := by rw [pending, h.direct hbuf, getD_none]
    have hmin : min (max d.length 1) d.length = d.length := by omega
    rw [FileBuf.xsputn, if_neg (not_not.2 hbuf)]
    simp only [headD_nil, hmin, take_length]
    exact ⟨trivial, h.write hpending d, hpending ▸ Nat.zero_le _⟩
  obtain ⟨hopen, hopened⟩ := h.openPut hbuf
  have hfits := h.fits
  simp only [FileBuf.xsputn, ne_eq, hbuf, not_false_eq_true, if_true, hopen, getD_some]
  generalize hn : min (s.bufcp - s.pending) d.length = n
  have hlen : (d.take n).length = n := by
    rw [length_take]
    omega
  have happend := hopened.append hbuf (d := d.take n) (by
    rw [hlen]
    show s.pending + n ≤ s.bufcp
    omega)
  rw [hlen] at happend
  by_cases hfull : n = s.bufcp - s.pending
  · have hpptr : s.pending + n = s.bufcp := by omega
    have hrest := happend.putRest hbuf (congrArg some hpptr) (d.drop n)
    rw [← StreamFile.puts_append, take_append_drop] at hrest
    rw [if_pos (.inr hfull)]
    refine ⟨if_pos hrest.1, hrest.2⟩
  · have hdrop : d.drop n = [] := drop_eq_nil_of_le (by omega)
    have htake : d.take n = d := take_of_length_le (by omega)
    rw [htake] at happend
    rw [if_neg (by simp [hdrop, hfull]), htake]
    exact ⟨rfl, happend, by show s.pending + n ≤ s.bufcp - 1; omega⟩

/-! ## Seeks and syncs -/

theorem closePut (hbuf : s.bufcp ≠ 0) (hfull : s.pptr ≠ some (s.bufcp - 1)) :
    ∃ s1 : FileBuf α, (if s.pptr.isSome then
        let r := s.flushPut []
        if r.2.1 then (r.1.noPut.resetGet, r.2) else r
      else (s, true, [])) = (s1, true, []) ∧ Writes f s1 ∧ s1.pptr = none ∧
      s1.bufcp = s.bufcp := by
  cases hp : s.pptr with
  | none => exact ⟨s, by simp, h, hp, rfl⟩
  | some p =>
    rw [hp] at hfull
    obtain ⟨s1, hflush, hw, hput, hsame⟩ := h.flushPut hp fun heq => hfull (congrArg some heq)
    have hpending : s1.pending = 0 := by rw [pending, hput, getD_some]
    have hclosed := hw.setPut hpending (o := none) rfl (hsame ▸ hbuf)
    refine ⟨s1.noPut.resetGet, by simp [hflush], ?_, rfl, hsame⟩
    exact ⟨hclosed.cap, hclosed.len, rfl, rfl, fun _ => rfl, hclosed.fits, hclosed.content,
      hclosed.pos⟩

theorem pos_le_length (hend : s.off ≤ s.dev.length ∨ 0 < s.pending) : f.pos ≤ f.content.length := by
  rcases Nat.eq_zero_or_pos s.pending with hp | hp
  · rw [h.eq_dev hp]
    exact hend.resolve_right (by omega)
  · have hlen : (s.buf.take s.pending).length = s.pending := by
      rw [length_take, h.len, Nat.min_eq_left h.fits]
    have hle := le_length_writeAt s.dev s.off (d := s.buf.take s.pending)
      (ne_nil_of_length_pos (by omega))
    rwa [hlen, ← h.content, ← h.pos] at hle

/-- The end of the file is the end of the device when the stream is not behind it. -/
theorem seekBase_eq (hnone : s.pptr = none) (way : SeekDir)
    (hend : way = .fin → f.pos ≤ f.content.length) :
    s.seekBase way = way.base f.pos f.content.length := by
  have hf := h.eq_dev (by rw [pending, hnone, getD_none])
  rw [hf] at hend ⊢
  cases way with
  | beg => rfl
  | cur => simp [seekBase, SeekDir.base, h.gptr]
  | fin => rw [seekBase, if_pos (hend rfl), SeekDir.base]

theorem moved (hnone : s.pptr = none) (n : ℕ) :
    Writes { f with pos := n } (resetGet (noPut { s with off := n })) := by
  have hf := h.eq_dev (by rw [pending, hnone, getD_none])
  exact ⟨h.cap, h.len, rfl, rfl, fun _ => rfl, Nat.zero_le _,
    by simp [hf, pending, resetGet, noPut], rfl⟩

theorem seekoff_direct (hbuf : s.bufcp = 0) {o : ℤ} {way : SeekDir}
    {r : Option ℕ} (hexec : s.seekoff [] o way = some (s', r)) :
    Writes (f.exec (.seekoff o way)) s' ∧ s'.pending = 0 := by
  have hnone := h.direct hbuf
  have hpending : s.pending = 0 := by rw [pending, hnone, getD_none]
  have hf := h.eq_dev hpending
  have hs : s' = { s with off := ((way.base f.pos f.content.length : ℤ) + o).toNat } := by
    unfold FileBuf.seekoff at hexec
    rw [if_neg (not_not.2 hbuf)] at hexec
    rw [hf]
    cases way
    all_goals
      dsimp only at hexec
      split_ifs at hexec
      cases hexec
      simp [SeekDir.base]
  subst hs
  refine ⟨⟨h.cap, h.len, h.gptr, h.egptr, fun _ => hnone, h.fits, ?_, ?_⟩, hpending⟩
  · simp [hf, StreamFile.exec, pending, hnone]
  · simp [StreamFile.exec, pending, hnone]

theorem seekoff {o : ℤ} {way : SeekDir} {r : Option ℕ}
    (hok : s.writable (.seekoff o way)) (hexec : s.seekoff [] o way = some (s', r)) :
    Writes (f.exec (.seekoff o way)) s' ∧ s'.pending = 0 := by
  obtain ⟨hfull, hend⟩ := hok
  by_cases hbuf : s.bufcp = 0
  · exact h.seekoff_direct hbuf hexec
  obtain ⟨s1, hclose, hw, hnone, -⟩ := h.closePut hbuf hfull
  have hpending : s1.pending = 0 := by rw [pending, hnone, getD_none]
  have hbase := hw.seekBase_eq hnone way fun hfin => h.pos_le_length (hend hbuf hfin)
  simp only [FileBuf.seekoff, ne_eq, hbuf, not_false_eq_true, if_true] at hexec
  rw [hclose] at hexec
  simp only [Bool.true_eq_false, if_false, hbase, hw.egptr, Nat.sub_self, Nat.add_zero] at hexec
  by_cases hcur : way = .cur ∧ o = 0
  · obtain ⟨rfl, rfl⟩ := hcur
    rw [if_pos ⟨rfl, rfl⟩] at hexec
    cases hexec
    have hstay : f.exec (.seekoff 0 .cur) = f := by simp [StreamFile.exec, SeekDir.base]
    exact ⟨hstay ▸ hw, hpending⟩
  rw [if_neg hcur] at hexec
  split_ifs at hexec with hneg harea
  · omega
  · cases hexec
    exact ⟨hw.moved hnone _, rfl⟩

theorem sync (hfull : s.pptr ≠ some (s.bufcp - 1)) :
    Writes f (s.sync []) ∧ (s.sync []).pending = 0 := by
  cases hp : s.pptr with
  | none =>
    simp only [FileBuf.sync, hp, isSome_none, Bool.false_eq_true, if_false]
    exact ⟨h, by rw [pending, hp, getD_none]⟩
  | some p =>
    rw [hp] at hfull
    obtain ⟨s1, hflush, hw, hput, -⟩ := h.flushPut hp fun heq => hfull (congrArg some heq)
    simp only [FileBuf.sync, hp, isSome_some, if_true, hflush]
    exact ⟨hw, by rw [pending, hput, getD_some]⟩

end

end Writes

/-! ## Runs -/

/-- A put reports success: the character, or as many characters as the block has. -/
def putSucceeds : StreamOp α × StreamResult α → Prop
  | (.sputc _, r) => r = .put true
  | (.sputn d, r) => r = .written d.length
  | _ => True

theorem Writes.exec {f : StreamFile α} {s : FileBuf α} (h : Writes f s)
    (hroom : s.pending ≤ s.bufcp - 1) {op : StreamOp α} {r : StreamResult α} (hop : writeOp op)
    (hok : s.writable op) (hexec : s.exec [] op = some (s', r)) :
    Writes (f.exec op) s' ∧ s'.pending ≤ s'.bufcp - 1 ∧ putSucceeds (op, r) := by
  cases op with
  | sputc c =>
    cases hexec
    obtain ⟨hput, hw, hroom'⟩ := h.sputc hroom c hok
    exact ⟨hw, hroom', congrArg StreamResult.put hput⟩
  | sputn d =>
    cases hexec
    obtain ⟨hput, hw, hroom'⟩ := h.xsputn d
    exact ⟨hw, hroom', congrArg StreamResult.written hput⟩
  | seekoff o way =>
    obtain ⟨⟨s1, p⟩, hseek, heq⟩ := map_eq_some_iff.1 hexec
    cases heq
    obtain ⟨hw, hpending⟩ := h.seekoff hok hseek
    exact ⟨hw, hpending ▸ Nat.zero_le _, trivial⟩
  | sync =>
    cases hexec
    obtain ⟨hw, hpending⟩ := h.sync hok
    exact ⟨hw, hpending ▸ Nat.zero_le _, trivial⟩
  | sgetc => exact hop.elim
  | sbumpc => exact hop.elim
  | sgetn n => exact hop.elim

/-- **Writing loses nothing.**  In a run of writes, seeks and syncs on a device that takes
    all it is offered, with `writable` steps, every put succeeds; after a `sync` the device
    holds all characters, written one after the other at the positions of the stream. -/
theorem writes_all (c : List α) {buf : List α} (hbuf : buf.length ≠ 1)
    {tr : List (StreamOp α × StreamResult α)} {s : FileBuf α}
    (h : Run (fun s ks op => writeOp op ∧ ks = [] ∧ s.writable op) (new c buf) tr s) :
    (∀ x ∈ tr, putSucceeds x) ∧
      ∀ (r : StreamResult α) (tr' : List (StreamOp α × StreamResult α)), tr = (.sync, r) :: tr' →
        s.dev = (StreamFile.execAll ⟨c, 0⟩ tr).content := by
  suffices hinv : Writes (StreamFile.execAll ⟨c, 0⟩ tr) s ∧ s.pending ≤ s.bufcp - 1 ∧
      (∀ x ∈ tr, putSucceeds x) ∧
      ∀ (r : StreamResult α) (tr' : List (StreamOp α × StreamResult α)),
        tr = (.sync, r) :: tr' → s.pending = 0 by
    obtain ⟨hw, -, hputs, hsync⟩ := hinv
    refine ⟨hputs, ?_⟩
    intro r tr' htr
    rw [hw.eq_dev (hsync r tr' htr)]
  induction h with
  | start => exact ⟨.new c hbuf, Nat.zero_le _, by simp, by simp⟩
  | step _ ks op hok hexec ih =>
    obtain ⟨hw, hroom, hputs, -⟩ := ih
    obtain ⟨hop, rfl, hwritable⟩ := hok
    obtain ⟨hw', hroom', hput⟩ := hw.exec hroom hop hwritable hexec
    refine ⟨hw', hroom', ?_, ?_⟩
    · rintro x (_ | ⟨_, hx⟩)
      · exact hput
      · exact hputs x hx
    · rintro r tr' heq
      cases heq
      cases hexec
      exact (hw.sync hwritable).2

/-- Five characters in a buffer of four, a seek back over the first of them, and another. -/
theorem writes_all_seek : ∃ (tr : List (StreamOp ℕ × StreamResult ℕ)) (s : FileBuf ℕ),
      Run (fun s ks op => writeOp op ∧ ks = [] ∧ s.writable op) (new [] [0, 0, 0, 0]) tr s ∧
        (∀ x ∈ tr, putSucceeds x) ∧ s.dev = (StreamFile.execAll ⟨[], 0⟩ tr).content ∧
        s.dev = [6, 2, 3, 4, 5] := by
  have hstart : Run (fun s ks op => writeOp op ∧ ks = [] ∧ s.writable op) (new [] [0, 0, 0, 0])
    [] (new [] [0, 0, 0, 0]) := .start
  have hchar : Run _ _ _ ⟨4, [], [1, 0, 0, 0], 0, 4, 4, 4, some 1⟩ :=
    hstart.step [] (.sputc 1) ⟨trivial, rfl, by decide, by decide⟩ rfl
  have hblock : Run _ _ _ ⟨4, [1, 2, 3, 4], [5, 2, 3, 4], 4, 4, 4, 4, some 1⟩ :=
    hchar.step [] (.sputn [2, 3, 4, 5]) ⟨trivial, rfl, trivial⟩ rfl
  have hseek : Run _ _ _ ⟨4, [1, 2, 3, 4, 5], [5, 2, 3, 4], 0, 4, 4, 4, none⟩ :=
    hblock.step [] (.seekoff 0 .beg) ⟨trivial, rfl, by decide, by decide⟩ rfl
  have hover : Run _ _ _ ⟨4, [1, 2, 3, 4, 5], [6, 2, 3, 4], 0, 4, 4, 4, some 1⟩ :=
    hseek.step [] (.sputc 6) ⟨trivial, rfl, by decide, by decide⟩ rfl
  have hrun := hover.step [] .sync ⟨trivial, rfl, (by decide : some 1 ≠ some 3)⟩ rfl
  obtain ⟨hputs, hdev⟩ := writes_all [] (by decide) hrun
  exact ⟨_, _, hrun, hputs, hdev _ _ rfl, rfl⟩

/-- One character in a buffer of two fills the put area to `epptr`: `sync` does not write it. -/
theorem sync_skipped : ∃ (tr : List (StreamOp ℕ × StreamResult ℕ)) (s : FileBuf ℕ),
      Run (fun _ _ op => writeOp op) (new [] [0, 0]) tr s ∧
        tr = [(.sync, .done), (.sputc 7, .put true)] ∧ s.dev = [] ∧
        (StreamFile.execAll ⟨[], 0⟩ tr).content = [7] := by
  have hstart : Run (fun _ _ op => writeOp op) (new [] [0, 0]) [] (new [] [0, 0]) := .start
  have hrun := (hstart.step [] (.sputc 7) trivial rfl).step [] .sync trivial rfl
  exact ⟨_, _, hrun, rfl, rfl, rfl⟩

end FileBuf

end SolidFrame
