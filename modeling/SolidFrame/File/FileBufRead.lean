/-
  SolidFrame formalization — reading through the buffer of file streams
  (solid/frame/file/src/filestream.cpp).

  The abstract machine is a position in the content of the file (`StreamReads`).
  The position of a `FileBuf` is `off` and what has been read of the get area.
  A refill, and a read past the buffer, take the characters at `off`: this is the
  position of the stream only as long as nothing of the get area was read.
-/
import SolidFrame.File.FileBuf

namespace SolidFrame

open List

variable {α : Type}

/-! ## The stream -/

def SeekDir.base (pos size : ℕ) : SeekDir → ℕ
  | .beg => 0
  | .cur => pos
  | .fin => size

/-- One read or seek on the content `xs` at a position; a block read delivers
    characters unless the end is reached. -/
inductive StreamRead (xs : List α) (pos : ℕ) : StreamOp α → StreamResult α → ℕ → Prop where
  | sgetc : StreamRead xs pos .sgetc (.char xs[pos]?) pos
  | sbumpc : StreamRead xs pos .sbumpc (.char xs[pos]?) (if pos < xs.length then pos + 1 else pos)
  | sgetn {n k} :
      k ≤ n →
      pos + k ≤ xs.length →
      (k = 0 → n = 0 ∨ xs.length ≤ pos) →
      StreamRead xs pos (.sgetn n) (.chars ((xs.drop pos).take k)) (pos + k)
  | seekoff {o : ℤ} {way : SeekDir} {p : ℕ} (hp : (p : ℤ) = way.base pos xs.length + o) :
      StreamRead xs pos (.seekoff o way) (.pos (some p)) p

/-- A sequence of reads and seeks from the start of the file, the last one first. -/
inductive StreamReads (xs : List α) : List (StreamOp α × StreamResult α) → ℕ → Prop where
  | start : StreamReads xs [] 0
  | step {tr pos pos' op r} (h : StreamReads xs tr pos) (hs : StreamRead xs pos op r pos') :
      StreamReads xs ((op, r) :: tr) pos'

namespace FileBuf

/-- The operations executed on a buffer one after the other, all of them `ok`, with
    their results, the last one first. -/
inductive Run [Inhabited α] (ok : FileBuf α → List ℕ → StreamOp α → Prop) (s₀ : FileBuf α) :
    List (StreamOp α × StreamResult α) → FileBuf α → Prop where
  | start : Run ok s₀ [] s₀
  | step {tr} {s s' : FileBuf α} {r} (h : Run ok s₀ tr s) (ks : List ℕ) (op : StreamOp α) :
      ok s ks op →
      s.exec ks op = some (s', r) →
      Run ok s₀ ((op, r) :: tr) s'

/-! ## The buffer -/

def readPos (s : FileBuf α) : ℕ := s.off + (s.gptr - s.eback)

def readOp (s : FileBuf α) : StreamOp α → Prop
  | .sgetc | .sbumpc | .sgetn _ => True
  | .seekoff o way => 0 ≤ (way.base s.readPos s.dev.length : ℤ) + o ∧
      (way.base s.readPos s.dev.length : ℤ) + o ≤ s.dev.length
  | _ => False

/-- A read finds something in the get area, or an area of which nothing was read. -/
def refillable (s : FileBuf α) : StreamOp α → Prop
  | .seekoff _ _ => True
  | _ => s.gptr < s.egptr ∨ s.eback = s.egptr

/-- The get area holds the characters of the file from `off` on. -/
structure Reads (xs : List α) (s : FileBuf α) : Prop where
  dev : s.dev = xs
  cap : s.bufcp ≠ 0
  len : s.buf.length = s.bufcp
  noPut : s.pptr = none
  back : s.eback ≤ s.gptr
  front : s.gptr ≤ s.egptr
  fits : s.egptr ≤ s.bufcp
  inside : s.off + (s.egptr - s.eback) ≤ xs.length
  area : s.eback = s.egptr ∨ (s.eback = 0 ∧ s.buf.take s.egptr = (xs.drop s.off).take s.egptr)

namespace Reads

variable {xs : List α} {s s' : FileBuf α} {ks : List ℕ}

theorem new (xs : List α) {buf : List α} (h : buf ≠ []) : Reads xs (FileBuf.new xs buf) where
  dev := rfl
  cap := by simpa [FileBuf.new] using h
  len := rfl
  noPut := rfl
  back := Nat.le_refl _
  front := Nat.le_refl _
  fits := Nat.le_refl _
  inside := by simp [FileBuf.new]
  area := .inl rfl

section
variable (h : Reads xs s)
include h

theorem isSome_pptr : s.pptr.isSome = false := by
  rw [h.noPut]
  rfl

theorem left (hlt : s.gptr < s.egptr) {n : ℕ} (hn : n ≤ s.egptr - s.gptr) :
    (s.buf.drop s.gptr).take n = (xs.drop s.readPos).take n := by
  obtain ⟨hback, harea⟩ := h.area.resolve_left (by have := h.back; omega)
  have hpos : s.readPos = s.off + s.gptr := by rw [readPos, hback, Nat.sub_zero]
  have hcut := congrArg (fun l => (l.drop s.gptr).take n) harea
  simp only [drop_take, take_take, Nat.min_eq_left hn, drop_drop] at hcut
  rw [hpos]
  exact hcut

theorem next (hlt : s.gptr < s.egptr) : s.buf[s.gptr]? = xs[s.readPos]? := by
  have hone := congrArg (fun l => l[0]?) (h.left hlt (n := 1) (by omega))
  simpa [getElem?_take, getElem?_drop] using hone

theorem bump {n : ℕ} (hn : s.gptr + n ≤ s.egptr) : Reads xs { s with gptr := s.gptr + n } :=
  ⟨h.dev, h.cap, h.len, h.noPut, Nat.le_add_right_of_le h.back, hn, h.fits, h.inside, h.area⟩

theorem readPos_bump (n : ℕ) :
    ({ s with gptr := s.gptr + n } : FileBuf α).readPos = s.readPos + n := by
  have hback := h.back
  simp only [readPos]
  omega

theorem resetGet {p : ℕ} (hp : p ≤ xs.length) :
    Reads xs (FileBuf.resetGet { s with off := p }) where
  dev := h.dev
  cap := h.cap
  len := h.len
  noPut := h.noPut
  back := Nat.le_refl _
  front := Nat.le_refl _
  fits := Nat.le_refl _
  inside := by simpa [FileBuf.resetGet] using hp
  area := .inl rfl

theorem devRead_eq (hfresh : s.readPos = s.off) (ks : List ℕ) (n : ℕ) :
    s.devRead ks n = (xs.drop s.readPos).take (s.devRead ks n).length := by
  have hd : s.devRead ks n = (xs.drop s.off).take (min (max (ks.headD n) 1) n) := by
    rw [devRead, h.dev]
  rw [hfresh, hd, length_take, take_eq_take_iff]
  simp

theorem devRead_length (ks : List ℕ) (n : ℕ) :
    (s.devRead ks n).length ≤ n ∧ s.off + (s.devRead ks n).length ≤ xs.length ∧
      ((s.devRead ks n).length = 0 → n = 0 ∨ xs.length ≤ s.off) := by
  have hin := h.inside
  have hd : (s.devRead ks n).length = min (min (max (ks.headD n) 1) n) (xs.length - s.off) := by
    rw [devRead, h.dev, length_take, length_drop]
  rw [hd]
  omega

theorem refill (hfresh : s.readPos = s.off) (ks : List ℕ) : Reads xs { s with
      buf := overwrite s.buf 0 (s.devRead ks s.bufcp)
      eback := 0
      gptr := 0
      egptr := (s.devRead ks s.bufcp).length } := by
  obtain ⟨hle, hsize, -⟩ := h.devRead_length ks s.bufcp
  have heq := h.devRead_eq hfresh ks s.bufcp
  have htake := overwrite_take s.buf (s.devRead ks s.bufcp) (Nat.zero_le _)
  rw [take_zero, nil_append, Nat.zero_add] at htake
  refine ⟨h.dev, h.cap, ?_, h.noPut, Nat.le_refl _, Nat.zero_le _, hle, hsize, .inr ⟨rfl, ?_⟩⟩
  · show (overwrite s.buf 0 (s.devRead ks s.bufcp)).length = s.bufcp
    rw [overwrite_length (by rw [h.len]; omega), h.len]
  · rw [htake, ← hfresh]
    exact heq

/-! ## One operation -/

end

theorem readPos_of_fresh (h : s.eback = s.egptr) (hinv : Reads xs s) : s.readPos = s.off := by
  have hback := hinv.back
  have hfront := hinv.front
  simp only [readPos]
  omega

/-- The next character is in the get area afterwards, unless the end is reached. -/
theorem underflow [Inhabited α] (h : Reads xs s) (hok : s.gptr < s.egptr ∨ s.eback = s.egptr)
    (ks : List ℕ) :
    Reads xs (s.underflow ks).1 ∧ (s.underflow ks).1.readPos = s.readPos ∧
      (s.underflow ks).2 = xs[s.readPos]? ∧
      (s.readPos < xs.length → (s.underflow ks).1.gptr < (s.underflow ks).1.egptr) := by
  simp only [FileBuf.underflow, if_pos h.cap, h.isSome_pptr, Bool.false_eq_true, if_false,
    Bool.true_eq_false]
  by_cases hlt : s.gptr < s.egptr
  · rw [if_pos hlt]
    exact ⟨h, rfl, h.next hlt, fun _ => hlt⟩
  rw [if_neg hlt]
  have hfresh := readPos_of_fresh (hok.resolve_left hlt) h
  obtain ⟨-, hsize, hzero⟩ := h.devRead_length ks s.bufcp
  by_cases hd : 0 < (s.devRead ks s.bufcp).length
  · rw [if_pos hd]
    refine ⟨h.refill hfresh ks, by rw [hfresh]; simp [readPos], ?_, fun _ => hd⟩
    rw [h.devRead_eq hfresh ks s.bufcp, getElem?_take_of_lt hd, getElem?_drop, Nat.add_zero]
  · have hend := (hzero (by omega)).resolve_left h.cap
    rw [if_neg hd]
    rw [← hfresh] at hend
    exact ⟨h, rfl, (getElem?_eq_none hend).symm, fun hin => absurd hin (by omega)⟩

theorem sgetc [Inhabited α] (h : Reads xs s) (hok : s.gptr < s.egptr ∨ s.eback = s.egptr)
    (ks : List ℕ) :
    Reads xs (s.sgetc ks).1 ∧ (s.sgetc ks).1.readPos = s.readPos ∧
      (s.sgetc ks).2 = xs[s.readPos]? := by
  by_cases hlt : s.gptr < s.egptr
  · rw [FileBuf.sgetc, if_pos hlt]
    exact ⟨h, rfl, h.next hlt⟩
  · rw [FileBuf.sgetc, if_neg hlt]
    obtain ⟨hr, hpos, hchar, -⟩ := h.underflow hok ks
    exact ⟨hr, hpos, hchar⟩

theorem take (h : Reads xs s) (hlt : s.gptr < s.egptr) : Reads xs { s with gptr := s.gptr + 1 } ∧
      ({ s with gptr := s.gptr + 1 } : FileBuf α).readPos =
        (if s.readPos < xs.length then s.readPos + 1 else s.readPos) := by
  have hback := h.back
  have hin := h.inside
  have hpos : s.readPos < xs.length := by
    simp only [readPos]
    omega
  rw [if_pos hpos]
  exact ⟨h.bump hlt, h.readPos_bump 1⟩

theorem sbumpc [Inhabited α] (h : Reads xs s) (hok : s.gptr < s.egptr ∨ s.eback = s.egptr)
    (ks : List ℕ) :
    Reads xs (s.sbumpc ks).1 ∧ (s.sbumpc ks).2 = xs[s.readPos]? ∧
      (s.sbumpc ks).1.readPos = (if s.readPos < xs.length then s.readPos + 1 else s.readPos) := by
  by_cases hlt : s.gptr < s.egptr
  · rw [FileBuf.sbumpc, if_pos hlt]
    obtain ⟨hr, hpos⟩ := h.take hlt
    exact ⟨hr, h.next hlt, hpos⟩
  obtain ⟨hr, hpos, hchar, hnext⟩ := h.underflow hok ks
  rw [FileBuf.sbumpc, if_neg hlt, uflow, if_pos h.cap]
  by_cases hin : s.readPos < xs.length
  · obtain ⟨hr', hpos'⟩ := hr.take (hnext hin)
    have hfront := hr.next (hnext hin)
    rw [hpos] at hpos' hfront
    simp only [hchar, getElem?_eq_getElem hin] at hr' hfront ⊢
    exact ⟨hr', hfront, hpos'⟩
  · have hnone : xs[s.readPos]? = none := getElem?_eq_none (by omega)
    simp only [hchar, hnone, if_neg hin]
    exact ⟨hr, trivial, hpos⟩

/-- A block is taken from the get area, or read from the file if the area is empty. -/
theorem xsgetn [Inhabited α] (h : Reads xs s) (hok : s.gptr < s.egptr ∨ s.eback = s.egptr)
    (ks : List ℕ) (n : ℕ) :
    Reads xs (s.xsgetn ks n).1 ∧
      StreamRead xs s.readPos (.sgetn n) (.chars (s.xsgetn ks n).2) (s.xsgetn ks n).1.readPos := by
  simp only [FileBuf.xsgetn, if_pos h.cap, h.isSome_pptr, Bool.false_eq_true, if_false,
    Bool.true_eq_false]
  have hback := h.back
  have hin := h.inside
  by_cases hlt : s.gptr < s.egptr
  · have hbump := h.readPos_bump (min (s.egptr - s.gptr) n)
    rw [if_pos hlt, h.left hlt (Nat.min_le_left _ _)]
    simp only [hbump]
    refine ⟨h.bump (by omega), .sgetn (Nat.min_le_right _ _) ?_ fun hzero => .inl (by omega)⟩
    simp only [readPos]
    omega
  rw [if_neg hlt]
  have hfresh := readPos_of_fresh (hok.resolve_left hlt) h
  obtain ⟨hle, hsize, hzero⟩ := h.devRead_length ks n
  rw [← hfresh] at hsize hzero
  have hread : StreamRead xs s.readPos (.sgetn n) (.chars (s.devRead ks n))
      (s.readPos + (s.devRead ks n).length) := by
    have hsgetn := StreamRead.sgetn hle hsize hzero
    rwa [← h.devRead_eq hfresh ks n] at hsgetn
  by_cases hd : 0 < (s.devRead ks n).length
  · rw [if_pos hd]
    refine ⟨h.resetGet (hfresh ▸ hsize), ?_⟩
    have hpos : (FileBuf.resetGet { s with off := s.off + (s.devRead ks n).length }).readPos =
        s.readPos + (s.devRead ks n).length := by
      rw [hfresh]
      simp [readPos, FileBuf.resetGet]
    rwa [hpos]
  · have hnil : s.devRead ks n = [] := eq_nil_of_length_eq_zero (by omega)
    rw [if_neg hd]
    rw [hnil] at hread
    exact ⟨h, hread⟩

theorem seekBase_eq (h : Reads xs s) (way : SeekDir) :
    s.seekBase way = way.base s.readPos xs.length := by
  have hin := h.inside
  have hoff : s.off ≤ s.dev.length := by
    rw [h.dev]
    omega
  cases way with
  | beg => rfl
  | cur => rfl
  | fin => rw [seekBase, if_pos hoff, h.dev, SeekDir.base]

theorem seekArea (h : Reads xs s) {p : ℕ} (hlo : s.off ≤ p)
    (hhi : p < s.off + (s.egptr - s.eback)) :
    Reads xs { s with eback := 0, gptr := p - s.off } := by
  obtain ⟨hback, harea⟩ := h.area.resolve_left (by omega)
  have hin := h.inside
  rw [hback, Nat.sub_zero] at hin hhi
  exact ⟨h.dev, h.cap, h.len, h.noPut, Nat.zero_le _, Nat.sub_le_iff_le_add'.2 (Nat.le_of_lt hhi),
    h.fits, hin, .inr ⟨rfl, harea⟩⟩

theorem seekoff [Inhabited α] (h : Reads xs s) {o : ℤ} {way : SeekDir} {p : Option ℕ}
    (hop : s.readOp (.seekoff o way)) (hexec : s.seekoff ks o way = some (s', p)) :
    Reads xs s' ∧ StreamRead xs s.readPos (.seekoff o way) (.pos p) s'.readPos := by
  simp only [FileBuf.seekoff, if_pos h.cap, h.isSome_pptr, Bool.false_eq_true, if_false,
    Bool.true_eq_false, h.seekBase_eq] at hexec
  simp only [readOp, h.dev] at hop
  by_cases hcur : way = .cur ∧ o = 0
  · obtain ⟨rfl, rfl⟩ := hcur
    rw [if_pos ⟨rfl, rfl⟩] at hexec
    cases hexec
    exact ⟨h, .seekoff (p := s.readPos) (by simp [SeekDir.base])⟩
  rw [if_neg hcur, if_neg (by omega)] at hexec
  obtain ⟨n, hn⟩ := Int.eq_ofNat_of_zero_le hop.1
  simp only [hn, Int.toNat_natCast] at hexec
  by_cases harea : s.off ≤ n ∧ n < s.off + (s.egptr - s.eback)
  · rw [if_pos harea] at hexec
    cases hexec
    have hpos : ({ s with eback := 0, gptr := n - s.off } : FileBuf α).readPos = n := by
      simp only [readPos]
      omega
    rw [hpos]
    exact ⟨h.seekArea harea.1 harea.2, .seekoff hn.symm⟩
  · rw [if_neg harea] at hexec
    cases hexec
    have hput : FileBuf.noPut { s with off := n } = { s with off := n } := by
      rw [FileBuf.noPut, ← h.noPut]
    have hpos : (FileBuf.resetGet { s with off := n }).readPos = n := by
      simp [readPos, FileBuf.resetGet]
    rw [hput, hpos]
    exact ⟨h.resetGet (by omega), .seekoff hn.symm⟩

theorem exec [Inhabited α] (h : Reads xs s) {op : StreamOp α} {r : StreamResult α}
    (hop : s.readOp op) (hok : s.refillable op) (hexec : s.exec ks op = some (s', r)) :
    Reads xs s' ∧ StreamRead xs s.readPos op r s'.readPos := by
  cases op with
  | sgetc =>
    obtain ⟨hr, hpos, hchar⟩ := h.sgetc hok ks
    cases hexec
    rw [hpos, hchar]
    exact ⟨hr, .sgetc⟩
  | sbumpc =>
    obtain ⟨hr, hchar, hpos⟩ := h.sbumpc hok ks
    cases hexec
    rw [hpos, hchar]
    exact ⟨hr, .sbumpc⟩
  | sgetn n =>
    cases hexec
    exact h.xsgetn hok ks n
  | seekoff o way =>
    obtain ⟨⟨s1, p⟩, hseek, heq⟩ := Option.map_eq_some_iff.1 hexec
    cases heq
    exact h.seekoff hop hseek
  | sputc a => exact hop.elim
  | sputn d => exact hop.elim
  | sync => exact hop.elim

end Reads

/-! ## Runs -/

section Runs
variable [Inhabited α]

/-- **Reading yields the file.**  The reads and seeks of a run are reads and seeks of
    the content at the successive positions of the stream, if no read finds the get
    area read to its end. -/
theorem reads_file (xs : List α) {buf : List α} (hbuf : buf ≠ [])
    {tr : List (StreamOp α × StreamResult α)} {s : FileBuf α}
    (h : Run (fun s _ op => s.readOp op ∧ s.refillable op) (new xs buf) tr s) :
    StreamReads xs tr s.readPos ∧ s.dev = xs := by
  suffices hinv : Reads xs s ∧ StreamReads xs tr s.readPos from ⟨hinv.2, hinv.1.dev⟩
  induction h with
  | start =>
    have hpos : (new xs buf).readPos = 0 := by simp [readPos, new]
    rw [hpos]
    exact ⟨.new xs hbuf, .start⟩
  | step _ ks op hok hexec ih =>
    obtain ⟨hinv, hreads⟩ := ih
    obtain ⟨hinv', hread⟩ := hinv.exec hok.1 hok.2 hexec
    exact ⟨hinv', hreads.step hread⟩

/-- The rest of the area as a block, then a seek and a block from the file. -/
theorem reads_file_blocks : ∃ (tr : List (StreamOp ℕ × StreamResult ℕ)) (s : FileBuf ℕ),
      Run (fun s _ op => s.readOp op ∧ s.refillable op) (new [10, 20, 30] [0, 0]) tr s ∧
        tr.map Prod.snd = [.char none, .chars [30], .pos (some 2), .chars [20], .char (some 10)] ∧
        StreamReads [10, 20, 30] tr s.readPos := by
  have hstart : Run (fun s _ op => s.readOp op ∧ s.refillable op) (new [10, 20, 30] [0, 0]) []
    (new [10, 20, 30] [0, 0]) := .start
  have hfirst := hstart.step [2] .sbumpc ⟨trivial, .inr rfl⟩ rfl
  have hrest := hfirst.step [] (.sgetn 4) ⟨trivial, .inl (by decide)⟩ rfl
  have hseek := hrest.step [] (.seekoff 2 .beg) ⟨⟨by decide, by decide⟩, trivial⟩ rfl
  have hblock := hseek.step [1] (.sgetn 4) ⟨trivial, .inr rfl⟩ rfl
  have hrun := hblock.step [] .sbumpc ⟨trivial, .inr rfl⟩ rfl
  exact ⟨_, _, hrun, rfl, (reads_file [10, 20, 30] (by decide) hrun).1⟩

/-- A file of two characters in a buffer of two: the third read delivers the first
    character again. -/
theorem reads_again : ∃ (tr : List (StreamOp ℕ × StreamResult ℕ)) (s : FileBuf ℕ),
      Run (fun s _ op => s.readOp op) (new [10, 20] [0, 0]) tr s ∧
        tr.map Prod.snd = [.char (some 10), .char (some 20), .char (some 10)] ∧
        ∀ pos : ℕ, ¬ StreamReads [10, 20] tr pos := by
  have hstart : Run (fun s _ op => s.readOp op) (new [10, 20] [0, 0]) [] (new [10, 20] [0, 0]) :=
    .start
  have hrun := ((hstart.step [] .sbumpc trivial rfl).step [] .sbumpc trivial rfl).step []
    .sbumpc trivial rfl
  refine ⟨_, _, hrun, rfl, ?_⟩
  intro pos hreads
  obtain _ | ⟨hreads, hthird⟩ := hreads
  obtain _ | ⟨hreads, hsecond⟩ := hreads
  obtain _ | ⟨hreads, hfirst⟩ := hreads
  cases hreads
  cases hfirst
  cases hsecond
  cases hthird

end Runs

end FileBuf

end SolidFrame
