/-
ESCAPED OPENING MARKS. A text is escaped by a backslash before each of its opening marks. Scanning it, with a directive
behind, does not always give it back: an escaped opening mark goes on to the next closing mark, however far that is.

- `Text.escaped`: the text with the backslashes, `Text.closes`: every opening mark is closed before the next one.
- `Delimiter.chunks_of_closes`, `Delimiter.closes_of_chunks`: the pieces of an escaped text with a directive behind it
  have the text for their literal text exactly if every opening mark in it is closed.
- `scan_escape_iff`: so the text and the directive are scanned as they are exactly for these texts.
- `scan_escape_open`: a text with an opening mark left open takes the directive behind it into its literal text.
-/
import Stencil.Proofs.Tokens

namespace Stencil

namespace Text

/-- the text with a backslash before every opening mark, from left to right -/
def escaped (mark : Text) (ne : mark ≠ []) (s : Text) : Text :=
  match _h : cut? mark s with
  | none => s
  | some (before, rest) => before ++ '\\' :: (mark ++ escaped mark ne rest)
termination_by s.length
decreasing_by
  have : 0 < mark.length := List.length_pos_iff.mpr ne
  rw [eq_of_cut? _h]
  simp
  omega

/-- the text up to the first place of a mark -/
def upTo (mark s : Text) : Text := ((cut? mark s).map (·.1)).getD s

/-- every opening mark, from left to right, has a closing one before the next of them -/
def closes (opening closing : Text) (ne : opening ≠ []) (s : Text) : Bool :=
  match _h : cut? opening s with
  | none => true
  | some (_, rest) => holds closing (upTo opening rest) && closes opening closing ne rest
termination_by s.length
decreasing_by
  have : 0 < opening.length := List.length_pos_iff.mpr ne
  rw [eq_of_cut? _h]
  simp
  omega

section Escape

variable {mark closing s before rest : Text} (ne : mark ≠ [])

theorem escaped_of_none (h : cut? mark s = none) : escaped mark ne s = s := by
  rw [escaped]
  split
  · rfl
  · rename_i hcut
    rw [h] at hcut
    cases hcut

theorem escaped_of_some (h : cut? mark s = some (before, rest)) :
    escaped mark ne s = before ++ '\\' :: (mark ++ escaped mark ne rest) := by
  rw [escaped]
  split
  · rename_i hcut
    rw [h] at hcut
    cases hcut
  · rename_i hcut
    rw [h] at hcut
    cases hcut
    rfl

theorem closes_of_none (h : cut? mark s = none) : closes mark closing ne s = true := by
  rw [closes]
  split
  · rfl
  · rename_i hcut
    rw [h] at hcut
    cases hcut

theorem closes_of_some (h : cut? mark s = some (before, rest)) :
    closes mark closing ne s = (holds closing (upTo mark rest) && closes mark closing ne rest) := by
  rw [closes]
  split
  · rename_i hcut
    rw [h] at hcut
    cases hcut
  · rename_i hcut
    rw [h] at hcut
    cases hcut
    rfl

/-- what stands up to a closing mark before the first opening one is escaped as it is, and the rest by itself -/
theorem escaped_behind {q r : Text} (h : upTo mark s = q ++ closing ++ r) :
    ∃ t, s = q ++ closing ++ t ∧ escaped mark ne s = q ++ closing ++ escaped mark ne t ∧
      closes mark closing ne s = closes mark closing ne t := by
  cases hcut : cut? mark s with
  | none =>
    have hs : s = q ++ closing ++ r := by simpa [upTo, hcut] using h
    have hr : cut? mark r = none := by
      rw [cut?_eq_none_iff] at hcut ⊢
      intro hnot
      refine hcut (hnot.trans ?_)
      rw [hs]
      exact (List.suffix_append _ _).isInfix
    refine ⟨r, hs, ?_, ?_⟩
    · rw [escaped_of_none ne hcut, escaped_of_none ne hr, hs]
    · rw [closes_of_none ne hcut, closes_of_none ne hr]
  | some p =>
    obtain ⟨before, rest⟩ := p
    have hbefore : before = q ++ closing ++ r := by simpa [upTo, hcut] using h
    obtain ⟨hs, hfirst⟩ := cut?_eq_some_iff.1 hcut
    rw [hbefore] at hfirst
    have hr : cut? mark (r ++ mark ++ rest) = some (r, rest) := cut?_append hfirst.of_append rest
    refine ⟨r ++ mark ++ rest, by rw [hs, hbefore]; simp, ?_, ?_⟩
    · rw [escaped_of_some ne hcut, escaped_of_some ne hr, hbefore]
      simp
    · rw [closes_of_some ne hcut, closes_of_some ne hr]

/-- in front of the first opening mark a text is escaped as it is -/
theorem escaped_upTo : escaped mark ne s = upTo mark s ∨
    ∃ rest, s = upTo mark s ++ mark ++ rest ∧
      escaped mark ne s = upTo mark s ++ '\\' :: (mark ++ escaped mark ne rest) := by
  cases hcut : cut? mark s with
  | none =>
    left
    simp [upTo, hcut, escaped_of_none ne hcut]
  | some p =>
    right
    obtain ⟨before, rest⟩ := p
    have hup : upTo mark s = before := by simp [upTo, hcut]
    refine ⟨rest, ?_, ?_⟩
    · rw [hup]
      exact (cut?_eq_some_iff.1 hcut).1
    · rw [hup]
      exact escaped_of_some ne hcut

end Escape

/-- a character of a name is an ASCII letter or digit, or the low line -/
theorem toNat_of_isNameChar {c : Char} (h : isNameChar c = true) : 48 ≤ c.toNat ∧ c.toNat ≤ 122 := by
  simp only [isNameChar, Char.isAlphanum, Char.isAlpha, Char.isUpper, Char.isLower, Char.isDigit, Bool.or_eq_true,
    Bool.and_eq_true, decide_eq_true_eq, beq_iff_eq, ge_iff_le, UInt32.le_iff_toNat_le] at h
  have htoNat : c.val.toNat = c.toNat := rfl
  simp only [htoNat, Char.reduceVal, UInt32.reduceToNat] at h
  rcases h with ((h | h) | h) | rfl
  · omega
  · omega
  · omega
  · decide

theorem isBlank_of_isNameChar {c : Char} (h : isNameChar c = true) : isBlank c = false := by
  have hn := toNat_of_isNameChar h
  simp only [isBlank, Bool.or_eq_false_iff, Bool.and_eq_false_iff, decide_eq_false_iff_not, beq_eq_false_iff_ne]
  omega

theorem isNameChar_of_isBlank {c : Char} (h : isBlank c = true) : isNameChar c = false := by
  cases hc : isNameChar c with
  | false => rfl
  | true => rw [isBlank_of_isNameChar hc] at h; cases h

/-- a name with a blank on each side is stripped to the name -/
theorem strip_name {x : Text} (ne : x ≠ []) (hx : ∀ c ∈ x, isNameChar c = true) :
    strip (' ' :: (x ++ [' '])) = x := by
  have hdrop {u v : Text} (hu : u ≠ []) (hall : ∀ c ∈ u, isNameChar c = true) :
      (' ' :: (u ++ v)).dropWhile isBlank = u ++ v := by
    obtain ⟨c, u, rfl⟩ := List.exists_cons_of_ne_nil hu
    have hc := isBlank_of_isNameChar (hall c List.mem_cons_self)
    simp [List.dropWhile, hc, show isBlank ' ' = true by decide]
  have hreverse := hdrop (u := x.reverse) (v := []) (by simpa using ne) (fun c hc => hx c (List.mem_reverse.1 hc))
  rw [strip, hdrop ne hx, stripEnd, List.reverse_append]
  simp only [List.append_nil] at hreverse
  simp [hreverse]

/-- behind a text with none of its characters a mark stands for the first time -/
theorem firstAfter_of_apart {mark u : Text} (ne : mark ≠ []) (h : ∀ c ∈ u, c ∉ mark) : FirstAfter mark u := by
  induction u with
  | nil => exact firstAfter_nil mark
  | cons c u ih =>
    refine (firstAfter_append_cons ne (h c List.mem_cons_self) (u := [])).2 ⟨?_, ?_⟩
    · simpa using ne
    · exact ih fun d hd => h d (List.mem_cons_of_mem c hd)

/-- behind a text that does not hold a mark and ends with no character of it, the mark stands for the first time -/
theorem firstAfter_of_last {mark u : Text} (ne : mark ≠ []) (h : ¬ mark <:+: u) (hlast : ∀ c ∈ u.getLast?, c ∉ mark) :
    FirstAfter mark u := by
  rcases List.eq_nil_or_concat u with rfl | ⟨u, c, rfl⟩
  · exact firstAfter_nil mark
  · rw [List.concat_eq_append] at h hlast ⊢
    refine (firstAfter_append_cons ne (hlast c (by simp))).2 ⟨fun hu => ?_, firstAfter_nil mark⟩
    exact h (hu.trans (List.prefix_append u [c]).isInfix)

end Text

/-! ## The pieces of an escaped text -/

namespace Delimiter

open Text

/-- marks without backslashes and without a character in common -/
structure Apart (opening closing : Text) : Prop where
  opening_ne : opening ≠ []
  closing_ne : closing ≠ []
  opening_backslash : '\\' ∉ opening
  closing_backslash : '\\' ∉ closing
  apart : ∀ c ∈ opening, c ∉ closing

/-- plain text or an escaped directive -/
def Chunk.isText : Chunk → Bool
  | plain _ => true
  | escaped _ => true
  | _ => false

theorem isText_plainChunk {p : Text} : ∀ c ∈ plainChunk p, c.isText = true := by
  unfold plainChunk
  split <;> simp [Chunk.isText]

/-- pieces that begin with an escaped directive and end with another one have that among those behind -/
theorem eq_of_escaped_append {p q body : Text} {cs run : List Chunk}
    (heq : plainChunk p ++ .escaped q :: cs = run ++ [.directive body]) :
    ∃ run', cs = run' ++ [.directive body] ∧ run = plainChunk p ++ .escaped q :: run' := by
  rcases List.eq_nil_or_concat cs with rfl | ⟨run', c, rfl⟩
  · have hlast := (List.append_inj' heq rfl).2
    simp at hlast
  · have heq' : (plainChunk p ++ .escaped q :: run') ++ [c] = run ++ [.directive body] := by
      rw [← heq]
      simp
    obtain ⟨hrun, hc⟩ := List.append_inj' heq' rfl
    cases hc
    exact ⟨run', by simp, hrun.symm⟩

theorem shown_plainChunk {opening closing : Text} (p : Text) :
    (plainChunk p).flatMap (Chunk.shown opening closing) = p := by
  unfold plainChunk
  split
  · rename_i hp
    simpa using hp.symm
  · simp [Chunk.shown]

theorem shown_escaped {opening closing : Text} (p q : Text) (cs : List Chunk) :
    (plainChunk p ++ .escaped q :: cs).flatMap (Chunk.shown opening closing) =
      p ++ (opening ++ q ++ closing ++ cs.flatMap (Chunk.shown opening closing)) := by
  rw [List.flatMap_append, shown_plainChunk]
  simp [Chunk.shown]

section Pieces

variable {opening closing : Text} (h : Apart opening closing)

include h

/-- an escaped directive behind text without an opening mark is the first piece, or the second -/
theorem chunks_escaped {p body rest : Text} (hp : ¬ opening <:+: p) (hbody : FirstAfter closing body) :
    chunks opening closing h.opening_ne (p ++ '\\' :: (opening ++ (body ++ closing ++ rest))) =
      plainChunk p ++ .escaped body :: chunks opening closing h.opening_ne rest := by
  refine chunks_of_find? h.opening_ne (m := ⟨p, true, body, rest⟩) ?_
  refine (find?_eq_some_iff h.opening_ne h.opening_backslash).2 ⟨by simp [Match.source], hbody, ?_, nofun⟩
  exact (firstAfter_append_cons h.opening_ne h.opening_backslash).2 ⟨hp, firstAfter_nil opening⟩

/-- a directive behind text without an opening mark -/
theorem chunks_directive {p body : Text} (hp : FirstAfter opening p) (hlast : p.getLast? ≠ some '\\')
    (hbody : FirstAfter closing body) :
    chunks opening closing h.opening_ne (p ++ (opening ++ body ++ closing)) = plainChunk p ++ [.directive body] := by
  have hfind : find? opening closing (p ++ (opening ++ body ++ closing)) = some ⟨p, false, body, []⟩ := by
    refine (find?_eq_some_iff h.opening_ne h.opening_backslash).2 ⟨by simp [Match.source], hbody, ?_, fun _ => hlast⟩
    simpa [Match.escape] using hp
  have hrest : chunks opening closing h.opening_ne [] = [] := chunks_of_none h.opening_ne rfl
  rw [chunks_of_find? h.opening_ne hfind, hrest]
  rfl

/-- the first opening mark of a text, if it is closed, and what it closes are a piece, and the rest is by itself -/
theorem chunks_closed {t p rest q r : Text} (hcut : cut? opening t = some (p, rest))
    (hq : cut? closing (upTo opening rest) = some (q, r)) :
    ∃ t', t = p ++ opening ++ q ++ closing ++ t' ∧
      closes opening closing h.opening_ne t = closes opening closing h.opening_ne t' ∧
      ∀ d, chunks opening closing h.opening_ne (escaped opening h.opening_ne t ++ d) =
        plainChunk p ++ .escaped q :: chunks opening closing h.opening_ne (escaped opening h.opening_ne t' ++ d) := by
  obtain ⟨ht, hp⟩ := cut?_eq_some_iff.1 hcut
  obtain ⟨hup, hfirst⟩ := cut?_eq_some_iff.1 hq
  obtain ⟨t', hrest, hescape, hsame⟩ := escaped_behind h.opening_ne hup
  refine ⟨t', by rw [ht, hrest]; simp, ?_, fun d => ?_⟩
  · rw [closes_of_some h.opening_ne hcut, hsame]
    simp [holds, hq]
  · rw [← chunks_escaped h (hp.not_infix h.opening_ne) hfirst, escaped_of_some h.opening_ne hcut, hescape]
    simp

variable {body : Text} (hbody : ∀ c ∈ body, c ∉ opening ∧ c ∉ closing)

include hbody

/-- **An escaped text whose opening marks are closed** and a directive behind it: the pieces have the text for their
literal text, and the directive is one of them. -/
theorem chunks_of_closes {t : Text} (ht : ∀ c ∈ t.getLast?, c ∉ opening ∧ c ≠ '\\')
    (hcloses : closes opening closing h.opening_ne t = true) :
    ∃ run, chunks opening closing h.opening_ne (escaped opening h.opening_ne t ++ (opening ++ body ++ closing)) =
        run ++ [.directive body] ∧
      (∀ c ∈ run, c.isText = true) ∧ run.flatMap (Chunk.shown opening closing) = t := by
  induction hn : t.length using Nat.strong_induction_on generalizing t with
  | _ n ih =>
    cases hcut : cut? opening t with
    | none =>
      have hnot := cut?_eq_none_iff.1 hcut
      refine ⟨plainChunk t, ?_, isText_plainChunk, shown_plainChunk t⟩
      rw [escaped_of_none h.opening_ne hcut]
      refine chunks_directive h (firstAfter_of_last h.opening_ne hnot fun c hc => (ht c hc).1) ?_ ?_
      · intro hlast
        exact (ht _ hlast).2 rfl
      · exact firstAfter_of_apart h.closing_ne fun c hc => (hbody c hc).2
    | some p =>
      obtain ⟨p, rest⟩ := p
      have hholds := hcloses
      rw [closes_of_some h.opening_ne hcut, Bool.and_eq_true, holds, Option.isSome_iff_exists] at hholds
      obtain ⟨⟨⟨q, r⟩, hq⟩, -⟩ := hholds
      obtain ⟨t', rfl, hsame, hchunks⟩ := chunks_closed h hcut hq
      have hlast : ∀ c ∈ t'.getLast?, c ∉ opening ∧ c ≠ '\\' := by
        intro c hc
        refine ht c ?_
        simp only [Option.mem_def] at hc ⊢
        simp [List.getLast?_append, hc]
      have hpos := List.length_pos_iff.2 h.opening_ne
      rw [hsame] at hcloses
      obtain ⟨run, hrun, htext, hshown⟩ := ih t'.length (by simp at hn; omega) hlast hcloses rfl
      refine ⟨plainChunk p ++ .escaped q :: run, ?_, ?_, ?_⟩
      · rw [hchunks, hrun]
        simp
      · intro c hc
        rcases List.mem_append.1 hc with hc | hc
        · exact isText_plainChunk c hc
        · rcases List.mem_cons.1 hc with rfl | hc
          · rfl
          · exact htext c hc
      · rw [shown_escaped, hshown]
        simp

/-- **An opening mark that is left open**: its escaped directive takes a backslash that is not in the text, or all that
is behind. -/
theorem shown_ne_of_open {p rest last : Text} {run : List Chunk} (hnot : ¬ opening <:+: p)
    (hclosing : ¬ closing <:+: upTo opening rest)
    (hrun : chunks opening closing h.opening_ne
      (p ++ '\\' :: (opening ++ escaped opening h.opening_ne rest) ++ (opening ++ body ++ closing)) =
        run ++ [.directive last]) :
    run.flatMap (Chunk.shown opening closing) ≠ p ++ opening ++ rest := by
  intro hshown
  rcases escaped_upTo h.opening_ne (s := rest) with hescape | ⟨rest', hrest, hescape⟩
  · -- the escaped directive takes everything up to the end of the directive behind the text
    obtain ⟨o, os, ho⟩ := List.exists_cons_of_ne_nil h.opening_ne
    have hout : ∀ c ∈ opening ++ body, c ∉ closing := by
      intro c hc
      rcases List.mem_append.1 hc with hc | hc
      · exact h.apart c hc
      · exact (hbody c hc).2
    have hfirst : FirstAfter closing (upTo opening rest ++ (opening ++ body)) := by
      rw [show opening ++ body = o :: (os ++ body) by rw [ho]; rfl] at hout ⊢
      refine (firstAfter_append_cons h.closing_ne (hout o List.mem_cons_self)).2 ⟨hclosing, ?_⟩
      exact firstAfter_of_apart h.closing_ne fun c hc => hout c (List.mem_cons_of_mem o hc)
    have hsource : p ++ '\\' :: (opening ++ escaped opening h.opening_ne rest) ++ (opening ++ body ++ closing) =
        p ++ '\\' :: (opening ++ (upTo opening rest ++ (opening ++ body) ++ closing ++ [])) := by
      rw [hescape]
      simp
    rw [hsource, chunks_escaped h hnot hfirst] at hrun
    obtain ⟨run', hrun', -⟩ := eq_of_escaped_append hrun
    rw [chunks_of_none h.opening_ne rfl] at hrun'
    exact List.append_ne_nil_of_right_ne_nil run' (by simp) hrun'.symm
  · -- the escaped directive takes the backslash of the next opening mark, which is not in the text
    obtain ⟨u, after, hu⟩ : ∃ u after, cut? closing (opening ++ escaped opening h.opening_ne rest' ++
        (opening ++ body ++ closing)) = some (u, after) := by
      cases hu : cut? closing (opening ++ escaped opening h.opening_ne rest' ++ (opening ++ body ++ closing)) with
      | some q => exact ⟨q.1, q.2, rfl⟩
      | none =>
        refine absurd ?_ (cut?_eq_none_iff.1 hu)
        exact ((List.suffix_append _ closing).trans (List.suffix_append _ _)).isInfix
    obtain ⟨hsplit, hfirst⟩ := cut?_eq_some_iff.1 hu
    have hfirst' : FirstAfter closing (upTo opening rest ++ '\\' :: u) :=
      (firstAfter_append_cons h.closing_ne h.closing_backslash).2 ⟨hclosing, hfirst⟩
    have hsource : p ++ '\\' :: (opening ++ escaped opening h.opening_ne rest) ++ (opening ++ body ++ closing) =
        p ++ '\\' :: (opening ++ (upTo opening rest ++ '\\' :: u ++ closing ++ after)) := by
      calc p ++ '\\' :: (opening ++ escaped opening h.opening_ne rest) ++ (opening ++ body ++ closing)
          = p ++ '\\' :: (opening ++ (upTo opening rest ++ '\\' :: (opening ++ escaped opening h.opening_ne rest' ++
              (opening ++ body ++ closing)))) := by
            rw [hescape]
            simp
        _ = p ++ '\\' :: (opening ++ (upTo opening rest ++ '\\' :: u ++ closing ++ after)) := by
            rw [hsplit]
            simp
    rw [hsource, chunks_escaped h hnot hfirst'] at hrun
    obtain ⟨run', -, rfl⟩ := eq_of_escaped_append hrun
    have hsame : p ++ opening ++ rest = p ++ opening ++ (upTo opening rest ++ opening ++ rest') :=
      congrArg (p ++ opening ++ ·) hrest
    rw [shown_escaped, hsame] at hshown
    simp only [List.append_assoc, List.append_cancel_left_eq, List.cons_append] at hshown
    obtain ⟨o, os, ho⟩ := List.exists_cons_of_ne_nil h.opening_ne
    have hback := h.opening_backslash
    rw [ho] at hback
    rw [show opening ++ rest' = o :: (os ++ rest') by rw [ho]; rfl, List.cons.injEq] at hshown
    exact hback (hshown.1 ▸ List.mem_cons_self)

/-- **Pieces that have the text for their literal text**, before a directive: its opening marks are closed. -/
theorem closes_of_chunks {t : Text} {run : List Chunk} {last : Text}
    (hrun : chunks opening closing h.opening_ne (escaped opening h.opening_ne t ++ (opening ++ body ++ closing)) =
      run ++ [.directive last])
    (hshown : run.flatMap (Chunk.shown opening closing) = t) : closes opening closing h.opening_ne t = true := by
  induction hn : t.length using Nat.strong_induction_on generalizing t run with
  | _ n ih =>
    cases hcut : cut? opening t with
    | none => exact closes_of_none h.opening_ne hcut
    | some p =>
      obtain ⟨p, rest⟩ := p
      cases hq : cut? closing (upTo opening rest) with
      | some q =>
        obtain ⟨q, r⟩ := q
        obtain ⟨t', rfl, hsame, hchunks⟩ := chunks_closed h hcut hq
        rw [hchunks] at hrun
        obtain ⟨run', hrun', rfl⟩ := eq_of_escaped_append hrun
        have hshown' : run'.flatMap (Chunk.shown opening closing) = t' := by
          rw [shown_escaped] at hshown
          simpa using hshown
        have hpos := List.length_pos_iff.2 h.opening_ne
        rw [hsame]
        exact ih t'.length (by simp at hn; omega) hrun' hshown' rfl
      | none =>
        obtain ⟨rfl, hp⟩ := cut?_eq_some_iff.1 hcut
        rw [escaped_of_some h.opening_ne hcut] at hrun
        exact absurd hshown (shown_ne_of_open h hbody (hp.not_infix h.opening_ne) (cut?_eq_none_iff.1 hq) hrun)

end Pieces

end Delimiter

/-! ## Scanning an escaped text -/

open Delimiter

namespace Scan

variable {s : Settings} (classify : Text → TokenKind) (source : Text)

/-- text and a directive that has a body are scanned without a fault -/
theorem chunk_isOk {c : Chunk} (hc : c.Proper s.opening s.closing)
    (htext : c.isText = true ∨ ∃ body, c = .directive body ∧ ¬ s.opening <:+: body ∧ Text.strip body ≠ [])
    (position : Nat) (st : Scan) : ∃ st', st.chunk s classify source position c = .ok st' := by
  cases c with
  | plain text =>
    refine ⟨st.add source .literal text position, ?_⟩
    simp only [chunk, literal, literalText, literalFrom_of_not_infix hc.2]
  | escaped body => exact ⟨_, rfl⟩
  | tail text => simp [Chunk.isText] at htext
  | directive body =>
    obtain h | ⟨_, h, hnot, hstrip⟩ := htext
    · cases h
    · cases h
      have hholds : Text.holds s.opening body = false := Text.holds_eq_false_iff.2 hnot
      simp only [chunk, directive, hholds, hstrip, List.isEmpty_iff, Bool.false_eq_true, if_false]
      split <;> exact ⟨_, rfl⟩

theorem run_isOk {cs : List Chunk} (hproper : ∀ c ∈ cs, c.Proper s.opening s.closing)
    (htext : ∀ c ∈ cs, c.isText = true ∨ ∃ body, c = .directive body ∧ ¬ s.opening <:+: body ∧ Text.strip body ≠ [])
    (position : Nat) (st : Scan) : ∃ st', run s classify source position st cs = .ok st' := by
  induction cs generalizing position st with
  | nil => exact ⟨st, rfl⟩
  | cons c cs ih =>
    obtain ⟨st₁, h₁⟩ := chunk_isOk classify source (hproper c List.mem_cons_self)
      (htext c List.mem_cons_self) position st
    simp only [run, h₁]
    exact ih (fun d hd => hproper d (List.mem_cons_of_mem c hd)) (fun d hd => htext d (List.mem_cons_of_mem c hd)) _ _

end Scan

theorem apart_standard : Apart Settings.standard.opening Settings.standard.closing := by
  constructor <;> simp [Settings.standard]

/-- a name between blanks has no character of a standard mark -/
theorem apart_name {x : Text} (hx : ∀ c ∈ x, Text.isNameChar c = true) :
    ∀ c ∈ ' ' :: (x ++ [' ']), c ∉ Settings.standard.opening ∧ c ∉ Settings.standard.closing := by
  intro c hc
  simp only [List.mem_cons, List.mem_append, List.not_mem_nil, or_false] at hc
  have hblank : ' ' ∉ Settings.standard.opening ∧ ' ' ∉ Settings.standard.closing := by simp [Settings.standard]
  rcases hc with rfl | hc | rfl
  · exact hblank
  · have hn := Text.toNat_of_isNameChar (hx c hc)
    constructor
    · intro hmem
      have : c = '\x7b' := by simpa [Settings.standard] using hmem
      subst this
      exact absurd hn (by decide)
    · intro hmem
      have : c = '\x7d' := by simpa [Settings.standard] using hmem
      subst this
      exact absurd hn (by decide)
  · exact hblank

/-- the tokens of a text and of a name in a directive behind it -/
def textAndName (t x : Text) (position line : Nat) : List Token :=
  (if t.isEmpty then [] else [⟨.literal, t, 0, 1⟩]) ++ [⟨.interpolation, x, position, line⟩]

section TextAndName

variable {s : Settings} {classify : Text → TokenKind} {cs : List Chunk} {t x : Text} {position line : Nat}

/-- the pieces that are read as a text and a name: those before the directive have the text for their literal text -/
theorem pieces_of_textAndName (h : Reads s classify cs (textAndName t x position line)) :
    ∃ run body, cs = run ++ [.directive body] ∧ run.flatMap (Chunk.shown s.opening s.closing) = t := by
  rcases List.eq_nil_or_concat cs with rfl | ⟨run, c, rfl⟩
  · exact absurd (h.eq_nil_iff.1 rfl) (by simp [textAndName])
  · have hc := h.directive_of_last (by simp [textAndName]) c (by simp)
    cases c with
    | directive body =>
      rw [List.concat_eq_append] at h ⊢
      obtain ⟨ts, u, hts, hreads, -, -⟩ := h.last_directive
      obtain ⟨rfl, -⟩ := List.append_inj' hts rfl
      refine ⟨run, body, rfl, ?_⟩
      split at hreads
      · rename_i hempty
        rw [hreads.eq_nil_iff.2 rfl]
        simpa using hempty.symm
      · have hreads : Reads s classify run ([] ++ [⟨.literal, t, 0, 1⟩]) := hreads
        obtain ⟨before, run', rfl, hbefore, -, hliteral, -⟩ := hreads.run_of_literal rfl
        rw [hbefore.eq_nil_iff.2 rfl]
        exact hliteral.raw.symm
    | plain u => cases hc
    | escaped u => cases hc
    | tail u => cases hc

/-- pieces before a directive that have the text for their literal text are read as the text and the name -/
theorem textAndName_of_pieces {run : List Chunk} {body : Text} {ts : List Token} {source : Text}
    (h : Reads s classify (run ++ [.directive body]) ts)
    (hlines : ∀ u ∈ ts, u.line = 1 + Text.lineFeeds (source.take u.position))
    (hrun : ∀ c ∈ run, c.isDirective = false) (hshown : run.flatMap (Chunk.shown s.opening s.closing) = t)
    (hraw : ∀ u ∈ ts, u.kind = .literal → u.raw ≠ [])
    (hbody : Text.strip body = x) (hkind : classify x = .interpolation) :
    ts = textAndName t x (extent s run) (1 + Text.lineFeeds (source.take (extent s run))) := by
  obtain ⟨ts, v, rfl, hreads, hv, hposition⟩ := h.last_directive
  have hvkind : v.kind = .interpolation := by rw [hv.kind, hbody, hkind]
  have hname : v = ⟨.interpolation, x, extent s run, 1 + Text.lineFeeds (source.take (extent s run))⟩ := by
    have hvraw : v.raw = x := by rw [hv.raw, hvkind, hbody]; rfl
    have hvline := hlines v (by simp)
    rw [hposition] at hvline
    cases v
    simp_all
  have htext : ts = if t.isEmpty then [] else [⟨.literal, t, 0, 1⟩] := by
    rcases hreads.of_literal hrun with rfl | ⟨u, rfl, hu, hzero⟩
    · rw [hreads.eq_nil_iff.2 rfl] at hshown
      simp [← hshown]
    · have huraw : u.raw = t := by rw [hu.raw, hshown]
      have hne := hraw u (by simp) hu.kind
      have huline := hlines u (by simp)
      have hukind := hu.kind
      rw [huraw] at hne
      cases u
      simp_all [Text.lineFeeds]
  rw [hname, htext, textAndName]

end TextAndName

/-- a body without the marks does not hold the opening one, as it has a character -/
theorem not_infix_of_apart {opening body : Text} (ne : opening ≠ []) (h : ∀ c ∈ body, c ∉ opening) :
    ¬ opening <:+: body := by
  rintro ⟨a, b, rfl⟩
  obtain ⟨o, os, rfl⟩ := List.exists_cons_of_ne_nil ne
  exact h o (by simp) List.mem_cons_self

/-- an escaped text and a directive behind it are scanned as the two exactly if the opening marks are closed -/
theorem scan_escaped {s : Settings} {classify : Text → TokenKind} (hclass : ∀ raw, classify raw ≠ .literal)
    (h : Apart s.opening s.closing) {t body : Text} (hbody : ∀ c ∈ body, c ∉ s.opening ∧ c ∉ s.closing)
    (ht : ∀ c ∈ t.getLast?, c ∉ s.opening ∧ c ≠ '\\') (hne : Text.strip body ≠ [])
    (hkind : classify (Text.strip body) = .interpolation) :
    let before := Text.escaped s.opening s.opening_ne t
    scan s classify (before ++ (s.opening ++ body ++ s.closing)) =
        .ok (textAndName t (Text.strip body) before.length (1 + Text.lineFeeds before)) ↔
      Text.closes s.opening s.closing s.opening_ne t = true := by
  intro before
  constructor
  · intro hscan
    obtain ⟨hreads, -⟩ := reads_of_scan hclass h.opening_backslash hscan
    obtain ⟨run, last, hrun, hshown⟩ := pieces_of_textAndName hreads
    exact closes_of_chunks h hbody hrun hshown
  · intro hcloses
    obtain ⟨run, hrun, htext, hshown⟩ := chunks_of_closes h hbody ht hcloses
    have hproper : ∀ c ∈ chunks s.opening s.closing h.opening_ne (before ++ (s.opening ++ body ++ s.closing)),
        c.Proper s.opening s.closing := proper_chunks h.opening_ne h.opening_backslash _
    have hsplit := source_chunks s.opening s.closing h.opening_ne (before ++ (s.opening ++ body ++ s.closing))
    rw [hrun] at hproper hsplit
    have hextent : run.flatMap (Chunk.source s.opening s.closing) = before := by
      simpa [Chunk.source] using hsplit
    have hliteral : ∀ c ∈ run, c.isDirective = false := by
      intro c hc
      have hc := htext c hc
      cases c <;> first | rfl | cases hc
    have hclosed : ∀ c ∈ run ++ [.directive body], c.isText = true ∨
        ∃ body', c = .directive body' ∧ ¬ s.opening <:+: body' ∧ Text.strip body' ≠ [] := by
      intro c hc
      rcases List.mem_append.1 hc with hc | hc
      · exact .inl (htext c hc)
      · exact .inr ⟨body, List.mem_singleton.1 hc, not_infix_of_apart h.opening_ne fun c hc => (hbody c hc).1, hne⟩
    obtain ⟨st, hst⟩ := Scan.run_isOk classify _ hproper hclosed 0 .start
    have hscan : scan s classify (before ++ (s.opening ++ body ++ s.closing)) = .ok st.tokens.reverse := by
      rw [scan, scanAll, hrun, hst]
      rfl
    obtain ⟨hreads, hlines⟩ := reads_of_scan hclass h.opening_backslash hscan
    rw [hrun] at hreads
    rw [hscan, textAndName_of_pieces hreads hlines hliteral hshown (hreads.raw_ne_nil h.opening_backslash hproper) rfl
      hkind]
    simp [extent, hextent]

/-- **Escaping is undone exactly where every opening mark is closed.** A text that does not end in a backslash or an
opening brace is escaped, and the directive of a name stands behind it: the scan gives the text and the name if every
opening mark of the text has a closing mark before the next one. Otherwise it gives something else, since an escaped
opening mark goes on to the next closing mark: it takes the backslash of the next opening mark, or the directive. -/
theorem scan_escape_iff (t x : Text) (ht : ∀ c ∈ t.getLast?, c ≠ '\\' ∧ c ≠ '\x7b') (ne : x ≠ [])
    (hx : ∀ c ∈ x, Text.isNameChar c = true)
    (hkind : (Registry.standard ['#']).classify x = .interpolation) :
    let before := Text.escaped ['\x7b', '\x7b'] (by decide) t
    scan .standard (Registry.standard ['#']).classify (before ++ ("\x7b\x7b ".toList ++ x ++ " \x7d\x7d".toList)) =
        .ok (textAndName t x before.length (1 + Text.lineFeeds before)) ↔
      Text.closes ['\x7b', '\x7b'] ['\x7d', '\x7d'] (by decide) t = true := by
  intro before
  have hstrip := Text.strip_name ne hx
  have hsource : "\x7b\x7b ".toList ++ x ++ " \x7d\x7d".toList =
      Settings.standard.opening ++ ' ' :: (x ++ [' ']) ++ Settings.standard.closing := by
    simp [Settings.standard]
  have hlast : ∀ c ∈ t.getLast?, c ∉ Settings.standard.opening ∧ c ≠ '\\' := by
    intro c hc
    exact ⟨by simpa [Settings.standard] using (ht c hc).2, (ht c hc).1⟩
  have hiff := scan_escaped (classify_ne_literal ['#']) apart_standard (apart_name hx) hlast (by rwa [hstrip])
    (by rwa [hstrip])
  rw [hsource]
  rwa [hstrip] at hiff

/-- a text whose opening mark is closed comes back, with a line of its own -/
theorem scan_escape_closed :
    let t : Text := "a\n\x7b\x7b b \x7d\x7d"
    scan .standard (Registry.standard ['#']).classify
        (Text.escaped ['\x7b', '\x7b'] (by decide) t ++ ("\x7b\x7b ".toList ++ "x".toList ++ " \x7d\x7d".toList)) =
      .ok [⟨.literal, t, 0, 1⟩, ⟨.interpolation, "x", 10, 2⟩] := by
  intro t
  have hcloses : Text.closes ['\x7b', '\x7b'] ['\x7d', '\x7d'] (by decide) t = true := by decide +kernel
  have hlast : ∀ c ∈ t.getLast?, c ≠ '\\' ∧ c ≠ '\x7b' := by simp [t]
  have hname : ∀ c ∈ "x".toList, Text.isNameChar c = true := by simp [Text.isNameChar]
  have hscan := (scan_escape_iff t "x" hlast (by decide) hname (by decide)).2 hcloses
  have hlength : (Text.escaped ['\x7b', '\x7b'] (by decide) t).length = 10 := by decide +kernel
  have hlines : Text.lineFeeds (Text.escaped ['\x7b', '\x7b'] (by decide) t) = 1 := by decide +kernel
  rw [hlength, hlines] at hscan
  exact hscan

/-- an opening mark that is left open takes the directive behind the text into the literal text -/
theorem scan_escape_open :
    scan .standard (Registry.standard ['#']).classify
        (Text.escaped ['\x7b', '\x7b'] (by decide) "\x7b\x7ba" ++
          ("\x7b\x7b ".toList ++ "x".toList ++ " \x7d\x7d".toList)) =
      .ok [⟨.literal, "\x7b\x7ba\x7b\x7b x \x7d\x7d", 0, 1⟩] :=
  eq_ok_of_toOption (by decide +kernel)

end Stencil
