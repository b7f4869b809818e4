/-
WRITTEN REFERENCES. A reference can be written in several ways: an attribute as `.name`, `['name']` or `["name"]`, an
index as `.3` or `[3]`, a fallback with any blanks around its mark. Reading undoes writing, and nothing else is read.

- `PathText`, `FallbackText`, `Reference.Writing`: a path, a fallback and a reference as they are written.
- `Reference.segment?_eq_some_iff`, `Reference.takePath?_eq_some_iff`: what a text begins with.
- `Reference.grammar?_eq_some_iff`, `Reference.parse_writing`: which texts are references, and what each of them is.
- `Reference.found_segments`: a search that passes over what is no segment finds the same segments.
- `Reference.parse_undoes_writing`: what is read is exactly what can be written.
-/
import Stencil.Proofs.Constants

namespace Stencil

/-- a letter or the low line, then letters, digits and low lines -/
def Text.isName (s : Text) : Bool := Text.isRun Text.isNameStart Text.isNameChar s

/-- the characters of a run are those that may continue it -/
theorem Text.forall_of_isRun {first more : Char → Bool} {s : Text} (h : isRun first more s = true)
    (hfirst : ∀ c, first c = true → more c = true) : ∀ c ∈ s, more c = true := by
  cases s with
  | nil => exact List.forall_mem_nil _
  | cons c cs =>
    rw [isRun, Bool.and_eq_true, List.all_eq_true] at h
    exact List.forall_mem_cons.2 ⟨hfirst c h.1, h.2⟩

theorem Text.isNameChar_of_isNameStart {c : Char} (h : Text.isNameStart c = true) : Text.isNameChar c = true := by
  simp only [isNameStart, isNameChar, Char.isAlphanum, Bool.or_eq_true] at h ⊢
  exact h.imp_left .inl

theorem Text.isBlank_of_isNameStart {c : Char} (h : Text.isNameStart c = true) : Text.isBlank c = false :=
  isBlank_of_isNameChar (isNameChar_of_isNameStart h)

theorem Text.isNameStart_of_isBlank {c : Char} (h : Text.isBlank c = true) : Text.isNameStart c = false := by
  cases hc : Text.isNameStart c with
  | false => rfl
  | true => rw [isBlank_of_isNameStart hc] at h; cases h

theorem Text.isNameChar_of_mem {s : Text} (h : s.isName = true) : ∀ c ∈ s, Text.isNameChar c = true :=
  forall_of_isRun h fun _ => isNameChar_of_isNameStart

theorem Text.toNat_of_isNameStart {c : Char} (h : Text.isNameStart c = true) : 65 ≤ c.toNat ∧ c.toNat ≤ 122 := by
  simp only [isNameStart, Char.isAlpha, Char.isUpper, Char.isLower, Bool.or_eq_true, Bool.and_eq_true,
    decide_eq_true_eq, beq_iff_eq, ge_iff_le, UInt32.le_iff_toNat_le] at h
  have htoNat : c.val.toNat = c.toNat := rfl
  simp only [htoNat, Char.reduceVal, UInt32.reduceToNat] at h
  rcases h with (h | h) | rfl
  · omega
  · omega
  · decide

theorem Text.isDigit_of_isNameStart {c : Char} (h : Text.isNameStart c = true) : Text.isDigit c = false := by
  have hn := toNat_of_isNameStart h
  have hno : ¬(48 ≤ c.toNat ∧ c.toNat ≤ 57) := by omega
  simp [isDigit, digitValue?, show c.toNat < 128 by omega, hno]

theorem Text.isNameStart_of_isDigit {c : Char} (h : Text.isDigit c = true) : Text.isNameStart c = false := by
  cases hc : Text.isNameStart c with
  | false => rfl
  | true => rw [isDigit_of_isNameStart hc] at h; cases h

/-! ## Paths and references as they are written -/

namespace SegmentText

/-- the segment -/
def text : SegmentText → Text
  | name s => '.' :: s
  | dotIndex d => '.' :: d
  | index d => '[' :: (d ++ [']'])
  | key mark s => '[' :: mark :: (s ++ [mark, ']'])

/-- a name, digits, or a key without its mark and without a closing bracket -/
def proper : SegmentText → Bool
  | name s => Text.isName s
  | dotIndex d => Literal.areDigits d
  | index d => Literal.areDigits d
  | key mark s => (mark == '\'' || mark == '"') && s.all fun c => c != mark && c != ']'

/-- an index has no more digits than are read -/
def short : SegmentText → Bool
  | dotIndex d => d.length ≤ digitLimit
  | index d => d.length ≤ digitLimit
  | _ => true

/-- the segment that is meant -/
def segment : SegmentText → Segment
  | name s => .name s
  | dotIndex d => .index (Literal.numberOf d)
  | index d => .index (Literal.numberOf d)
  | key _ s => .name s

/-- the segment is no longer than it is written, where the rest follows it -/
def endsAt (rest : Text) : SegmentText → Bool
  | name _ => !Text.begins Text.isNameChar rest
  | dotIndex _ => !Text.begins Text.isDigit rest
  | _ => true

/-- two ways to write one segment -/
inductive Alike : SegmentText → SegmentText → Prop where
  | name (mark : Char) (s : Text) : Alike (name s) (key mark s)
  | index (d : Text) : Alike (dotIndex d) (index d)
  | refl (p : SegmentText) : Alike p p
  | symm {p q : SegmentText} : Alike p q → Alike q p
  | trans {p q r : SegmentText} : Alike p q → Alike q r → Alike p r

theorem Alike.segment {p q : SegmentText} (h : p.Alike q) : p.segment = q.segment := by
  induction h with
  | name mark s => rfl
  | index d => rfl
  | refl p => rfl
  | symm _ ih => exact ih.symm
  | trans _ _ ih₁ ih₂ => exact ih₁.trans ih₂

theorem map_segment_of_alike {ps qs : List SegmentText} (h : List.Forall₂ Alike ps qs) :
    ps.map segment = qs.map segment := by
  induction h with
  | nil => rfl
  | cons h _ ih => rw [List.map_cons, List.map_cons, h.segment, ih]

end SegmentText

/-- a path as it is written -/
structure PathText where
  root : Text
  segments : List SegmentText
  deriving DecidableEq, Repr

namespace PathText

/-- the segments one behind the other -/
def tail (ps : List SegmentText) : Text := ps.flatMap SegmentText.text

/-- the path -/
def text (p : PathText) : Text := p.root ++ tail p.segments

/-- a name, and segments that can be read -/
def proper (p : PathText) : Bool := Text.isName p.root && p.segments.all SegmentText.proper

/-- no index has more digits than are read -/
def short (p : PathText) : Bool := p.segments.all SegmentText.short

/-- the path that is meant -/
def path (p : PathText) : List Segment := .name p.root :: p.segments.map SegmentText.segment

/-- the last segment is no longer than it is written, and no other follows -/
def endsAt (rest : Text) (p : PathText) : Bool :=
  (match p.segments.getLast? with
    | none => !Text.begins Text.isNameChar rest
    | some q => q.endsAt rest) && (Reference.segment? rest).isNone

end PathText

/-- a fallback as it is written: its literal, and the blanks before and after the mark -/
structure FallbackText where
  before : Text
  after : Text
  literal : LiteralText
  deriving DecidableEq, Repr

namespace FallbackText

/-- the fallback -/
def text (f : FallbackText) : Text := f.before ++ ('?' :: '?' :: (f.after ++ f.literal.text))

/-- a literal that can be read, and blanks -/
def proper (f : FallbackText) : Bool :=
  f.before.all Text.isBlank && f.after.all Text.isBlank && f.literal.proper

end FallbackText

namespace Reference

/-- a reference as it is written -/
structure Writing where
  path : PathText
  fallback : Option FallbackText
  deriving DecidableEq, Repr

namespace Writing

/-- the reference -/
def text (w : Writing) : Text :=
  w.path.text ++ match w.fallback with
    | some f => f.text
    | none => []

/-- the path and the fallback can be read -/
def proper (w : Writing) : Bool := w.path.proper && w.fallback.all FallbackText.proper

/-- the reference can be read, and no index of it has too many digits -/
def legible (w : Writing) : Bool := w.proper && w.path.short

/-- the reference that is meant -/
def reference (w : Writing) : Reference :=
  ⟨w.path.root, w.path.segments.map SegmentText.segment, w.fallback.map fun f => f.literal.text, w.text⟩

end Writing

/-! ## The parts of a text -/

section

variable {s rest : Text}

theorem name?_eq_run (s : Text) : name? s = Text.run? Text.isNameStart Text.isNameChar s := by
  cases s <;> rfl

theorem digits?_eq_run (s : Text) : digits? s = Text.run? Text.isDigit Text.isDigit s := by
  cases s <;> rfl

theorem name?_eq_some_iff {n : Text} :
    name? s = some (n, rest) ↔ Text.isName n = true ∧ s = n ++ rest ∧ Text.begins Text.isNameChar rest = false := by
  rw [name?_eq_run, Text.run?_eq_some_iff, Text.isName]

/-- no name begins with a digit -/
theorem name?_of_digits {d : Text} (h : Literal.areDigits d = true) (rest : Text) : name? (d ++ rest) = none := by
  cases d with
  | nil => cases h
  | cons c d =>
    have hc : Text.isNameStart c = false :=
      Text.isNameStart_of_isDigit (Literal.digits_of_areDigits h c List.mem_cons_self)
    rw [List.cons_append, name?, hc, if_neg Bool.false_ne_true]

theorem digits?_eq_some_iff {d : Text} :
    digits? s = some (d, rest) ↔
      Literal.areDigits d = true ∧ s = d ++ rest ∧ Text.begins Text.isDigit rest = false := by
  rw [digits?_eq_run, Text.run?_eq_some_iff, Literal.areDigits_eq_isRun]

/-- the characters of a key between two of the marks -/
def inKey (mark c : Char) : Bool := c != mark && c != ']'

theorem key?_eq_some_iff {mark : Char} {p : SegmentText} : key? mark s = some (p, rest) ↔
    ∃ k : Text, k.all (inKey mark) = true ∧ p = .key mark k ∧ s = k ++ mark :: ']' :: rest := by
  constructor
  · intro h
    simp only [key?] at h
    split at h
    · rename_i c r hdrop
      split at h
      · rename_i hc
        simp only [Option.map_eq_some_iff, Prod.mk.injEq] at h
        obtain ⟨r', hr, rfl, rfl⟩ := h
        have hall : (s.takeWhile (inKey mark)).all (inKey mark) = true :=
          List.all_eq_true.2 fun d hd => List.mem_takeWhile_imp hd
        refine ⟨s.takeWhile (inKey mark), hall, rfl, ?_⟩
        have hs : s = s.takeWhile (inKey mark) ++ s.dropWhile (inKey mark) := List.takeWhile_append_dropWhile.symm
        have hdrop' : s.dropWhile (inKey mark) = c :: r := hdrop
        rw [hdrop', Text.eq_of_after? hr, beq_iff_eq.1 hc] at hs
        exact hs
      · cases h
    · cases h
  · rintro ⟨k, hk, rfl, rfl⟩
    have hend : Text.begins (inKey mark) (mark :: ']' :: rest) = false := by simp [inKey]
    obtain ⟨htake, hdrop⟩ := Text.span_run (List.all_eq_true.1 hk) hend
    have hbracket : afterBracket? (']' :: rest) = some rest := Text.after?_eq_some_iff.2 rfl
    have htake' : (k ++ mark :: ']' :: rest).takeWhile (fun c => c != mark && c != ']') = k := htake
    have hdrop' : (k ++ mark :: ']' :: rest).dropWhile (fun c => c != mark && c != ']') = mark :: ']' :: rest := hdrop
    simp only [key?, htake', hdrop', BEq.rfl, if_true, hbracket, Option.map_some]

/-- **A text begins with a segment** exactly if it is that of a proper one and a rest before which that one ends. -/
theorem segment?_eq_some_iff {p : SegmentText} : segment? s = some (p, rest) ↔
    p.proper = true ∧ s = p.text ++ rest ∧ p.endsAt rest = true := by
  constructor
  · intro h
    unfold segment? at h
    split at h
    · split at h
      · rename_i hn
        cases h
        obtain ⟨hname, rfl, hend⟩ := name?_eq_some_iff.1 hn
        exact ⟨hname, rfl, by rw [SegmentText.endsAt, hend, Bool.not_false]⟩
      · simp only [Option.map_eq_some_iff, Prod.mk.injEq] at h
        obtain ⟨⟨d, r⟩, hd, rfl, rfl⟩ := h
        obtain ⟨hdigits, rfl, hend⟩ := digits?_eq_some_iff.1 hd
        exact ⟨hdigits, rfl, by rw [SegmentText.endsAt, hend, Bool.not_false]⟩
    · obtain ⟨k, hk, rfl, rfl⟩ := key?_eq_some_iff.1 h
      exact ⟨hk, by simp [SegmentText.text], rfl⟩
    · obtain ⟨k, hk, rfl, rfl⟩ := key?_eq_some_iff.1 h
      exact ⟨hk, by simp [SegmentText.text], rfl⟩
    · simp only [Option.bind_eq_some_iff, Option.map_eq_some_iff, Prod.mk.injEq] at h
      obtain ⟨⟨d, r⟩, hd, r', hr, rfl, rfl⟩ := h
      obtain ⟨hdigits, rfl, -⟩ := digits?_eq_some_iff.1 hd
      have hbracket : r = ']' :: r' := Text.eq_of_after? hr
      exact ⟨hdigits, by simp [SegmentText.text, hbracket], rfl⟩
    · cases h
  · rintro ⟨hp, rfl, hend⟩
    cases p with
    | name n =>
      rw [SegmentText.endsAt, Bool.not_eq_true'] at hend
      have hname : name? (n ++ rest) = some (n, rest) := name?_eq_some_iff.2 ⟨hp, rfl, hend⟩
      simp only [SegmentText.text, List.cons_append, segment?, hname]
    | dotIndex d =>
      rw [SegmentText.endsAt, Bool.not_eq_true'] at hend
      have hdigits : digits? (d ++ rest) = some (d, rest) := digits?_eq_some_iff.2 ⟨hp, rfl, hend⟩
      have hname : name? (d ++ rest) = none := name?_of_digits hp rest
      simp only [SegmentText.text, List.cons_append, segment?, hname, hdigits, Option.map_some]
    | index d =>
      have hdigits : digits? (d ++ ']' :: rest) = some (d, ']' :: rest) := 
        digits?_eq_some_iff.2 ⟨hp, rfl, show Text.isDigit ']' = false by decide⟩
      have hbracket : afterBracket? (']' :: rest) = some rest := Text.after?_eq_some_iff.2 rfl
      have hsegment : segment? ('[' :: (d ++ ']' :: rest)) =
          (digits? (d ++ ']' :: rest)).bind fun p => (afterBracket? p.2).map fun rest => (.index p.1, rest) := by
        cases d with
        | nil => cases hp
        | cons c cs =>
          obtain ⟨-, -, hquote, hmark⟩ := Literal.isDigit_apart (Literal.digits_of_areDigits hp c List.mem_cons_self)
          rw [List.cons_append, segment?]
          · rintro t h
            cases h
            exact hmark rfl
          · rintro t h
            cases h
            exact hquote rfl
      simpa [SegmentText.text, hdigits, hbracket] using hsegment
    | key mark k =>
      rw [SegmentText.proper, Bool.and_eq_true, Bool.or_eq_true, beq_iff_eq, beq_iff_eq] at hp
      have hkey : key? mark (k ++ mark :: ']' :: rest) = some (.key mark k, rest) :=
        key?_eq_some_iff.2 ⟨k, hp.2, rfl, rfl⟩
      rcases hp.1 with rfl | rfl
      · simpa [SegmentText.text, segment?] using hkey
      · simpa [SegmentText.text, segment?] using hkey

/-- with which characters segments do not begin -/
theorem begins_tail {first : Char → Bool} {ps : List SegmentText} (ne : ps ≠ []) (hpoint : first '.' = false)
    (hbracket : first '[' = false) (rest : Text) : Text.begins first (PathText.tail ps ++ rest) = false := by
  cases ps with
  | nil => exact absurd rfl ne
  | cons q qs =>
    cases q with
    | name n => exact hpoint
    | dotIndex d => exact hpoint
    | index d => exact hbracket
    | key mark k => exact hbracket

/-- a segment ends where another begins -/
theorem endsAt_tail {p : SegmentText} {ps : List SegmentText} (ne : ps ≠ []) (rest : Text) :
    p.endsAt (PathText.tail ps ++ rest) = true := by
  cases p with
  | name n => rw [SegmentText.endsAt, begins_tail ne (by decide) (by decide), Bool.not_false]
  | dotIndex d => rw [SegmentText.endsAt, begins_tail ne (by decide) (by decide), Bool.not_false]
  | index d => rfl
  | key mark k => rfl

/-- **The segments that a text begins with** are all that follow one another. -/
theorem segmentTexts_eq_iff {ps : List SegmentText} : segmentTexts s = (ps, rest) ↔
    ps.all SegmentText.proper = true ∧ s = PathText.tail ps ++ rest ∧
      (ps.getLast?.all (·.endsAt rest) = true ∧ segment? rest = none) := by
  constructor
  · intro h
    fun_induction segmentTexts s generalizing ps rest with
    | case1 s hs =>
      cases h
      exact ⟨rfl, rfl, rfl, hs⟩
    | case2 s p r hs qs after hmore ih =>
      cases h
      obtain ⟨hp, rfl, hend⟩ := segment?_eq_some_iff.1 hs
      obtain ⟨hqs, rfl, hlast, hnone⟩ := ih hmore
      refine ⟨by rw [List.all_cons, hp, hqs, Bool.and_self], by simp [PathText.tail], ?_, hnone⟩
      cases qs with
      | nil => exact hend
      | cons q qs => rwa [List.getLast?_cons_cons]
  · rintro ⟨hproper, rfl, hlast, hnone⟩
    induction ps with
    | nil =>
      rw [segmentTexts]
      split
      · rfl
      · rename_i hsome
        have hsome' : segment? rest = _ := hsome
        rw [hnone] at hsome'
        cases hsome'
    | cons p ps ih =>
      rw [List.all_cons, Bool.and_eq_true] at hproper
      have hend : p.endsAt (PathText.tail ps ++ rest) = true := by
        cases ps with
        | nil => exact hlast
        | cons q qs => exact endsAt_tail (by simp) rest
      have hmore : segmentTexts (PathText.tail ps ++ rest) = (ps, rest) := by
        refine ih hproper.2 ?_
        cases ps with
        | nil => rfl
        | cons q qs => rwa [List.getLast?_cons_cons] at hlast
      have hs : segment? (PathText.tail (p :: ps) ++ rest) = some (p, PathText.tail ps ++ rest) :=
        segment?_eq_some_iff.2 ⟨hproper.1, by simp [PathText.tail], hend⟩
      rw [segmentTexts]
      split
      · rename_i hnone'
        rw [hs] at hnone'
        cases hnone'
      · rename_i hsome
        rw [hs] at hsome
        cases hsome
        rw [hmore]

/-- a name ends where segments begin, or else where they would -/
theorem endsAt_iff {p : PathText} : p.endsAt rest = true ↔
    Text.begins Text.isNameChar (PathText.tail p.segments ++ rest) = false ∧
      p.segments.getLast?.all (·.endsAt rest) = true ∧ segment? rest = none := by
  rw [PathText.endsAt, Bool.and_eq_true, Option.isNone_iff_eq_none, ← and_assoc]
  refine and_congr_left' ?_
  cases hps : p.segments with
  | nil => simp [PathText.tail]
  | cons q qs =>
    rw [begins_tail (by simp) (by decide) (by decide)]
    cases hlast : (q :: qs).getLast? with
    | none => simp at hlast
    | some l => simp

/-- a character with which a path may go on -/
def continues (c : Char) : Bool := Text.isNameChar c || Text.isDigit c || c == '.' || c == '['

theorem segment?_eq_none (h : Text.begins continues s = false) : segment? s = none := by
  rw [Option.eq_none_iff_forall_ne_some]
  rintro ⟨p, rest⟩ hp
  obtain ⟨-, rfl, -⟩ := segment?_eq_some_iff.1 hp
  have hpoint : continues '.' ≠ false := by decide
  have hbracket : continues '[' ≠ false := by decide
  cases p with
  | name n => exact hpoint h
  | dotIndex d => exact hpoint h
  | index d => exact hbracket h
  | key mark k => exact hbracket h

theorem continues_of_isBlank {c : Char} (h : Text.isBlank c = true) : continues c = false := by
  have hname := Text.isNameChar_of_isBlank h
  have hpoint : c ≠ '.' := by
    rintro rfl
    exact absurd h (by decide)
  have hbracket : c ≠ '[' := by
    rintro rfl
    exact absurd h (by decide)
  simp [continues, hname, Text.isDigit_of_isBlank h, hpoint, hbracket]

/-- a path ends where a character stands with which it does not go on -/
theorem endsAt_of_begins (p : PathText) (h : Text.begins continues rest = false) : p.endsAt rest = true := by
  have hname : Text.begins Text.isNameChar rest = false := Text.begins_anti (fun c hc => by simp [continues, hc]) h
  have hdigit : Text.begins Text.isDigit rest = false := Text.begins_anti (fun c hc => by simp [continues, hc]) h
  rw [endsAt_iff]
  refine ⟨?_, ?_, segment?_eq_none h⟩
  · cases hps : p.segments with
    | nil => exact hname
    | cons q qs => exact begins_tail (by simp) (by decide) (by decide) rest
  · cases p.segments.getLast? with
    | none => rfl
    | some q => cases q <;> simp [SegmentText.endsAt, hname, hdigit]

/-- **A text begins with a path** exactly if it is that of a proper one and a rest before which that one ends. -/
theorem path?_eq_some_iff {root : Text} {ps : List SegmentText} : path? s = some (root, ps, rest) ↔
    (⟨root, ps⟩ : PathText).proper = true ∧ s = (⟨root, ps⟩ : PathText).text ++ rest ∧
      (⟨root, ps⟩ : PathText).endsAt rest = true := by
  rw [PathText.proper, Bool.and_eq_true, PathText.text, endsAt_iff, path?]
  simp only [Option.map_eq_some_iff, Prod.exists, Prod.mk.injEq]
  constructor
  · rintro ⟨root', r, hname, rfl, hps, hrest⟩
    obtain ⟨hroot, rfl, hend⟩ := name?_eq_some_iff.1 hname
    obtain ⟨hproper, hr, hlast⟩ := segmentTexts_eq_iff.1 (Prod.ext hps hrest)
    rw [hr] at hend ⊢
    exact ⟨⟨hroot, hproper⟩, by simp, hend, hlast⟩
  · rintro ⟨⟨hroot, hproper⟩, rfl, hend, hlast⟩
    have hsegments := segmentTexts_eq_iff.2 ⟨hproper, rfl, hlast⟩
    refine ⟨root, PathText.tail ps ++ rest, name?_eq_some_iff.2 ⟨hroot, by simp, hend⟩, rfl, ?_⟩
    rw [hsegments]
    exact ⟨rfl, rfl⟩

end

/-- what precedes the rest of a text -/
theorem take_sub_length (t rest : Text) : (t ++ rest).take ((t ++ rest).length - rest.length) = t := by
  simp

section

variable {s rest t : Text}

/-- the text of the path is taken off -/
theorem takePath?_eq_some_iff : takePath? s = some (t, rest) ↔ ∃ p : PathText,
    p.proper = true ∧ t = p.text ∧ s = t ++ rest ∧ p.endsAt rest = true := by
  simp only [takePath?, Option.map_eq_some_iff, Prod.exists, Prod.mk.injEq]
  constructor
  · rintro ⟨root, ps, r, hpath, rfl, rfl⟩
    obtain ⟨hproper, rfl, hend⟩ := path?_eq_some_iff.1 hpath
    exact ⟨⟨root, ps⟩, hproper, take_sub_length _ _, by rw [take_sub_length], hend⟩
  · rintro ⟨p, hproper, rfl, rfl, hend⟩
    exact ⟨p.root, p.segments, rest, path?_eq_some_iff.2 ⟨hproper, rfl, hend⟩, take_sub_length _ _, rfl⟩

end

end Reference

theorem Literal.take?_eq_some_iff {s rest t : Text} : Literal.take? s = some (t, rest) ↔ ∃ l : LiteralText,
    l.proper = true ∧ t = l.text ∧ s = t ++ rest ∧ l.endsAt rest = true := by
  simp only [take?, Option.map_eq_some_iff, Prod.mk.injEq, after?_eq_some_iff]
  constructor
  · rintro ⟨r, ⟨l, hl, rfl, hend⟩, rfl, rfl⟩
    exact ⟨l, hl, Reference.take_sub_length _ _, by rw [Reference.take_sub_length], hend⟩
  · rintro ⟨l, hl, rfl, rfl, hend⟩
    exact ⟨rest, ⟨l, hl, rfl, hend⟩, Reference.take_sub_length _ _, rfl⟩

namespace Reference

variable {s rest t : Text}

/-- **A text begins with a fallback** exactly if it is that of a proper one and a rest before which its literal ends. -/
theorem fallback?_eq_some_iff : fallback? s = some (t, rest) ↔ ∃ f : FallbackText,
    f.proper = true ∧ t = f.literal.text ∧ s = f.text ++ rest ∧ f.literal.endsAt rest = true := by
  simp only [fallback?, Option.bind_eq_some_iff, Literal.take?_eq_some_iff, Text.after?_eq_some_iff]
  constructor
  · rintro ⟨r, hmark, l, hl, rfl, hs, hend⟩
    have hbefore : ∀ u : Text, (u.takeWhile Text.isBlank).all Text.isBlank = true :=
      fun u => List.all_eq_true.2 fun c hc => List.mem_takeWhile_imp hc
    refine ⟨⟨s.takeWhile Text.isBlank, r.takeWhile Text.isBlank, l⟩, ?_, rfl, ?_, hend⟩
    · simp only [FallbackText.proper, hbefore, hl, Bool.and_self]
    · have hs' : s = s.takeWhile Text.isBlank ++ s.dropWhile Text.isBlank := List.takeWhile_append_dropWhile.symm
      have hr : r = r.takeWhile Text.isBlank ++ r.dropWhile Text.isBlank := List.takeWhile_append_dropWhile.symm
      rw [hs] at hr
      rw [hmark, hr] at hs'
      simpa [FallbackText.text] using hs'
  · rintro ⟨⟨before, after, l⟩, hf, rfl, rfl, hend⟩
    rw [FallbackText.proper, Bool.and_eq_true, Bool.and_eq_true, List.all_eq_true, List.all_eq_true] at hf
    obtain ⟨⟨hbefore, hafter⟩, hl⟩ := hf
    have hmark : Text.begins Text.isBlank ('?' :: '?' :: (after ++ (l.text ++ rest))) = false :=
      show Text.isBlank '?' = false by decide
    have hsolid := Literal.solid_text hl
    have hliteral : Text.begins Text.isBlank (l.text ++ rest) = false := by
      rw [Text.begins_append hsolid.ne, hsolid.front]
    refine ⟨after ++ (l.text ++ rest), ?_, l, hl, rfl, (Text.span_run hafter hliteral).2, hend⟩
    simpa [FallbackText.text] using (Text.span_run hbefore hmark).2

/-- no path goes on with a fallback -/
theorem begins_fallback {f : FallbackText} (h : f.proper = true) : Text.begins continues f.text = false := by
  rw [FallbackText.proper, Bool.and_eq_true, Bool.and_eq_true, List.all_eq_true] at h
  cases hbefore : f.before with
  | nil => rw [FallbackText.text, hbefore]; exact show continues '?' = false by decide
  | cons b u =>
    have hb : Text.isBlank b = true := h.1.1 b (by simp [hbefore])
    rw [FallbackText.text, hbefore]
    exact continues_of_isBlank hb

/-- **A text is a reference** exactly if it is that of a proper one. -/
theorem grammar?_eq_some_iff {root : Text} {ps : List SegmentText} {fallback : Option Text} :
    grammar? s = some (root, ps, fallback) ↔ ∃ w : Writing, w.proper = true ∧ s = w.text ∧ w.path = ⟨root, ps⟩ ∧
      fallback = w.fallback.map fun f => f.literal.text := by
  simp only [grammar?, Option.bind_eq_some_iff, Prod.exists]
  constructor
  · rintro ⟨root', ps', rest, hpath, h⟩
    obtain ⟨hproper, rfl, -⟩ := path?_eq_some_iff.1 hpath
    split at h
    · rename_i hempty
      cases h
      exact ⟨⟨⟨root, ps⟩, none⟩, by simp [Writing.proper, hproper], by simp [Writing.text, List.isEmpty_iff.1 hempty],
        rfl, rfl⟩
    · simp only [Option.bind_eq_some_iff, Prod.exists] at h
      obtain ⟨l, after, hfallback, h⟩ := h
      split at h
      · rename_i hempty
        cases h
        obtain ⟨f, hf, rfl, rfl, -⟩ := fallback?_eq_some_iff.1 hfallback
        exact ⟨⟨⟨root, ps⟩, some f⟩, by simp [Writing.proper, hproper, hf],
          by simp [Writing.text, List.isEmpty_iff.1 hempty], rfl, rfl⟩
      · cases h
  · rintro ⟨⟨path, f⟩, hw, rfl, rfl, rfl⟩
    rw [Writing.proper, Bool.and_eq_true] at hw
    cases f with
    | none =>
      have hpath : path? ((⟨root, ps⟩ : PathText).text ++ []) = some (root, ps, []) :=
        path?_eq_some_iff.2 ⟨hw.1, rfl, endsAt_of_begins _ rfl⟩
      exact ⟨_, _, _, hpath, rfl⟩
    | some f =>
      have hpath : path? ((⟨root, ps⟩ : PathText).text ++ f.text) = some (root, ps, f.text) :=
        path?_eq_some_iff.2 ⟨hw.1, rfl, endsAt_of_begins _ (begins_fallback hw.2)⟩
      have hfallback : fallback? f.text = some (f.literal.text, []) :=
        fallback?_eq_some_iff.2 ⟨f, hw.2, rfl, by simp, Literal.endsAt_nil _⟩
      have hempty : f.text.isEmpty = false := by simp [FallbackText.text]
      refine ⟨_, _, _, hpath, ?_⟩
      simp [hempty, hfallback]

/-! ## Reading undoes writing -/

theorem segmentOf_eq (p : SegmentText) :
    segmentOf p = if p.short then .ok p.segment else .error .digitLimit := by
  have hindex (d : Text) : indexOf d =
      if d.length ≤ digitLimit then .ok (.index (Literal.numberOf d)) else .error .digitLimit := by
    unfold indexOf
    by_cases h : digitLimit < d.length
    · simp [h, Nat.not_le_of_lt h]
    · simp [h, Nat.le_of_not_lt h]
  cases p with
  | name n => rfl
  | dotIndex d => simp [segmentOf, hindex, SegmentText.short, SegmentText.segment]
  | index d => simp [segmentOf, hindex, SegmentText.short, SegmentText.segment]
  | key mark k => rfl

theorem mapM_segmentOf (ps : List SegmentText) : ps.mapM segmentOf =
    if ps.all SegmentText.short then .ok (ps.map SegmentText.segment) else .error .digitLimit := by
  induction ps with
  | nil => rfl
  | cons p ps ih =>
    rw [List.mapM_cons, ih, segmentOf_eq, List.all_cons]
    cases p.short <;> cases ps.all SegmentText.short <;> rfl

theorem solid_name {n : Text} (h : Text.isName n = true) : Text.Solid n := by
  have hne : n ≠ [] := by
    rintro rfl
    cases h
  exact Text.solid_of_forall hne fun c hc => Text.isBlank_of_isNameChar (Text.isNameChar_of_mem h c hc)

theorem solid_digits {d : Text} (h : Literal.areDigits d = true) : Text.Solid d :=
  have h := Literal.areDigits_iff.1 h
  Text.solid_of_forall h.1 fun c hc => Text.isBlank_of_isDigit (h.2 c hc)

theorem solid_segment {p : SegmentText} (h : p.proper = true) : Text.Solid p.text := by
  have hblank : Text.isBlank '.' = false := by decide
  have hpoint : Text.Solid ['.'] := ⟨by simp, hblank, hblank⟩
  cases p with
  | name n => exact hpoint.append (solid_name h)
  | dotIndex d => exact hpoint.append (solid_digits h)
  | index d => exact Text.solid_around (by decide) (by decide)
  | key mark k =>
    have hkey : (SegmentText.key mark k).text = '[' :: ((mark :: (k ++ [mark])) ++ [']']) := by
      simp [SegmentText.text]
    rw [hkey]
    exact Text.solid_around (by decide) (by decide)

theorem solid_path {p : PathText} (h : p.proper = true) : Text.Solid p.text := by
  rw [PathText.proper, Bool.and_eq_true] at h
  rw [PathText.text]
  have hroot := solid_name h.1
  have hall := h.2
  clear h
  generalize p.root = t at hroot
  generalize p.segments = ps at hall
  -- every segment is put behind a text that has no blank around it
  induction ps generalizing t with
  | nil => simpa [PathText.tail] using hroot
  | cons q qs ih =>
    rw [List.all_cons, Bool.and_eq_true] at hall
    have h := ih (t ++ q.text) (hroot.append (solid_segment hall.1)) hall.2
    simpa [PathText.tail] using h

theorem solid_text {w : Writing} (h : w.proper = true) : Text.Solid w.text := by
  rw [Writing.proper, Bool.and_eq_true] at h
  have hpath := solid_path h.1
  rw [Writing.text]
  cases hf : w.fallback with
  | none => simpa using hpath
  | some f =>
    have hf' : f.proper = true := by simpa [hf] using h.2
    rw [FallbackText.proper, Bool.and_eq_true] at hf'
    have htext := hpath.between (f.before ++ ('?' :: '?' :: f.after)) (Literal.solid_text hf'.2)
    simpa [FallbackText.text] using htext

/-- **A reference is read as it is meant**, unless an index has too many digits. -/
theorem parse_writing {w : Writing} (h : w.proper = true) {u v : Text} (hu : ∀ c ∈ u, Text.isBlank c = true)
    (hv : ∀ c ∈ v, Text.isBlank c = true) :
    parse (u ++ w.text ++ v) = if w.path.short then .ok w.reference else .error .digitLimit := by
  have hstrip : Text.strip (u ++ w.text ++ v) = w.text := (solid_text h).strip hu hv
  have hgrammar : grammar? w.text =
      some (w.path.root, w.path.segments, w.fallback.map fun f => f.literal.text) :=
    grammar?_eq_some_iff.2 ⟨w, h, rfl, rfl, rfl⟩
  have hsegments : w.path.segments.mapM segmentOf =
      if w.path.short then .ok (w.path.segments.map SegmentText.segment) else .error .digitLimit := mapM_segmentOf _
  unfold parse
  simp only [hstrip, hgrammar, hsegments]
  cases w.path.short with
  | true => rfl
  | false => rfl

/-- the segments that a search finds which passes over every character where no segment begins -/
def found (s : Text) : List SegmentText :=
  match _h : segment? s with
  | some (p, rest) => p :: found rest
  | none =>
    match s with
    | [] => []
    | _ :: cs => found cs
termination_by s.length
decreasing_by
  · exact length_segment? _h
  · simp

/-- **A search behind the name of a path** finds its segments, so that it passes over nothing. -/
theorem found_segments {ps : List SegmentText} (h : ps.all SegmentText.proper = true) :
    found (PathText.tail ps) = ps := by
  induction ps with
  | nil =>
    rw [found]
    rfl
  | cons p ps ih =>
    rw [List.all_cons, Bool.and_eq_true] at h
    have hend : p.endsAt (PathText.tail ps) = true := by
      cases ps with
      | nil => cases p <;> rfl
      | cons q qs => simpa using endsAt_tail (List.cons_ne_nil q qs) []
    have hs : segment? (PathText.tail (p :: ps)) = some (p, PathText.tail ps) :=
      segment?_eq_some_iff.2 ⟨h.1, by simp [PathText.tail], hend⟩
    rw [found]
    split
    · rename_i hsome
      rw [hs] at hsome
      cases hsome
      rw [ih h.2]
    · rename_i hnone
      rw [hs] at hnone
      cases hnone

/-- what a parsed reference was written as -/
theorem writing_of_parse {source : Text} {r : Reference} (h : parse source = .ok r) : ∃ w : Writing,
    w.proper = true ∧ w.path.short = true ∧ Text.strip source = w.text ∧ r = w.reference := by
  unfold parse at h
  simp only at h
  split at h
  · cases h
  · rename_i root ps fallback hgrammar
    obtain ⟨⟨path', f⟩, hw, hs, rfl, rfl⟩ := grammar?_eq_some_iff.1 hgrammar
    rw [mapM_segmentOf] at h
    cases hshort : ps.all SegmentText.short with
    | true =>
      rw [hshort] at h
      cases h
      exact ⟨_, hw, hshort, hs, by rw [Writing.reference, ← hs]⟩
    | false =>
      rw [hshort] at h
      cases h

end Reference

/-- a text is the blanks at its beginning, what they are taken off, and the blanks at its end -/
theorem Text.exists_strip (s : Text) : ∃ u v : Text, (∀ c ∈ u ++ v, isBlank c = true) ∧ s = u ++ strip s ++ v := by
  refine ⟨s.takeWhile isBlank, ((s.dropWhile isBlank).reverse.takeWhile isBlank).reverse, ?_, ?_⟩
  · rw [List.forall_mem_append]
    exact ⟨fun c hc => List.mem_takeWhile_imp hc, fun c hc => List.mem_takeWhile_imp (List.mem_reverse.1 hc)⟩
  · have hend : strip s ++ ((s.dropWhile isBlank).reverse.takeWhile isBlank).reverse = s.dropWhile isBlank := by
      rw [strip, stripEnd, ← List.reverse_append, List.takeWhile_append_dropWhile, List.reverse_reverse]
    rw [List.append_assoc, hend, List.takeWhile_append_dropWhile]

namespace Reference

/-- **Reading references undoes writing them.** Whatever blanks stand around it, a reference is read with its name, its
segments one behind the other and its fallback as it is written, and a search that passes over what is no segment finds
the same segments. Every text that is read is written so. Two ways to write the segments give one path. -/
theorem parse_undoes_writing :
    (∀ (w : Writing) (u v : Text), w.legible = true → (∀ c ∈ u ++ v, Text.isBlank c = true) →
      parse (u ++ w.text ++ v) = .ok w.reference ∧ found (PathText.tail w.path.segments) = w.path.segments) ∧
    (∀ (source : Text) (r : Reference), parse source = .ok r → ∃ (w : Writing) (u v : Text), w.legible = true ∧
      (∀ c ∈ u ++ v, Text.isBlank c = true) ∧ source = u ++ w.text ++ v ∧ r = w.reference) ∧
    (∀ w w' : Writing, w.legible = true → w'.legible = true → w.path.root = w'.path.root →
      List.Forall₂ SegmentText.Alike w.path.segments w'.path.segments →
      ∃ r r', parse w.text = .ok r ∧ parse w'.text = .ok r' ∧ r.path = r'.path) := by
  have hread (w : Writing) (u v : Text) (hw : w.legible = true) (hblank : ∀ c ∈ u ++ v, Text.isBlank c = true) :
      parse (u ++ w.text ++ v) = .ok w.reference := by
    rw [Writing.legible, Bool.and_eq_true] at hw
    rw [List.forall_mem_append] at hblank
    rw [parse_writing hw.1 hblank.1 hblank.2, if_pos hw.2]
  refine ⟨fun w u v hw hblank => ⟨hread w u v hw hblank, ?_⟩, ?_, ?_⟩
  · rw [Writing.legible, Writing.proper, PathText.proper, Bool.and_eq_true, Bool.and_eq_true, Bool.and_eq_true] at hw
    exact found_segments hw.1.1.2
  · intro source r h
    obtain ⟨w, hproper, hshort, hstrip, rfl⟩ := writing_of_parse h
    obtain ⟨u, v, hblank, hsource⟩ := Text.exists_strip source
    exact ⟨w, u, v, by rw [Writing.legible, hproper, hshort, Bool.and_self], hblank, hstrip ▸ hsource, rfl⟩
  · intro w w' hw hw' hroot hsegments
    have hsame := SegmentText.map_segment_of_alike hsegments
    refine ⟨w.reference, w'.reference, ?_, ?_, ?_⟩
    · simpa using hread w [] [] hw (by simp)
    · simpa using hread w' [] [] hw' (by simp)
    · simp only [Reference.path, Writing.reference, hroot, hsame]

/-- an item of a row by a key with a blank, and a reference in two ways -/
theorem parse_row_item :
    parse " row.3['first name']  ??\"none\"\n" =
        .ok ⟨"row", [.index 3, .name "first name"], some "\"none\"", "row.3['first name']  ??\"none\""⟩ ∧
      ∃ r r', parse "user.tags[3]" = .ok r ∧ parse "user['tags'].3" = .ok r' ∧ r.path = r'.path := by
  refine ⟨?_, ?_⟩
  · have hblank : ∀ c ∈ ([' '] ++ ['\n'] : Text), Text.isBlank c = true :=
      List.forall_mem_cons.2 ⟨by decide, List.forall_mem_cons.2 ⟨by decide, nofun⟩⟩
    exact (parse_undoes_writing.1
      ⟨⟨"row", [.dotIndex "3", .key '\'' "first name"]⟩, some ⟨"  ", "", .quoted '"' "none"⟩⟩
      [' '] ['\n'] (by decide) hblank).1
  · exact parse_undoes_writing.2.2 ⟨⟨"user", [.name "tags", .index "3"]⟩, none⟩
      ⟨⟨"user", [.key '\'' "tags", .dotIndex "3"]⟩, none⟩ (by decide) (by decide) rfl
      (.cons (.name _ _) (.cons (.symm (.index _)) .nil))

end Reference

end Stencil
