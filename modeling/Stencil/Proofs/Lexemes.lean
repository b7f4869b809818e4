/-
TOKENS OF CONDITIONS. Which tokens a condition's text has is said without its reader: at every place stands the longest
token there is, except that the words true, false and null are literals wherever they stand as whole words.

- `Text.isWord_of_isDigit`, `Text.isWord_of_isBlank`: digits of all scripts are word characters, blanks are none.
- `Lexeme`: a token as it is written; `Lexeme.StandsAt`: it stands in front of a rest that may follow it.
- `Lexeme.Taken`: it is the one that is taken; `part?_eq_some_iff`: it is the one that is read.
- `Tokens`: a text is tokens and blanks; `parts_eq_ok_iff`: these are the tokens that are read, and all of them.
-/
import Stencil.Directive.Condition
import Stencil.Proofs.Written

namespace Stencil

/-! ## Word characters -/

namespace Text

/-- what is left of numbers in order behind those below a bound is not below it -/
theorem le_of_mem_dropWhile {b z : Nat} {ns : List Nat} (hsorted : ns.Pairwise (· < ·))
    (hz : z ∈ ns.dropWhile (· < b)) : b ≤ z := by
  induction ns with
  | nil => cases hz
  | cons n ns ih =>
    rw [List.pairwise_cons] at hsorted
    by_cases hn : n < b
    · rw [List.dropWhile_cons_of_pos (by simpa using hn)] at hz
      exact ih hsorted.2 hz
    · rw [List.dropWhile_cons_of_neg (by simpa using hn)] at hz
      rcases List.mem_cons.1 hz with rfl | hz
      · omega
      · have := hsorted.1 z hz
        omega

/-- every run of ten code points lies between two changes, inside the class -/
def coversTens : List Nat → List Nat → Bool
  | a :: b :: changes, zeros =>
    a ≤ b && (zeros.takeWhile (· < b)).all (fun z => a ≤ z && z + 9 < b) && coversTens changes (zeros.dropWhile (· < b))
  | _, zeros => zeros.isEmpty

theorem inside_of_coversTens {changes zeros : List Nat} (hsorted : zeros.Pairwise (· < ·))
    (h : coversTens changes zeros = true) {z n : Nat} (hz : z ∈ zeros) (hn : z ≤ n) (hn' : n ≤ z + 9) :
    inside changes n = true := by
  fun_induction coversTens changes zeros with
  | case1 a b changes zeros ih =>
    simp only [Bool.and_eq_true, List.all_eq_true, decide_eq_true_eq] at h
    obtain ⟨⟨hab, hfirst⟩, hrest⟩ := h
    have hsplit : zeros = zeros.takeWhile (· < b) ++ zeros.dropWhile (· < b) := List.takeWhile_append_dropWhile.symm
    rw [hsplit, List.mem_append] at hz
    rcases hz with hz | hz
    · obtain ⟨hza, hzb⟩ := hfirst z hz
      simp [inside, show a ≤ n by omega, show ¬b ≤ n by omega]
    · have hbz : b ≤ z := le_of_mem_dropWhile hsorted hz
      have hin := ih (hsorted.sublist (List.dropWhile_sublist _)) hrest hz
      have htake : (a :: b :: changes).takeWhile (· ≤ n) = a :: b :: changes.takeWhile (· ≤ n) := by
        simp [show a ≤ n by omega, show b ≤ n by omega]
      rw [inside, beq_iff_eq] at hin ⊢
      rw [htake, List.length_cons, List.length_cons]
      omega
  | case2 zeros changes hno =>
    rw [List.isEmpty_iff.1 h] at hz
    cases hz

/-- the digits of every script are word characters -/
theorem isWord_of_isDigit {c : Char} (h : isDigit c = true) : isWord c = true := by
  have hcovers : coversTens wordChanges digitZeros = true := by decide +kernel
  have hsorted : digitZeros.Pairwise (· < ·) := by decide
  unfold isDigit digitValue? at h
  dsimp only at h
  unfold isWord
  split at h
  · rename_i hascii
    rw [if_pos hascii]
    have hdigit : 48 ≤ c.toNat ∧ c.toNat ≤ 57 := by
      by_contra hno
      simp [hno] at h
    simp only [isNameChar, Char.isAlphanum, Char.isDigit, Bool.or_eq_true, Bool.and_eq_true, decide_eq_true_eq,
      ge_iff_le, UInt32.le_iff_toNat_le]
    exact .inl (.inr hdigit)
  · rename_i hascii
    rw [if_neg hascii]
    rw [Option.isSome_map, List.find?_isSome] at h
    obtain ⟨z, hz, hn⟩ := h
    simp only [Bool.and_eq_true, decide_eq_true_eq] at hn
    exact inside_of_coversTens hsorted hcovers hz hn.1 hn.2

theorem isWord_of_isNameChar {c : Char} (h : isNameChar c = true) : isWord c = true := by
  have hn := toNat_of_isNameChar h
  rw [isWord, if_pos (by omega)]
  exact h

theorem isWord_of_isNameStart {c : Char} (h : isNameStart c = true) : isWord c = true :=
  isWord_of_isNameChar (isNameChar_of_isNameStart h)

/-- no blank is a word character -/
theorem isWord_of_isBlank {c : Char} (h : isBlank c = true) : isWord c = false := by
  have hwide : ∀ n ∈ [0x85, 0xA0, 0x1680, 0x2000, 0x2001, 0x2002, 0x2003, 0x2004, 0x2005, 0x2006, 0x2007, 0x2008,
      0x2009, 0x200A, 0x2028, 0x2029, 0x202F, 0x205F, 0x3000], inside wordChanges n = false := by decide +kernel
  unfold isWord
  split
  · exact isNameChar_of_isBlank h
  · rename_i hascii
    refine hwide c.toNat ?_
    simp only [isBlank, Bool.or_eq_true, Bool.and_eq_true, decide_eq_true_eq, beq_iff_eq] at h
    simp only [List.mem_cons, List.not_mem_nil, or_false]
    omega
end Text

/-! ## Tokens as they are written -/

namespace Directive

/-- a token of a condition as it is written -/
inductive Lexeme where
  | literal (l : LiteralText)
  | operator (op : Comparison)
  | fallback
  | path (p : PathText)
  deriving DecidableEq, Repr

namespace Lexeme

/-- the token that is read -/
def part : Lexeme → Part
  | literal l => .literal l.text
  | operator op => .operator op
  | fallback => .fallback
  | path p => .path p.text

/-- the source text -/
def text (x : Lexeme) : Text := x.part.text

/-- the literal or the path can be read -/
def proper : Lexeme → Bool
  | literal l => l.proper
  | path p => p.proper
  | _ => true

/-- no integer and no index has more digits than are read -/
def short : Lexeme → Bool
  | literal l => l.short
  | path p => p.short
  | _ => true

/-- one of the words that are literals -/
def isWord : Lexeme → Bool
  | literal .null => true
  | literal (.bool _) => true
  | _ => false

/-- a word that is a literal is a whole word, and behind a number stand no word character and no point -/
def allows (rest : Text) : Lexeme → Bool
  | literal .null => Literal.atWordEnd rest
  | literal (.bool _) => Literal.atWordEnd rest
  | literal (.number _ _ _) => atNumberEnd rest
  | _ => true

/-- the token stands in front of a rest that may follow it -/
structure StandsAt (x : Lexeme) (s rest : Text) : Prop where
  proper : x.proper = true
  split : s = x.text ++ rest
  allows : x.allows rest = true

/-- the token is taken: it is a word that is a literal, or else no such word stands there and no longer token -/
structure Taken (x : Lexeme) (s rest : Text) : Prop where
  stands : x.StandsAt s rest
  first : x.isWord = true ∨ ∀ y r, StandsAt y s r → y.isWord = false ∧ y.text.length ≤ x.text.length

end Lexeme

/-- **The text is tokens and blanks**, the tokens being those that are taken one behind the other. -/
inductive Tokens : Text → List Lexeme → Prop where
  | done {s : Text} (blank : ∀ c ∈ s, Text.isBlank c = true) : Tokens s []
  | token {u s rest : Text} {x : Lexeme} {xs : List Lexeme} (blank : ∀ c ∈ u, Text.isBlank c = true)
      (taken : x.Taken s rest) (more : Tokens rest xs) : Tokens (u ++ s) (x :: xs)

/-! ## With which characters tokens begin -/

/-- what a character may begin: a literal of marks or digits, an operator, the fallback mark, or a path or word -/
inductive Lead where
  | literal
  | operator
  | fallback
  | path
  deriving DecidableEq, Repr

/-- what a character may begin -/
def leadOf (c : Char) : Lead :=
  if c == '"' || c == '\'' || Literal.atNumber c then .literal
  else if c == '=' || c == '!' || c == '<' || c == '>' then .operator
  else if c == '?' then .fallback
  else .path

namespace Lexeme

/-- what a token begins like -/
def lead : Lexeme → Lead
  | literal .null => .path
  | literal (.bool _) => .path
  | literal _ => .literal
  | operator _ => .operator
  | fallback => .fallback
  | path _ => .path

end Lexeme

theorem leadOf_nameStart {c : Char} (h : Text.isNameStart c = true) : leadOf c = .path := by
  have hn := Text.toNat_of_isNameStart h
  have hne : ∀ d : Char, d.toNat < 65 → (c == d) = false := by
    intro d hd
    rw [beq_eq_false_iff_ne]
    rintro rfl
    omega
  simp [leadOf, Literal.atNumber, Text.isDigit_of_isNameStart h, hne '"' (by decide), hne '\'' (by decide),
    hne '-' (by decide), hne '=' (by decide), hne '!' (by decide), hne '<' (by decide), hne '>' (by decide),
    hne '?' (by decide)]

theorem leadOf_number {c : Char} (h : Literal.atNumber c = true) : leadOf c = .literal := by
  simp [leadOf, h]

/-- **A token begins with a character** that begins tokens of its kind. -/
theorem lead_text {x : Lexeme} (h : x.proper = true) : ∃ c cs, x.text = c :: cs ∧ leadOf c = x.lead := by
  cases x with
  | literal l =>
    cases l with
    | null => exact ⟨_, _, rfl, by decide⟩
    | bool b =>
      cases b with
      | true => exact ⟨_, _, rfl, by decide⟩
      | false => exact ⟨_, _, rfl, by decide⟩
    | quoted mark s =>
      have hl : (LiteralText.quoted mark s).proper = true := h
      rw [LiteralText.proper, Bool.and_eq_true, Bool.or_eq_true, beq_iff_eq, beq_iff_eq] at hl
      rcases hl.1 with rfl | rfl
      · exact ⟨_, _, rfl, rfl⟩
      · exact ⟨_, _, rfl, rfl⟩
    | number negative whole fraction =>
      have hl : (LiteralText.number negative whole fraction).proper = true := h
      have hbegins := Literal.begins_number hl []
      rw [List.append_nil] at hbegins
      cases htext : (LiteralText.number negative whole fraction).text with
      | nil => rw [htext] at hbegins; cases hbegins
      | cons c cs =>
        rw [htext] at hbegins
        exact ⟨c, cs, htext, leadOf_number hbegins⟩
  | operator op => cases op <;> exact ⟨_, _, rfl, by decide⟩
  | fallback => exact ⟨_, _, rfl, by decide⟩
  | path p =>
    have hp : p.proper = true := h
    rw [PathText.proper, Bool.and_eq_true] at hp
    cases hroot : p.root with
    | nil => rw [hroot] at hp; cases hp.1
    | cons c cs =>
      rw [hroot, Text.isName, Text.isRun, Bool.and_eq_true] at hp
      refine ⟨c, cs ++ PathText.tail p.segments, ?_, leadOf_nameStart hp.1.1⟩
      show p.text = _
      rw [PathText.text, hroot, List.cons_append]

/-- tokens that stand at one place begin alike -/
theorem lead_unique {x y : Lexeme} {s r r' : Text} (hx : x.StandsAt s r) (hy : y.StandsAt s r') : x.lead = y.lead := by
  obtain ⟨c, cs, hc, hlead⟩ := lead_text hx.proper
  obtain ⟨d, ds, hd, hlead'⟩ := lead_text hy.proper
  have hs := hx.split.symm.trans hy.split
  rw [hc, hd, List.cons_append, List.cons_append] at hs
  rw [← hlead, ← hlead', (List.cons.inj hs).1]

/-! ## Literals -/

/-- what may follow a literal lets it end -/
theorem endsAt_of_allows {l : LiteralText} {rest : Text} (h : (Lexeme.literal l).allows rest = true) :
    l.endsAt rest = true := by
  cases l with
  | null => exact h
  | bool b => exact h
  | quoted mark s => rfl
  | number negative whole fraction =>
    have hend : Text.begins Text.isDigit rest = false ∧ LiteralText.atFraction rest = false := by
      cases rest with
      | nil => exact ⟨rfl, rfl⟩
      | cons c cs =>
        have hc : Text.isWord c = false ∧ c ≠ '.' := by simpa [Lexeme.allows, atNumberEnd] using h
        constructor
        · cases hdigit : Text.isDigit c with
          | false => exact hdigit
          | true => rw [Text.isWord_of_isDigit hdigit] at hc; cases hc.1
        · refine Literal.atFraction_eq_false fun t ht => hc.2 ?_
          exact (List.cons.inj ht).1
    cases fraction with
    | none => simp [LiteralText.endsAt, hend.1, hend.2]
    | some f => simp [LiteralText.endsAt, hend.1]

theorem allows_iff {l : LiteralText} {rest : Text} : (Lexeme.literal l).allows rest = true ↔
    l.endsAt rest = true ∧ (l.isNumber = true → atNumberEnd rest = true) := by
  refine ⟨fun h => ⟨endsAt_of_allows h, fun hl => ?_⟩, fun h => ?_⟩
  · cases l with
    | number _ _ _ => exact h
    | _ => cases hl
  · cases l with
    | number _ _ _ => exact h.2 rfl
    | quoted _ _ => rfl
    | _ => exact h.1

/-- **A literal is read** exactly where one stands. -/
theorem afterOperand?_eq_some_iff {s rest : Text} :
    afterOperand? s = some rest ↔ ∃ l, (Lexeme.literal l).StandsAt s rest := by
  unfold afterOperand?
  rw [Literal.first_eq_some_iff]
  constructor
  · rintro ⟨l, hl, hs, hend⟩
    exact ⟨l, hl, hs, allows_iff.2 hend⟩
  · rintro ⟨l, hl, hs, hallows⟩
    exact ⟨l, hl, hs, allows_iff.1 hallows⟩

/-! ## Operators -/

theorem operator?_eq {s rest : Text} {op : Comparison} (h : operator? s = some (op, rest)) : s = op.text ++ rest := by
  obtain ⟨op', -, h⟩ := List.exists_of_findSome?_eq_some h
  simp only [Option.map_eq_some_iff, Prod.mk.injEq] at h
  obtain ⟨r, hr, rfl, rfl⟩ := h
  exact Text.eq_of_after? hr

/-- an operator of two characters is read before those of one -/
theorem operator?_two {op : Comparison} (h : op.text.length = 2) (rest : Text) :
    operator? (op.text ++ rest) = some (op, rest) := by
  cases op with
  | lt => cases h
  | gt => cases h
  | eq => rfl
  | ne => rfl
  | le => rfl
  | ge => rfl

theorem exists_operator? (op : Comparison) (rest : Text) : ∃ p, operator? (op.text ++ rest) = some p := by
  rw [← Option.isSome_iff_exists, operator?, List.findSome?_isSome_iff]
  refine ⟨op, by cases op <;> simp [operators], ?_⟩
  rw [Option.isSome_map, Text.after?_eq_some_iff.2 rfl]
  rfl

/-- **The operator that is read** is the longest that stands there. -/
theorem operator?_longest {s rest r : Text} {op op' : Comparison} (h : operator? s = some (op, rest))
    (hs : s = op'.text ++ r) : op'.text.length ≤ op.text.length := by
  have hlengths : ∀ o : Comparison, o.text.length = 1 ∨ o.text.length = 2 := by
    intro o
    cases o <;> decide
  rcases hlengths op' with h' | h'
  · rcases hlengths op with hop | hop <;> omega
  · rw [hs, operator?_two h'] at h
    cases h
    exact le_rfl

/-! ## Paths -/

end Directive

namespace Text

/-- a run goes on as far as it can -/
theorem run?_append {first more : Char → Bool} {n : Text} (h : isRun first more n = true) (r : Text) :
    ∃ n', run? first more (n ++ r) = some (n', r.dropWhile more) := by
  cases n with
  | nil => cases h
  | cons c cs =>
    rw [isRun, Bool.and_eq_true, List.all_eq_true] at h
    rw [List.cons_append, run?, if_pos h.1, List.dropWhile_append_of_pos h.2]
    exact ⟨_, rfl⟩

end Text

namespace Reference

/-- a segment that can be read is read, or a longer one -/
theorem segment?_append {p : SegmentText} (h : p.proper = true) (r : Text) :
    ∃ p' r', segment? (p.text ++ r) = some (p', r') ∧ r' <:+ r := by
  cases hend : p.endsAt r with
  | true => exact ⟨p, r, segment?_eq_some_iff.2 ⟨h, rfl, hend⟩, List.suffix_refl r⟩
  | false =>
    cases p with
    | name n =>
      obtain ⟨n', hn⟩ := Text.run?_append h r
      rw [← name?_eq_run] at hn
      refine ⟨.name n', r.dropWhile Text.isNameChar, ?_, List.dropWhile_suffix _⟩
      simp only [SegmentText.text, List.cons_append, segment?, hn]
    | dotIndex d =>
      have hd : Text.isRun Text.isDigit Text.isDigit d = true := Literal.areDigits_eq_isRun d ▸ h
      obtain ⟨d', hdigits⟩ := Text.run?_append hd r
      rw [← digits?_eq_run] at hdigits
      refine ⟨.dotIndex d', r.dropWhile Text.isDigit, ?_, List.dropWhile_suffix _⟩
      simp only [SegmentText.text, List.cons_append, segment?, name?_of_digits h, hdigits, Option.map_some]
    | index d => cases hend
    | key mark k => cases hend

theorem segmentTexts_append {ps : List SegmentText} (h : ps.all SegmentText.proper = true) (r : Text) :
    (segmentTexts (PathText.tail ps ++ r)).2 <:+ r := by
  induction ps with
  | nil => exact (of_segmentTexts r).1
  | cons p ps ih =>
    rw [List.all_cons, Bool.and_eq_true] at h
    have htext : PathText.tail (p :: ps) ++ r = p.text ++ (PathText.tail ps ++ r) := by simp [PathText.tail]
    rw [htext, segmentTexts]
    cases ps with
    | nil =>
      obtain ⟨p', r', hs, hr⟩ := segment?_append h.1 (PathText.tail [] ++ r)
      split
      · rename_i hnone
        rw [hs] at hnone
        cases hnone
      · rename_i hsome
        rw [hs] at hsome
        cases hsome
        exact (of_segmentTexts r').1.trans hr
    | cons q qs =>
      have hs : segment? (p.text ++ (PathText.tail (q :: qs) ++ r)) = some (p, PathText.tail (q :: qs) ++ r) :=
        segment?_eq_some_iff.2 ⟨h.1, rfl, endsAt_tail (List.cons_ne_nil q qs) r⟩
      split
      · rename_i hnone
        rw [hs] at hnone
        cases hnone
      · rename_i hsome
        rw [hs] at hsome
        cases hsome
        exact ih h.2

/-- **A path that can be read is read**, or a longer one. -/
theorem path?_append {p : PathText} (h : p.proper = true) (r : Text) :
    ∃ (q : PathText) (r' : Text), path? (p.text ++ r) = some (q.root, q.segments, r') ∧ r' <:+ r := by
  rw [PathText.proper, Bool.and_eq_true] at h
  obtain ⟨n, hn⟩ := Text.run?_append h.1 (PathText.tail p.segments ++ r)
  rw [← name?_eq_run, ← List.append_assoc] at hn
  refine ⟨⟨n, (segmentTexts ((PathText.tail p.segments ++ r).dropWhile Text.isNameChar)).1⟩,
    (segmentTexts ((PathText.tail p.segments ++ r).dropWhile Text.isNameChar)).2, ?_, ?_⟩
  · rw [path?, PathText.text, hn]
    rfl
  · cases hps : p.segments with
    | nil => exact (of_segmentTexts _).1.trans (List.dropWhile_suffix _)
    | cons q qs =>
      rw [hps] at h
      rw [Text.dropWhile_of_begins (begins_tail (List.cons_ne_nil q qs) (by decide) (by decide) r)]
      exact segmentTexts_append h.2 r

variable {p q : PathText} {s r rest : Text}

/-- a path is written by its text alone -/
theorem eq_of_text_eq (hp : p.proper = true) (hq : q.proper = true) (h : p.text = q.text) : p = q := by
  have hread {o : PathText} (ho : o.proper = true) : path? (o.text ++ []) = some (o.root, o.segments, []) :=
    path?_eq_some_iff.2 ⟨ho, rfl, endsAt_of_begins o rfl⟩
  have hboth := (hread hp).symm.trans (h ▸ hread hq)
  simp only [Option.some.injEq, Prod.mk.injEq, and_true] at hboth
  cases p
  cases q
  exact congrArg₂ PathText.mk hboth.1 hboth.2

/-- **A path ends before a rest** exactly if no longer path stands there. -/
theorem endsAt_iff_longest (hp : p.proper = true) : p.endsAt rest = true ↔
    ∀ (q : PathText) (r : Text), q.proper = true → p.text ++ rest = q.text ++ r → q.text.length ≤ p.text.length := by
  constructor
  · intro hend q r hq hs
    obtain ⟨o, r', hread, hr⟩ := path?_append hq r
    have hp' : path? (p.text ++ rest) = some (p.root, p.segments, rest) := path?_eq_some_iff.2 ⟨hp, rfl, hend⟩
    rw [hs, hread] at hp'
    simp only [Option.some.injEq, Prod.mk.injEq] at hp'
    rw [hp'.2.2] at hr
    have hlen := congrArg List.length hs
    have hle := hr.length_le
    simp only [List.length_append] at hlen
    omega
  · intro h
    obtain ⟨q, r, hread, hr⟩ := path?_append hp rest
    obtain ⟨hq, hs, hend⟩ := path?_eq_some_iff.1 hread
    have hs' : p.text ++ rest = q.text ++ r := hs
    have hlen := congrArg List.length hs'
    have hle := h q r hq hs'
    simp only [List.length_append] at hlen
    have hrest : r = rest := hr.eq_of_length_le (by omega)
    subst hrest
    rw [eq_of_text_eq hp hq (List.append_cancel_right hs')]
    exact hend

end Reference

/-! ## The token that is read -/

namespace Directive

variable {s rest : Text} {x y : Lexeme}

theorem part?_of_literal {r : Text} (h : afterOperand? s = some r) :
    part? s = some (.literal (s.take (s.length - r.length)), r) := by
  rw [part?, h]
  rfl

theorem part?_of_operator {p : Comparison × Text} (hliteral : afterOperand? s = none) (h : operator? s = some p) :
    part? s = some (.operator p.1, p.2) := by
  rw [part?, hliteral, h]
  rfl

theorem part?_of_fallback {r : Text} (hliteral : afterOperand? s = none) (hop : operator? s = none)
    (h : Text.after? ['?', '?'] s = some r) : part? s = some (.fallback, r) := by
  rw [part?, hliteral, hop, h]
  rfl

theorem part?_of_path (hliteral : afterOperand? s = none) (hop : operator? s = none)
    (h : Text.after? ['?', '?'] s = none) :
    part? s = (Reference.takePath? s).map fun p => (Part.path p.1, p.2) := by
  rw [part?, hliteral, hop, h]
  rfl

theorem operator_stands {op : Comparison} (h : operator? s = some (op, rest)) : (Lexeme.operator op).StandsAt s rest :=
  ⟨rfl, operator?_eq h, rfl⟩

theorem fallback_stands (h : Text.after? ['?', '?'] s = some rest) : Lexeme.fallback.StandsAt s rest :=
  ⟨rfl, Text.eq_of_after? h, rfl⟩

theorem path_stands {p : PathText} (hp : p.proper = true) (rest : Text) :
    (Lexeme.path p).StandsAt (p.text ++ rest) rest := ⟨hp, rfl, rfl⟩

/-- no literal is read where tokens of another kind stand -/
theorem afterOperand?_eq_none (hx : x.StandsAt s rest) (hne : x.lead ≠ .literal)
    (hword : ∀ l r, (Lexeme.literal l).StandsAt s r → (Lexeme.literal l).isWord = false) : afterOperand? s = none := by
  rw [Option.eq_none_iff_forall_ne_some]
  intro r hr
  obtain ⟨l, hl⟩ := afterOperand?_eq_some_iff.1 hr
  have hlead := lead_unique hx hl
  have hnot := hword l r hl
  cases l with
  | null => cases hnot
  | bool b => cases hnot
  | quoted mark k => exact hne hlead
  | number negative whole fraction => exact hne hlead

theorem operator?_eq_none (hx : x.StandsAt s rest) (hne : x.lead ≠ .operator) : operator? s = none := by
  rw [Option.eq_none_iff_forall_ne_some]
  rintro ⟨op, r⟩ hr
  exact hne (lead_unique hx (operator_stands hr))

theorem after?_eq_none (hx : x.StandsAt s rest) (hne : x.lead ≠ .fallback) : Text.after? ['?', '?'] s = none := by
  rw [Option.eq_none_iff_forall_ne_some]
  intro r hr
  exact hne (lead_unique hx (fallback_stands hr))

/-- two tokens that are taken at one place are the same for the reader -/
theorem taken_of_part? {p : Part} (h : part? s = some (p, rest)) : ∃ x : Lexeme, x.Taken s rest ∧ p = x.part := by
  cases hliteral : afterOperand? s with
  | some r =>
    rw [part?_of_literal hliteral] at h
    cases h
    obtain ⟨l, hl⟩ := afterOperand?_eq_some_iff.1 hliteral
    have htext : s.take (s.length - rest.length) = l.text := by
      rw [hl.split]
      exact Reference.take_sub_length l.text rest
    refine ⟨.literal l, ⟨hl, ?_⟩, by rw [htext]; rfl⟩
    cases hword : (Lexeme.literal l).isWord with
    | true => exact .inl rfl
    | false =>
      refine .inr fun y r hy => ?_
      have hlead : y.lead = .literal := by
        rw [← lead_unique hl hy]
        cases l with
        | null => cases hword
        | bool b => cases hword
        | quoted mark k => rfl
        | number negative whole fraction => rfl
      cases y with
      | operator op => cases hlead
      | fallback => cases hlead
      | path p => cases hlead
      | literal l' =>
        -- the reader gives one rest only
        have hr := hliteral.symm.trans (afterOperand?_eq_some_iff.2 ⟨l', hy⟩)
        cases hr
        have htexts := List.append_cancel_right (hl.split.symm.trans hy.split)
        refine ⟨?_, (congrArg List.length htexts).ge⟩
        cases l' <;> first | rfl | cases hlead
  | none =>
    have hnone : ∀ l r, ¬(Lexeme.literal l).StandsAt s r := by
      intro l r hl
      rw [afterOperand?_eq_some_iff.2 ⟨l, hl⟩] at hliteral
      cases hliteral
    cases hop : operator? s with
    | some o =>
      obtain ⟨op, r⟩ := o
      rw [part?_of_operator hliteral hop] at h
      cases h
      refine ⟨.operator op, ⟨operator_stands hop, .inr fun y r hy => ?_⟩, rfl⟩
      have hlead := lead_unique (operator_stands hop) hy
      cases y with
      | literal l => exact absurd hy (hnone l r)
      | fallback => cases hlead
      | path p => cases hlead
      | operator op' => exact ⟨rfl, operator?_longest hop hy.split⟩
    | none =>
      cases hfallback : Text.after? ['?', '?'] s with
      | some r =>
        rw [part?_of_fallback hliteral hop hfallback] at h
        cases h
        refine ⟨.fallback, ⟨fallback_stands hfallback, .inr fun y r hy => ?_⟩, rfl⟩
        have hlead := lead_unique (fallback_stands hfallback) hy
        cases y with
        | literal l => exact absurd hy (hnone l r)
        | operator op => cases hlead
        | path p => cases hlead
        | fallback => exact ⟨rfl, le_rfl⟩
      | none =>
        rw [part?_of_path hliteral hop hfallback] at h
        simp only [Option.map_eq_some_iff, Prod.mk.injEq] at h
        obtain ⟨⟨t, r⟩, hpath, rfl, rfl⟩ := h
        obtain ⟨p, hp, rfl, rfl, hend⟩ := Reference.takePath?_eq_some_iff.1 hpath
        refine ⟨.path p, ⟨path_stands hp r, .inr fun y r' hy => ?_⟩, rfl⟩
        have hlead := lead_unique (path_stands hp r) hy
        cases y with
        | literal l => exact absurd hy (hnone l r')
        | operator op => cases hlead
        | fallback => cases hlead
        | path q => exact ⟨rfl, (Reference.endsAt_iff_longest hp).1 hend q r' hy.proper hy.split⟩

theorem comparison_text_injective {a b : Comparison} (h : a.text = b.text) : a = b := by
  cases a <;> cases b <;> first | rfl | exact absurd h (by decide)

/-- a literal is read where one stands -/
theorem part?_of_literal_stands {l : LiteralText} (h : (Lexeme.literal l).StandsAt s rest) :
    part? s = some (.literal l.text, rest) := by
  rw [part?_of_literal (afterOperand?_eq_some_iff.2 ⟨l, h⟩), h.split]
  exact congrArg (fun t => some (Part.literal t, rest)) (Reference.take_sub_length l.text rest)

/-- **The token that is taken is read.** -/
theorem part?_of_taken (h : x.Taken s rest) : part? s = some (x.part, rest) := by
  obtain ⟨hx, hfirst⟩ := h
  cases x with
  | literal l => exact part?_of_literal_stands hx
  | operator op =>
    obtain hword | hlongest := hfirst
    · cases hword
    have hliteral := afterOperand?_eq_none hx nofun fun l r hl => (hlongest _ r hl).1
    obtain ⟨⟨op', r⟩, hop⟩ := exists_operator? op rest
    have hop' : operator? s = some (op', r) := by rw [← hop, hx.split]; rfl
    have hstands := operator_stands hop'
    have hlength : op'.text.length = op.text.length :=
      le_antisymm (hlongest _ r hstands).2 (operator?_longest hop' hx.split)
    obtain ⟨htext, hr⟩ := List.append_inj (hx.split.symm.trans hstands.split) hlength.symm
    rw [part?_of_operator hliteral hop', hr, comparison_text_injective htext]
    rfl
  | fallback =>
    obtain hword | hlongest := hfirst
    · cases hword
    have hliteral := afterOperand?_eq_none hx nofun fun l r hl => (hlongest _ r hl).1
    exact part?_of_fallback hliteral (operator?_eq_none hx nofun) (Text.after?_eq_some_iff.2 hx.split)
  | path p =>
    obtain hword | hlongest := hfirst
    · cases hword
    have hliteral := afterOperand?_eq_none hx nofun fun l r hl => (hlongest _ r hl).1
    have hend : p.endsAt rest = true := by
      refine (Reference.endsAt_iff_longest hx.proper).2 fun q r hq hs => ?_
      exact (hlongest (.path q) r ⟨hq, hx.split.trans hs, rfl⟩).2
    have hpath : Reference.takePath? s = some (p.text, rest) :=
      Reference.takePath?_eq_some_iff.2 ⟨p, hx.proper, rfl, hx.split, hend⟩
    rw [part?_of_path hliteral (operator?_eq_none hx nofun) (after?_eq_none hx nofun), hpath]
    rfl

/-- **The token that is read** is the one that is taken. -/
theorem part?_eq_some_iff {p : Part} : part? s = some (p, rest) ↔ ∃ x : Lexeme, x.Taken s rest ∧ p = x.part := by
  refine ⟨taken_of_part?, ?_⟩
  rintro ⟨x, hx, rfl⟩
  exact part?_of_taken hx

end Directive

/-! ## The tokens of a text -/

namespace Text

/-- a text is itself without the blanks at its end, and those -/
theorem exists_stripEnd (s : Text) : ∃ v : Text, (∀ c ∈ v, isBlank c = true) ∧ s = stripEnd s ++ v := by
  refine ⟨(s.reverse.takeWhile isBlank).reverse, fun c hc => List.mem_takeWhile_imp (List.mem_reverse.1 hc), ?_⟩
  rw [stripEnd, ← List.reverse_append, List.takeWhile_append_dropWhile, List.reverse_reverse]

theorem back_stripEnd (s : Text) : begins isBlank (stripEnd s).reverse = false := by
  rw [stripEnd, List.reverse_reverse]
  exact begins_dropWhile isBlank _

theorem begins_blank {v : Text} (ne : v ≠ []) (hv : ∀ c ∈ v, isBlank c = true) : begins isBlank v = true := by
  cases v with
  | nil => exact absurd rfl ne
  | cons c v => exact hv c List.mem_cons_self

/-- the blanks at the end of a text stand behind all that has none around it -/
theorem Solid.split_blanks {u t s v r : Text} (ht : Solid t) (hv : ∀ c ∈ v, isBlank c = true)
    (h : u ++ t ++ r = s ++ v) : ∃ r', s = u ++ t ++ r' ∧ r = r' ++ v := by
  rcases List.append_eq_append_iff.1 h with ⟨r', hs, hr⟩ | ⟨w, hw, hv'⟩
  · exact ⟨r', hs, hr⟩
  · cases w with
    | nil => exact ⟨[], by simpa using hw.symm, by simpa using hv'.symm⟩
    | cons c w =>
      -- else one of the blanks is the last character
      have hback : begins isBlank (u ++ t).reverse = false := by
        rw [List.reverse_append, begins_append (by simpa using ht.ne), ht.back]
      have hblank : begins isBlank (c :: w).reverse = true :=
        begins_blank (by simp) fun d hd => hv d (hv' ▸ List.mem_append_left _ (List.mem_reverse.1 hd))
      rw [hw, List.reverse_append, begins_append (by simp), hblank] at hback
      cases hback

theorem back_of_suffix {s t : Text} (h : t <:+ s) (hs : begins isBlank s.reverse = false) :
    begins isBlank t.reverse = false := by
  obtain ⟨u, rfl⟩ := h
  cases t with
  | nil => rfl
  | cons c t => rwa [List.reverse_append, begins_append (by simp)] at hs

end Text

namespace Directive

namespace Lexeme

variable {x : Lexeme} {s rest v : Text}

/-- no blank stands at the beginning or end of a token -/
theorem solid (h : x.proper = true) : Text.Solid x.text := by
  have hword {t : Text} (ne : t ≠ []) (ht : t.all (fun c => !Text.isBlank c) = true) : Text.Solid t :=
    Text.solid_of_forall ne fun c hc => by simpa using List.all_eq_true.1 ht c hc
  cases x with
  | literal l => exact Literal.solid_text h
  | operator op => cases op <;> exact hword (by decide) (by decide)
  | fallback => exact hword (by decide) (by decide)
  | path p => exact Reference.solid_path h

theorem allows_append (hv : ∀ c ∈ v, Text.isBlank c = true) : x.allows (rest ++ v) = x.allows rest := by
  cases rest with
  | cons c rest => cases x with
    | literal l => cases l <;> rfl
    | _ => rfl
  | nil =>
    cases v with
    | nil => rfl
    | cons c v =>
      have hc := hv c List.mem_cons_self
      have hword := Text.isWord_of_isBlank hc
      have hpoint : c ≠ '.' := by
        rintro rfl
        exact absurd hc (by decide)
      cases x with
      | literal l => cases l <;> simp [allows, Literal.atWordEnd, atNumberEnd, hword, hpoint]
      | _ => rfl

theorem standsAt_append (hv : ∀ c ∈ v, Text.isBlank c = true) :
    x.StandsAt (s ++ v) (rest ++ v) ↔ x.StandsAt s rest := by
  constructor
  · rintro ⟨hx, hs, hallows⟩
    rw [← List.append_assoc] at hs
    exact ⟨hx, List.append_cancel_right hs, (allows_append hv).symm.trans hallows⟩
  · rintro ⟨hx, rfl, hallows⟩
    exact ⟨hx, List.append_assoc .., (allows_append hv).trans hallows⟩

/-- blanks at the end of a text change nothing about the token that is taken -/
theorem taken_append (hv : ∀ c ∈ v, Text.isBlank c = true) : x.Taken (s ++ v) (rest ++ v) ↔ x.Taken s rest := by
  constructor
  · rintro ⟨hx, hfirst⟩
    refine ⟨(standsAt_append hv).1 hx, hfirst.imp_right fun h y r hy => ?_⟩
    exact h y (r ++ v) ((standsAt_append hv).2 hy)
  · rintro ⟨hx, hfirst⟩
    refine ⟨(standsAt_append hv).2 hx, hfirst.imp_right fun h y r hy => ?_⟩
    obtain ⟨r', -, rfl⟩ := (solid hy.proper).split_blanks (u := []) hv hy.split.symm
    exact h y r' ((standsAt_append hv).1 hy)

end Lexeme

variable {s v : Text} {xs : List Lexeme}

theorem tokens_append (hv : ∀ c ∈ v, Text.isBlank c = true) : Tokens (s ++ v) xs ↔ Tokens s xs := by
  constructor
  · intro h
    generalize hs : s ++ v = t at h
    induction h generalizing s with
    | done blank => exact .done fun c hc => blank c (hs ▸ List.mem_append_left v hc)
    | token blank taken more ih =>
      have hsolid := Lexeme.solid taken.stands.proper
      have hsplit := taken.stands.split
      rw [hsplit, ← List.append_assoc] at hs
      obtain ⟨r, rfl, rfl⟩ := hsolid.split_blanks hv hs.symm
      rw [List.append_assoc]
      refine .token blank ?_ (ih rfl)
      rw [hsplit, ← List.append_assoc] at taken
      exact (Lexeme.taken_append hv).1 taken
  · intro h
    induction h with
    | done blank => exact .done (List.forall_mem_append.2 ⟨blank, hv⟩)
    | token blank taken more ih =>
      rw [List.append_assoc]
      exact .token blank ((Lexeme.taken_append hv).2 taken) ih

/-- the first token stands behind the first blanks -/
theorem tokens_iff (hne : s ≠ []) (hback : Text.begins Text.isBlank s.reverse = false) :
    Tokens s xs ↔ ∃ x rest ys, xs = x :: ys ∧ x.Taken (s.dropWhile Text.isBlank) rest ∧ Tokens rest ys := by
  constructor
  · intro h
    cases h with
    | done blank =>
      rw [Text.begins_blank (by simpa using hne) fun c hc => blank c (List.mem_reverse.1 hc)] at hback
      cases hback
    | token blank taken more =>
      rename_i u t rest x ys
      refine ⟨x, rest, ys, rfl, ?_, more⟩
      have hsolid := Lexeme.solid taken.stands.proper
      have hfront : Text.begins Text.isBlank t = false := by
        rw [taken.stands.split, Text.begins_append hsolid.ne, hsolid.front]
      rwa [(Text.span_run blank hfront).2]
  · rintro ⟨x, rest, ys, rfl, taken, more⟩
    rw [← List.takeWhile_append_dropWhile (p := Text.isBlank) (l := s)]
    exact .token (fun c hc => List.mem_takeWhile_imp hc) taken more

theorem tokens_nil : Tokens [] xs ↔ xs = [] := by
  constructor
  · intro h
    generalize hs : ([] : Text) = t at h
    cases h with
    | done blank => rfl
    | token blank taken more =>
      have hne := (Lexeme.solid taken.stands.proper).ne
      rw [taken.stands.split] at hs
      simp [hne] at hs
  · rintro rfl
    exact .done nofun

theorem partsUpTo_eq_ok_iff {n : Nat} {ps : List Part} (hlen : s.length ≤ n)
    (hback : Text.begins Text.isBlank s.reverse = false) :
    partsUpTo n s = .ok ps ↔ ∃ xs, Tokens s xs ∧ ps = xs.map Lexeme.part := by
  induction n generalizing s ps with
  | zero =>
    rw [List.eq_nil_of_length_eq_zero (Nat.le_zero.1 hlen)]
    simp only [tokens_nil, exists_eq_left, List.map_nil]
    exact ⟨fun h => (Except.ok.inj h).symm, fun h => h ▸ rfl⟩
  | succ n ih =>
    cases s with
    | nil =>
      simp only [tokens_nil, exists_eq_left, List.map_nil]
      exact ⟨fun h => (Except.ok.inj h).symm, fun h => h ▸ rfl⟩
    | cons c cs =>
      have hrest {x : Lexeme} {rest : Text} (hx : x.Taken ((c :: cs).dropWhile Text.isBlank) rest) :
          rest.length ≤ n ∧ Text.begins Text.isBlank rest.reverse = false := by
        have hdrop : (c :: cs).dropWhile Text.isBlank <:+ c :: cs := List.dropWhile_suffix _
        have hsuffix : rest <:+ (c :: cs).dropWhile Text.isBlank := ⟨x.text, hx.stands.split.symm⟩
        refine ⟨?_, Text.back_of_suffix (hsuffix.trans hdrop) hback⟩
        have hne := List.length_pos_of_ne_nil (Lexeme.solid hx.stands.proper).ne
        have hlength := congrArg List.length hx.stands.split
        have := hdrop.length_le
        simp only [List.length_append] at hlength
        omega
      rw [partsUpTo_cons]
      constructor
      · intro h
        cases hpart : part? ((c :: cs).dropWhile Text.isBlank) with
        | none =>
          rw [hpart] at h
          cases h
        | some q =>
          obtain ⟨p, rest⟩ := q
          simp only [hpart, map_eq_ok] at h
          obtain ⟨qs, hqs, rfl⟩ := h
          obtain ⟨x, hx, rfl⟩ := part?_eq_some_iff.1 hpart
          obtain ⟨ys, hys, rfl⟩ := (ih (hrest hx).1 (hrest hx).2).1 hqs
          exact ⟨x :: ys, (tokens_iff (List.cons_ne_nil c cs) hback).2 ⟨x, rest, ys, rfl, hx, hys⟩, rfl⟩
      · rintro ⟨xs, hxs, rfl⟩
        obtain ⟨x, rest, ys, rfl, hx, hys⟩ := (tokens_iff (List.cons_ne_nil c cs) hback).1 hxs
        have hqs := (ih (hrest hx).1 (hrest hx).2).2 ⟨ys, hys, rfl⟩
        simp only [part?_of_taken hx, hqs]
        rfl

/-- a text that is not tokens is an invalid condition -/
theorem partsUpTo_eq_error {n : Nat} {cause : Cause} (h : partsUpTo n s = .error cause) :
    ∃ t, cause = .invalidCondition t := by
  induction n generalizing s with
  | zero =>
    cases s with
    | nil => cases h
    | cons c cs =>
      cases h
      exact ⟨_, rfl⟩
  | succ n ih =>
    cases s with
    | nil => cases h
    | cons c cs =>
      rw [partsUpTo_cons] at h
      split at h
      · cases h
        exact ⟨_, rfl⟩
      · rename_i p rest hpart
        cases hmore : partsUpTo n rest with
        | ok ps =>
          rw [hmore] at h
          cases h
        | error e =>
          rw [hmore] at h
          cases h
          exact ih hmore

/-- **The tokens that are read** are those that are taken, and they are the whole text. -/
theorem parts_eq_ok_iff {ps : List Part} : parts s = .ok ps ↔ ∃ xs, Tokens s xs ∧ ps = xs.map Lexeme.part := by
  obtain ⟨v, hv, hs⟩ := Text.exists_stripEnd s
  have htokens (xs : List Lexeme) : Tokens s xs ↔ Tokens (Text.stripEnd s) xs := by
    conv_lhs => rw [hs]
    exact tokens_append hv
  rw [parts, partsUpTo_eq_ok_iff le_rfl (Text.back_stripEnd s)]
  simp only [htokens]

end Directive

end Stencil
