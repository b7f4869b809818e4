/-
TEXTS THAT HAVE A VALUE. Whether a text is one literal is told by the grammar of literals. Its value is read in steps of
their own: the words first, then the marks at the two ends of the text, then digits. The two agree but for texts between
two marks that hold the mark inside: no literal ends behind them, and the reader of values does not look inside.

- `inMarks_iff`, `isDecimal_iff`: the steps of the reader, as literals are written.
- `parse_cases`: what the reader comes to.
- `parse_ok_iff`: which texts have a value, and how the others are refused.
- `value_without_literal`: a text that has a value and is no literal.
-/
import Stencil.Proofs.Reserved

namespace Stencil.Literal

open LiteralText

variable {s source : Text}

/-- a text between two of the marks holds the same mark inside -/
def MarkInside (s : Text) : Prop :=
  ∃ mark inner, (mark = '"' ∨ mark = '\'') ∧ s = mark :: (inner ++ [mark]) ∧ mark ∈ inner

/-- the refusal of a text that is no literal -/
def notLiteral (s : Text) : Refusal := .fault (.of (.invalidLiteral s) s)

/-! ## The steps of the reader -/

theorem inMarks_iff : inMarks s = true ↔
    ∃ mark inner, (mark = '"' ∨ mark = '\'') ∧ s = mark :: (inner ++ [mark]) := by
  constructor
  · intro h
    rw [inMarks, Bool.and_eq_true, Bool.and_eq_true, decide_eq_true_iff, Bool.or_eq_true] at h
    obtain ⟨⟨hlength, hends⟩, hmark⟩ := h
    cases s with
    | nil => simp at hlength
    | cons mark s =>
      cases s with
      | nil => simp at hlength
      | cons c cs =>
        have hlast : mark :: c :: cs = mark :: ((c :: cs).dropLast ++ [(c :: cs).getLast (List.cons_ne_nil c cs)]) := by
          rw [List.dropLast_append_getLast]
        rw [hlast, ← List.cons_append, List.getLast?_concat, List.cons_append, List.head?_cons, Option.some_beq_some,
          beq_iff_eq] at hends
        rw [← hends] at hlast
        exact ⟨mark, _, by simpa using hmark, hlast⟩
  · rintro ⟨mark, inner, hmark, rfl⟩
    exact inMarks_quoted hmark inner

/-- the text is digits, a point and digits, for the reader of literals -/
def isDecimal (s : Text) : Bool :=
  areDigits (s.takeWhile (· != '.')) && areDigits ((s.dropWhile (· != '.')).drop 1)

theorem isDecimal_iff : isDecimal s = true ↔
    ∃ whole fraction, areDigits whole = true ∧ areDigits fraction = true ∧ s = whole ++ '.' :: fraction := by
  constructor
  · intro h
    rw [isDecimal, Bool.and_eq_true] at h
    obtain ⟨hwhole, hfraction⟩ := h
    have hsplit := List.takeWhile_append_dropWhile (p := (· != '.')) (l := s)
    cases hrest : s.dropWhile (· != '.') with
    | nil => rw [hrest] at hfraction; cases hfraction
    | cons c fraction =>
      have hc : c = '.' := by
        have hhead := List.head?_dropWhile_not (· != '.') s
        simpa [hrest] using hhead
      rw [hrest, hc] at hsplit
      rw [hrest] at hfraction
      exact ⟨_, fraction, hwhole, hfraction, hsplit.symm⟩
  · rintro ⟨whole, fraction, hwhole, hfraction, rfl⟩
    have hpoint : ∀ c ∈ whole, (c != '.') = true :=
      fun c hc => bne_iff_ne.2 (isDigit_apart (digits_of_areDigits hwhole c hc)).2.1
    obtain ⟨htake, hdrop⟩ := Text.span_run hpoint (show Text.begins (· != '.') ('.' :: fraction) = false from rfl)
    rw [isDecimal, htake, hdrop, List.drop_one, List.tail_cons, hwhole, hfraction]
    rfl

/-! ## Which texts have a value -/

/-- a literal has a value if no number in it is too long -/
theorem parse_of_isLiteral (h : isLiteral source = true) (hshort : ¬LongNumber source) : ∃ v, parse source = .ok v := by
  obtain ⟨l, hproper, hsource⟩ := isLiteral_iff.1 h
  have hread : l.short = true := by
    by_contra hlong
    have hnumber : LongNumber l.text := Reference.longNumber_of_not_short hproper (by simpa using hlong)
    exact hshort ((hsource ▸ hnumber).mono (Text.isInfix_strip source))
  have hstrip : Text.strip l.text = l.text := by
    simpa using (solid_text hproper).strip (u := []) (v := []) (by simp) (by simp)
  have hparse : parse source = parse l.text := by rw [parse, parse, hsource, hstrip]
  exact ⟨l.value, by rw [hparse, parse_text hproper, if_pos hread]⟩

/-- a text between marks has what stands between them for its value, whatever that is -/
theorem parse_of_marks {mark : Char} {inner : Text} (hmark : mark = '"' ∨ mark = '\'')
    (h : Text.strip source = mark :: (inner ++ [mark])) : parse source = .ok (.text inner) := by
  have hwords : words.find? (fun w => w.1 == mark :: (inner ++ [mark])) = none := by
    refine find?_words_eq_none ?_
    rcases hmark with rfl | rfl <;> rfl
  have hmarks : inMarks (mark :: (inner ++ [mark])) = true := inMarks_quoted hmark inner
  rw [inMarks] at hmarks
  rw [parse]
  simp only [h, hwords, hmarks, if_true]
  rw [List.drop_one, List.tail_cons, List.dropLast_concat]

/-- a text that is none of the words, has no marks at its ends, and is no number is refused -/
theorem parse_of_none (hwords : words.find? (fun w => w.1 == Text.strip source) = none)
    (hmarks : inMarks (Text.strip source) = false) (hdigits : areDigits (unsigned (Text.strip source)).2 = false)
    (hdecimal : isDecimal (unsigned (Text.strip source)).2 = false) :
    parse source = .error (notLiteral (Text.strip source)) := by
  rw [inMarks] at hmarks
  rw [isDecimal] at hdecimal
  unfold parse
  simp only [hwords, hmarks, hdigits, hdecimal, Bool.false_eq_true, if_false]
  rfl

/-- **What the reader comes to**: a literal, a text with a mark inside its marks, or a refusal. -/
theorem parse_cases (source : Text) : isLiteral source = true ∨ MarkInside (Text.strip source) ∨
    parse source = .error (notLiteral (Text.strip source)) := by
  have hsign := eq_sign_unsigned (Text.strip source)
  cases hwords : words.find? (fun w => w.1 == Text.strip source) with
  | some w =>
    have hnames : ∀ w ∈ words, ∃ l : LiteralText, l.proper = true ∧ w.1 = l.text := by
      simp only [words, List.forall_mem_cons]
      exact ⟨⟨.bool true, rfl, rfl⟩, ⟨.bool false, rfl, rfl⟩, ⟨.null, rfl, rfl⟩, nofun⟩
    obtain ⟨l, hl, hw⟩ := hnames w (List.mem_of_find?_eq_some hwords)
    have hfound : w.1 = Text.strip source := by simpa using List.find?_some hwords
    exact .inl (isLiteral_iff.2 ⟨l, hl, hfound.symm.trans hw⟩)
  | none =>
    by_cases hmarks : inMarks (Text.strip source) = true
    · obtain ⟨mark, inner, hmark, hsource⟩ := inMarks_iff.1 hmarks
      by_cases hinside : mark ∈ inner
      · exact .inr (.inl ⟨mark, inner, hmark, hsource, hinside⟩)
      · refine .inl (isLiteral_iff.2 ⟨.quoted mark inner, ?_, hsource⟩)
        have hapart : ∀ c ∈ inner, c ≠ mark := fun c hc heq => hinside (heq ▸ hc)
        simpa [proper, hmark] using hapart
    by_cases hdigits : areDigits (unsigned (Text.strip source)).2 = true
    · refine .inl (isLiteral_iff.2
        ⟨.number (unsigned (Text.strip source)).1 (unsigned (Text.strip source)).2 none, ?_, ?_⟩)
      · simpa [proper] using hdigits
      · simpa [LiteralText.text, fractionText] using hsign
    by_cases hdecimal : isDecimal (unsigned (Text.strip source)).2 = true
    · obtain ⟨whole, fraction, hwhole, hfraction, hsplit⟩ := isDecimal_iff.1 hdecimal
      refine .inl (isLiteral_iff.2 ⟨.number (unsigned (Text.strip source)).1 whole (some fraction), ?_, ?_⟩)
      · simp [proper, hwhole, hfraction]
      · rw [hsplit] at hsign
        exact hsign
    exact .inr (.inr (parse_of_none hwords (by simpa using hmarks) (by simpa using hdigits) (by simpa using hdecimal)))

/-- no literal has its mark inside -/
theorem not_markInside (h : isLiteral source = true) : ¬MarkInside (Text.strip source) := by
  rintro ⟨mark, inner, hmark, hsource, hinside⟩
  obtain ⟨l, hproper, htext⟩ := isLiteral_iff.1 h
  rw [hsource] at htext
  have hmarks : inMarks l.text = true := htext ▸ inMarks_quoted hmark inner
  cases l with
  | null => cases hmarks
  | bool b => cases b <;> cases hmarks
  | quoted mark' s =>
    rw [LiteralText.text, List.cons.injEq] at htext
    obtain ⟨rfl, htext⟩ := htext
    rw [proper, Bool.and_eq_true, List.all_eq_true] at hproper
    rw [(List.append_inj' htext rfl).1] at hinside
    exact absurd (hproper.2 mark hinside) (by simp)
  | number negative whole fraction =>
    have hbegins := begins_number hproper []
    rw [List.append_nil] at hbegins
    rw [inMarks_number hbegins] at hmarks
    cases hmarks

/-- **Texts with a value.** A text without long numbers has a value exactly if it is one literal, or stands between two
of the marks and has the mark inside; so the texts of the second kind, which are no literals, are all that the two
readings differ in. Every other text is refused as malformed, with its own text. -/
theorem parse_ok_iff (hshort : ¬LongNumber source) :
    ((∃ v, parse source = .ok v) ↔ isLiteral source = true ∨ MarkInside (Text.strip source)) ∧
    (isLiteral source = true → ¬MarkInside (Text.strip source)) ∧
    ((∀ v, parse source ≠ .ok v) → parse source = .error (notLiteral (Text.strip source)) ∧
      (Cause.invalidLiteral (Text.strip source)).kind = .malformed) := by
  refine ⟨⟨?_, ?_⟩, not_markInside, ?_⟩
  · rintro ⟨v, hv⟩
    rcases parse_cases source with h | h | h
    · exact .inl h
    · exact .inr h
    · rw [hv] at h
      cases h
  · rintro (h | ⟨mark, inner, hmark, hsource, -⟩)
    · exact parse_of_isLiteral h hshort
    · exact ⟨_, parse_of_marks hmark hsource⟩
  · intro hnone
    refine ⟨?_, rfl⟩
    rcases parse_cases source with h | ⟨mark, inner, hmark, hsource, -⟩ | h
    · obtain ⟨v, hv⟩ := parse_of_isLiteral h hshort
      exact absurd hv (hnone v)
    · exact absurd (parse_of_marks hmark hsource) (hnone _)
    · exact h

/-- a text in marks with the other mark inside, with blanks around it -/
theorem value_of_apostrophes :
    ¬LongNumber " 'say \"so\"' " ∧ isLiteral " 'say \"so\"' " = true ∧ ∃ v, parse " 'say \"so\"' " = .ok v := by
  have hshort : ¬LongNumber " 'say \"so\"' " := not_longNumber_of_length (by decide)
  have hliteral : isLiteral " 'say \"so\"' " = true := by decide
  exact ⟨hshort, hliteral, (parse_ok_iff hshort).1.2 (.inl hliteral)⟩

/-- a text in marks with one of them inside: it has a value and is no literal -/
theorem value_without_literal :
    ¬LongNumber "\"a\"b\"" ∧ isLiteral "\"a\"b\"" = false ∧ parse "\"a\"b\"" = .ok (.text "a\"b") := by
  refine ⟨not_longNumber_of_length (by decide), by decide, ?_⟩
  exact parse_of_marks (.inl rfl) (show Text.strip "\"a\"b\"" = '"' :: ("a\"b".toList ++ ['"']) by decide)

end Stencil.Literal
