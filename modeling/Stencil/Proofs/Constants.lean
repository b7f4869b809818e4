/-
WRITTEN LITERALS. A literal has one value and may be written in more than one way: either mark may stand around a text,
and a number may have zeros in front, a sign of its own and digits of any script.

- `LiteralText`: a literal as it is written, `proper` if it can be read, with its `text` and its `value`.
- `Literal.after?_eq_some_iff`: a text begins with a literal exactly if it begins with the text of a proper one that
  ends where the rest begins.
- `Literal.isLiteral_iff`, `Literal.parse_text`: which texts are one literal, and the value of each.
-/
import Stencil.Proofs.Refusals

namespace Stencil

/-! ## Runs of characters -/

namespace Text

/-- the text begins with a character of the class -/
def begins (p : Char → Bool) (s : Text) : Bool := s.head?.any p

@[simp] theorem begins_nil (p : Char → Bool) : begins p [] = false := rfl

@[simp] theorem begins_cons (p : Char → Bool) (c : Char) (s : Text) : begins p (c :: s) = p c := rfl

theorem begins_append {p : Char → Bool} {s t : Text} (ne : s ≠ []) : begins p (s ++ t) = begins p s := by
  cases s with
  | nil => exact absurd rfl ne
  | cons c s => rfl

/-- a text begins with a character of one class only, if no character is of both -/
theorem begins_apart {p q : Char → Bool} {s : Text} (h : ∀ c, p c = true → q c = false) (hs : begins p s = true) :
    begins q s = false := by
  cases s with
  | nil => rfl
  | cons c s => exact h c hs

theorem begins_mono {p q : Char → Bool} {s : Text} (h : ∀ c, p c = true → q c = true) (hs : begins p s = true) :
    begins q s = true := by
  cases s with
  | nil => cases hs
  | cons c s => exact h c hs

theorem begins_anti {p q : Char → Bool} {s : Text} (h : ∀ c, p c = true → q c = true) (hs : begins q s = false) :
    begins p s = false := by
  cases hp : begins p s with
  | false => rfl
  | true => rw [begins_mono h hp] at hs; cases hs

theorem begins_dropWhile (p : Char → Bool) (s : Text) : begins p (s.dropWhile p) = false := by
  induction s with
  | nil => rfl
  | cons c s ih =>
    cases hc : p c with
    | true => rw [List.dropWhile_cons_of_pos hc, ih]
    | false => rw [List.dropWhile_cons_of_neg (by simp [hc]), begins_cons, hc]

/-- a run of characters of a class ends where another character stands -/
theorem span_run {p : Char → Bool} {a rest : Text} (ha : ∀ c ∈ a, p c = true) (hr : begins p rest = false) :
    (a ++ rest).takeWhile p = a ∧ (a ++ rest).dropWhile p = rest := by
  rw [List.takeWhile_append_of_pos ha, List.dropWhile_append_of_pos ha]
  cases rest with
  | nil => simp
  | cons c rest =>
    rw [begins_cons] at hr
    simp [hr]

/-- a character of one class, then any number of another -/
def isRun (first more : Char → Bool) : Text → Bool
  | c :: cs => first c && cs.all more
  | [] => false

/-- the run that a text begins with, and the rest -/
def run? (first more : Char → Bool) : Text → Option (Text × Text)
  | c :: cs => if first c then some (c :: cs.takeWhile more, cs.dropWhile more) else none
  | [] => none

/-- **A run is read up to the first character that does not continue it.** -/
theorem run?_eq_some_iff {first more : Char → Bool} {s n rest : Text} :
    run? first more s = some (n, rest) ↔ isRun first more n = true ∧ s = n ++ rest ∧ begins more rest = false := by
  constructor
  · intro h
    cases s with
    | nil => cases h
    | cons c cs =>
      rw [run?] at h
      split at h
      · rename_i hc
        cases h
        have hall : (cs.takeWhile more).all more = true :=
          List.all_eq_true.2 fun d hd => List.mem_takeWhile_imp hd
        exact ⟨by simp only [isRun, hc, hall, Bool.and_self], by simp, begins_dropWhile more cs⟩
      · cases h
  · rintro ⟨hn, rfl, hrest⟩
    cases n with
    | nil => cases hn
    | cons c cs =>
      rw [isRun, Bool.and_eq_true, List.all_eq_true] at hn
      obtain ⟨htake, hdrop⟩ := span_run hn.2 hrest
      rw [List.cons_append, run?, if_pos hn.1, htake, hdrop]

theorem begins_of_isRun {first more : Char → Bool} {n rest : Text} (h : isRun first more n = true) :
    begins first (n ++ rest) = true := by
  cases n with
  | nil => cases h
  | cons c cs =>
    rw [isRun, Bool.and_eq_true] at h
    exact h.1

/-- no blank is a digit of a script -/
theorem isDigit_of_isBlank {c : Char} (h : isBlank c = true) : isDigit c = false := by
  have hapart : ∀ z ∈ digitZeros, z + 9 < 0x85 ∨ (0xA0 < z ∧ z + 9 < 0x1680) ∨ (0x1680 < z ∧ z + 9 < 0x2000) ∨
      (0x205F < z ∧ z + 9 < 0x3000) ∨ 0x3000 < z := by decide
  simp only [isBlank, Bool.or_eq_true, Bool.and_eq_true, decide_eq_true_eq, beq_iff_eq] at h
  unfold isDigit digitValue?
  dsimp only
  split
  · have hno : ¬(48 ≤ c.toNat ∧ c.toNat ≤ 57) := by omega
    simp only [Bool.and_eq_true, decide_eq_true_eq, if_neg hno, Option.isSome_none]
  · have hnone : digitZeros.find? (fun z => z ≤ c.toNat && c.toNat ≤ z + 9) = none := by
      rw [List.find?_eq_none]
      intro z hz
      have := hapart z hz
      simp only [Bool.and_eq_true, decide_eq_true_eq]
      omega
    rw [hnone]
    rfl

theorem isBlank_of_isDigit {c : Char} (h : isDigit c = true) : isBlank c = false := by
  cases hc : isBlank c with
  | false => rfl
  | true => simp [isDigit_of_isBlank hc] at h

end Text

/-! ## Texts without blanks around them -/

namespace Text

/-- the text is not empty, and no blank stands at its beginning or end -/
structure Solid (s : Text) : Prop where
  ne : s ≠ []
  front : begins isBlank s = false
  back : begins isBlank s.reverse = false

theorem solid_of_forall {s : Text} (ne : s ≠ []) (h : ∀ c ∈ s, isBlank c = false) : Solid s := by
  have hbegins : ∀ t : Text, (∀ c ∈ t, isBlank c = false) → begins isBlank t = false := by
    intro t ht
    cases t with
    | nil => rfl
    | cons c t => exact ht c List.mem_cons_self
  exact ⟨ne, hbegins s h, hbegins _ fun c hc => h c (List.mem_reverse.1 hc)⟩

theorem solid_around {c e : Char} {m : Text} (hc : isBlank c = false) (he : isBlank e = false) :
    Solid (c :: (m ++ [e])) :=
  ⟨by simp, hc, by simpa using he⟩

/-- anything may stand between two such texts -/
theorem Solid.between {s t : Text} (hs : Solid s) (m : Text) (ht : Solid t) : Solid (s ++ m ++ t) where
  ne := by simp [hs.ne]
  front := by rw [List.append_assoc, begins_append hs.ne, hs.front]
  back := by rw [List.reverse_append, begins_append (by simpa using ht.ne), ht.back]

theorem Solid.append {s t : Text} (hs : Solid s) (ht : Solid t) : Solid (s ++ t) := by
  simpa using hs.between [] ht

theorem dropWhile_of_begins {p : Char → Bool} {s : Text} (h : begins p s = false) : s.dropWhile p = s := by
  cases s with
  | nil => rfl
  | cons c s => rw [List.dropWhile_cons_of_neg (by simpa using h)]

/-- the blanks around a text are left out -/
theorem Solid.strip {u s v : Text} (hs : Solid s) (hu : ∀ c ∈ u, isBlank c = true) (hv : ∀ c ∈ v, isBlank c = true) :
    strip (u ++ s ++ v) = s := by
  have hfront : (u ++ s ++ v).dropWhile isBlank = s ++ v := by
    rw [List.append_assoc, List.dropWhile_append_of_pos hu, dropWhile_of_begins]
    rw [begins_append hs.ne, hs.front]
  rw [Text.strip, hfront, stripEnd, List.reverse_append,
    List.dropWhile_append_of_pos fun c hc => hv c (List.mem_reverse.1 hc), dropWhile_of_begins hs.back,
    List.reverse_reverse]

end Text

/-! ## Literals as they are written -/

/-- a literal as it is written -/
inductive LiteralText where
  | null
  | bool (b : Bool)
  | quoted (mark : Char) (s : Text)
  | number (negative : Bool) (whole : Text) (fraction : Option Text)
  deriving DecidableEq, Repr

namespace LiteralText

/-- the sign of a number -/
def sign (negative : Bool) : Text := if negative then ['-'] else []

/-- the fraction of a number with its point -/
def fractionText : Option Text → Text
  | some f => '.' :: f
  | none => []

/-- the literal -/
def text : LiteralText → Text
  | null => "null"
  | bool b => if b then "true" else "false"
  | quoted mark s => mark :: (s ++ [mark])
  | number negative whole fraction => sign negative ++ (whole ++ fractionText fraction)

/-- one of the two marks stands around a text that does not hold it; a number has digits in both its parts -/
def proper : LiteralText → Bool
  | null => true
  | bool _ => true
  | quoted mark s => (mark == '"' || mark == '\'') && s.all (· != mark)
  | number _ whole fraction => Literal.areDigits whole && fraction.all Literal.areDigits

/-- an integer has no more digits than are read -/
def short : LiteralText → Bool
  | number _ whole none => whole.length ≤ digitLimit
  | _ => true

/-- the value -/
def value : LiteralText → Literal
  | null => .null
  | bool b => .bool b
  | quoted _ s => .text s
  | number negative whole none =>
    let n : Int := Literal.numberOf whole
    .int (if negative then -n else n)
  | number negative whole (some f) =>
    .float (Binary64.ofDecimal negative (Literal.numberOf (whole ++ f)) (-(f.length : Int)))

/-- the literal is a number -/
def isNumber : LiteralText → Bool
  | number _ _ _ => true
  | _ => false

/-- the fraction of a number begins -/
def atFraction (s : Text) : Bool :=
  match s with
  | '.' :: cs => Text.begins Text.isDigit cs
  | _ => false

/-- the literal is no longer than it is written, where the rest follows it -/
def endsAt (rest : Text) : LiteralText → Bool
  | null => Literal.atWordEnd rest
  | bool _ => Literal.atWordEnd rest
  | quoted _ _ => true
  | number _ _ none => !Text.begins Text.isDigit rest && !atFraction rest
  | number _ _ (some _) => !Text.begins Text.isDigit rest

end LiteralText

namespace Literal

open LiteralText

variable {s rest : Text}

theorem areDigits_iff {d : Text} : areDigits d = true ↔ d ≠ [] ∧ ∀ c ∈ d, Text.isDigit c = true := by
  simp [areDigits, List.all_eq_true]

theorem areDigits_eq_isRun (d : Text) : areDigits d = Text.isRun Text.isDigit Text.isDigit d := by
  cases d with
  | nil => rfl
  | cons c cs => rfl

theorem afterDigits?_eq (s : Text) : afterDigits? s = (Text.run? Text.isDigit Text.isDigit s).map Prod.snd := by
  cases s with
  | nil => rfl
  | cons c cs =>
    rw [afterDigits?, Text.run?]
    split <;> rfl

theorem afterDigits?_eq_some_iff :
    afterDigits? s = some rest ↔ ∃ d, areDigits d = true ∧ s = d ++ rest ∧ Text.begins Text.isDigit rest = false := by
  simp only [afterDigits?_eq, Option.map_eq_some_iff, Prod.exists, exists_eq_right, Text.run?_eq_some_iff,
    areDigits_eq_isRun]

theorem afterDigits?_eq_none_iff : afterDigits? s = none ↔ Text.begins Text.isDigit s = false := by
  cases s with
  | nil => simp [afterDigits?]
  | cons c cs => simp [afterDigits?]

theorem isDigit_apart {c : Char} (h : Text.isDigit c = true) : c ≠ '-' ∧ c ≠ '.' ∧ c ≠ '"' ∧ c ≠ '\'' := by
  refine ⟨?_, ?_, ?_, ?_⟩ <;>
  · rintro rfl
    exact absurd h (by decide)

/-- a minus sign is read off a number -/
theorem unsigned_sign {negative : Bool} {d : Text} (h : areDigits d = true) (t : Text) :
    unsigned (sign negative ++ (d ++ t)) = (negative, d ++ t) := by
  cases negative with
  | true => rfl
  | false =>
    obtain ⟨hne, hd⟩ := areDigits_iff.1 h
    cases d with
    | nil => exact absurd rfl hne
    | cons c d =>
      have hc : c ≠ '-' := (isDigit_apart (hd c List.mem_cons_self)).1
      rw [sign, if_neg Bool.false_ne_true, List.nil_append, List.cons_append, unsigned]
      rintro cs h
      cases h
      exact hc rfl

theorem eq_sign_unsigned (s : Text) : s = sign (unsigned s).1 ++ (unsigned s).2 := by
  unfold unsigned
  split
  · rfl
  · rfl

/-- the rest after the fraction that follows the digits of a number -/
def afterFraction (rest : Text) : Text :=
  match rest with
  | '.' :: cs => (afterDigits? cs).getD rest
  | rest => rest

theorem afterNumber?_eq (s : Text) : afterNumber? s = (afterDigits? (unsigned s).2).map afterFraction := by
  unfold afterNumber? unsigned
  split <;> rfl

theorem atFraction_eq_false (h : ∀ cs, s ≠ '.' :: cs) : atFraction s = false := by
  unfold atFraction
  split
  · rename_i cs
    exact absurd rfl (h cs)
  · rfl

/-- behind its digits a number has its fraction, or none that could be read -/
theorem afterFraction_eq_iff {r : Text} (hr : Text.begins Text.isDigit r = false) :
    afterFraction r = rest ↔ ∃ fraction : Option Text, fraction.all areDigits = true ∧
      r = fractionText fraction ++ rest ∧ ∀ negative whole, (number negative whole fraction).endsAt rest = true := by
  constructor
  · intro h
    unfold afterFraction at h
    split at h
    · rename_i cs
      cases hcs : afterDigits? cs with
      | some r' =>
        rw [hcs, Option.getD_some] at h
        subst h
        obtain ⟨d, hd, rfl, hend⟩ := afterDigits?_eq_some_iff.1 hcs
        exact ⟨some d, hd, rfl, fun _ _ => by rw [endsAt, hend, Bool.not_false]⟩
      | none =>
        rw [hcs, Option.getD_none] at h
        subst h
        have hnone : atFraction ('.' :: cs) = false := afterDigits?_eq_none_iff.1 hcs
        exact ⟨none, rfl, rfl, fun _ _ => by rw [endsAt, hr, hnone, Bool.not_false, Bool.and_self]⟩
    · rename_i hpoint
      subst h
      have hnone : atFraction r = false := atFraction_eq_false fun cs h => hpoint cs h
      exact ⟨none, rfl, rfl, fun _ _ => by rw [endsAt, hr, hnone, Bool.not_false, Bool.and_self]⟩
  · rintro ⟨fraction, hfraction, rfl, hend⟩
    specialize hend false []
    cases fraction with
    | some f =>
      rw [endsAt, Bool.not_eq_true'] at hend
      have hdigits : afterDigits? (f ++ rest) = some rest := afterDigits?_eq_some_iff.2 ⟨f, hfraction, rfl, hend⟩
      rw [fractionText, List.cons_append, afterFraction, hdigits, Option.getD_some]
    | none =>
      rw [endsAt, Bool.and_eq_true, Bool.not_eq_true', Bool.not_eq_true'] at hend
      rw [fractionText, List.nil_append]
      unfold afterFraction
      split
      · rename_i cs
        rw [afterDigits?_eq_none_iff.2 hend.2, Option.getD_none]
      · rfl

/-- **A number is read with its sign and its fraction.** -/
theorem afterNumber?_eq_some_iff : afterNumber? s = some rest ↔ ∃ negative whole fraction,
    (number negative whole fraction).proper = true ∧ s = (number negative whole fraction).text ++ rest ∧
      (number negative whole fraction).endsAt rest = true := by
  rw [afterNumber?_eq, Option.map_eq_some_iff]
  constructor
  · rintro ⟨r, hr, hfraction⟩
    obtain ⟨whole, hwhole, hunsigned, hend⟩ := afterDigits?_eq_some_iff.1 hr
    obtain ⟨fraction, hproper, rfl, hends⟩ := (afterFraction_eq_iff hend).1 hfraction
    refine ⟨(unsigned s).1, whole, fraction, ?_, ?_, hends _ _⟩
    · rw [proper, hwhole, hproper, Bool.and_self]
    · rw [LiteralText.text, List.append_assoc, List.append_assoc, ← hunsigned]
      exact eq_sign_unsigned s
  · rintro ⟨negative, whole, fraction, hproper, rfl, hends⟩
    rw [proper, Bool.and_eq_true] at hproper
    have hbegins : Text.begins Text.isDigit (fractionText fraction ++ rest) = false := by
      cases fraction with
      | some f => rfl
      | none =>
        rw [endsAt, Bool.and_eq_true, Bool.not_eq_true'] at hends
        exact hends.1
    refine ⟨fractionText fraction ++ rest, ?_, (afterFraction_eq_iff hbegins).2 ⟨fraction, hproper.2, rfl, ?_⟩⟩
    · rw [LiteralText.text, List.append_assoc, List.append_assoc, unsigned_sign hproper.1]
      exact afterDigits?_eq_some_iff.2 ⟨whole, hproper.1, rfl, hbegins⟩
    · intro _ _
      cases fraction with
      | some f => exact hends
      | none => exact hends

theorem afterQuoted?_eq_some_iff {mark : Char} : afterQuoted? mark s = some rest ↔ ∃ b : Text,
    (∀ c ∈ b, c ≠ mark) ∧ s = mark :: (b ++ mark :: rest) := by
  constructor
  · intro h
    unfold afterQuoted? at h
    split at h
    · rename_i c cs
      split at h
      · rename_i hc
        split at h
        · rename_i q r hdrop
          cases h
          have hq : q = mark := by
            have := Text.begins_dropWhile (· != mark) cs
            rw [hdrop, Text.begins_cons] at this
            simpa using this
          refine ⟨cs.takeWhile (· != mark), fun d hd => by simpa using List.mem_takeWhile_imp hd, ?_⟩
          rw [← hq, ← hdrop, hq, List.takeWhile_append_dropWhile, beq_iff_eq.1 hc]
        · cases h
      · cases h
    · cases h
  · rintro ⟨b, hb, rfl⟩
    have hdrop : (b ++ mark :: rest).dropWhile (· != mark) = mark :: rest :=
      (Text.span_run (fun c hc => by simpa using hb c hc) (by simp)).2
    simp only [afterQuoted?, BEq.rfl, if_true, hdrop]

theorem afterQuoted?_eq_none {mark : Char} (h : Text.begins (· == mark) s = false) : afterQuoted? mark s = none := by
  cases s with
  | nil => rfl
  | cons c cs =>
    rw [Text.begins_cons] at h
    simp [afterQuoted?, h]

theorem afterWord?_eq_some_iff {word : Text} : afterWord? word s = some rest ↔
    s = word ++ rest ∧ atWordEnd rest = true := by
  rw [afterWord?, Option.filter_eq_some_iff, Text.after?_eq_some_iff]

theorem afterWord?_eq_none {word : Text} (h : ∀ t, s ≠ word ++ t) : afterWord? word s = none := by
  rw [Option.eq_none_iff_forall_ne_some]
  exact fun t ht => h t (afterWord?_eq_some_iff.1 ht).1

theorem afterKeyword?_eq_some_iff : afterKeyword? s = some rest ↔
    atWordEnd rest = true ∧ (s = LiteralText.text .null ++ rest ∨ ∃ b, s = LiteralText.text (.bool b) ++ rest) := by
  constructor
  · intro h
    obtain ⟨w, hw, h⟩ := List.exists_of_findSome?_eq_some h
    obtain ⟨rfl, hend⟩ := afterWord?_eq_some_iff.1 h
    refine ⟨hend, ?_⟩
    rw [words, List.mem_cons, List.mem_cons, List.mem_singleton] at hw
    rcases hw with rfl | rfl | rfl
    · exact .inr ⟨true, rfl⟩
    · exact .inr ⟨false, rfl⟩
    · exact .inl rfl
  · rintro ⟨hend, h⟩
    -- the other words begin with another letter than the text
    rcases h with rfl | ⟨b, rfl⟩
    · have hnull : afterWord? "null" (LiteralText.text .null ++ rest) = some rest :=
        afterWord?_eq_some_iff.2 ⟨rfl, hend⟩
      simp only [afterKeyword?, words, List.findSome?_cons, hnull]
      rw [afterWord?_eq_none (by rintro t h; cases h), afterWord?_eq_none (by rintro t h; cases h)]
    · cases b with
      | true =>
        have htrue : afterWord? "true" (LiteralText.text (.bool true) ++ rest) = some rest :=
          afterWord?_eq_some_iff.2 ⟨rfl, hend⟩
        simp only [afterKeyword?, words, List.findSome?_cons, htrue]
      | false =>
        have hfalse : afterWord? "false" (LiteralText.text (.bool false) ++ rest) = some rest :=
          afterWord?_eq_some_iff.2 ⟨rfl, hend⟩
        simp only [afterKeyword?, words, List.findSome?_cons, hfalse]
        rw [afterWord?_eq_none (by rintro t h; cases h)]

/-- with which characters a number begins -/
def atNumber (c : Char) : Bool := c == '-' || Text.isDigit c

theorem begins_number {negative : Bool} {whole : Text} {fraction : Option Text}
    (h : (number negative whole fraction).proper = true) (rest : Text) :
    Text.begins atNumber ((number negative whole fraction).text ++ rest) = true := by
  rw [proper, Bool.and_eq_true, areDigits_iff] at h
  obtain ⟨⟨hne, hdigits⟩, -⟩ := h
  cases negative with
  | true => rfl
  | false =>
    cases whole with
    | nil => exact absurd rfl hne
    | cons c cs => exact Bool.or_eq_true _ _ ▸ .inr (hdigits c List.mem_cons_self)

theorem afterNumber?_eq_none (h : Text.begins atNumber s = false) : afterNumber? s = none := by
  rw [Option.eq_none_iff_forall_ne_some]
  intro rest hrest
  obtain ⟨negative, whole, fraction, hproper, rfl, -⟩ := afterNumber?_eq_some_iff.1 hrest
  rw [begins_number hproper] at h
  cases h

/-- no number begins with a mark -/
theorem afterQuoted?_number {mark : Char} (hmark : mark = '"' ∨ mark = '\'') (h : Text.begins atNumber s = true) :
    afterQuoted? mark s = none := by
  refine afterQuoted?_eq_none (Text.begins_apart (fun c hc => ?_) h)
  rw [beq_eq_false_iff_ne]
  rintro rfl
  rcases hmark with rfl | rfl <;> exact absurd hc (by decide)

/-- no word that is a literal begins like a number or a text in marks -/
theorem first_keyword {l : LiteralText} (hl : l = .null ∨ ∃ b, l = .bool b) (P : Text → Bool) (rest : Text) :
    (afterQuoted? '"' (l.text ++ rest) <|> afterQuoted? '\'' (l.text ++ rest) <|>
      (afterNumber? (l.text ++ rest)).filter P <|> afterKeyword? (l.text ++ rest)) =
        afterKeyword? (l.text ++ rest) := by
  have hbegins : Text.begins (· == '"') (l.text ++ rest) = false ∧ Text.begins (· == '\'') (l.text ++ rest) = false ∧
      Text.begins atNumber (l.text ++ rest) = false := by
    rcases hl with rfl | ⟨b, rfl⟩
    · exact ⟨rfl, rfl, show atNumber 'n' = false by decide⟩
    · cases b with
      | true => exact ⟨rfl, rfl, show atNumber 't' = false by decide⟩
      | false => exact ⟨rfl, rfl, show atNumber 'f' = false by decide⟩
  rw [afterQuoted?_eq_none hbegins.1, afterQuoted?_eq_none hbegins.2.1, afterNumber?_eq_none hbegins.2.2]
  rfl

/-- **Literals of the four kinds** are read by the first reader that can: no other can. What follows a number may be
asked for more. -/
theorem first_eq_some_iff (P : Text → Bool) :
    (afterQuoted? '"' s <|> afterQuoted? '\'' s <|> (afterNumber? s).filter P <|> afterKeyword? s) = some rest ↔
      ∃ l : LiteralText, l.proper = true ∧ s = l.text ++ rest ∧ l.endsAt rest = true ∧
        (l.isNumber = true → P rest = true) := by
  constructor
  · intro h
    rcases of_orElse h with h | h
    · obtain ⟨b, hb, rfl⟩ := afterQuoted?_eq_some_iff.1 h
      exact ⟨.quoted '"' b, by simpa [proper] using hb, by simp [LiteralText.text], rfl, nofun⟩
    rcases of_orElse h with h | h
    · obtain ⟨b, hb, rfl⟩ := afterQuoted?_eq_some_iff.1 h
      exact ⟨.quoted '\'' b, by simpa [proper] using hb, by simp [LiteralText.text], rfl, nofun⟩
    rcases of_orElse h with h | h
    · obtain ⟨h, hP⟩ := Option.filter_eq_some_iff.1 h
      obtain ⟨negative, whole, fraction, hl, hs, hend⟩ := afterNumber?_eq_some_iff.1 h
      exact ⟨.number negative whole fraction, hl, hs, hend, fun _ => hP⟩
    · obtain ⟨hend, rfl | ⟨b, rfl⟩⟩ := afterKeyword?_eq_some_iff.1 h
      · exact ⟨.null, rfl, rfl, hend, nofun⟩
      · exact ⟨.bool b, rfl, rfl, hend, nofun⟩
  · rintro ⟨l, hl, rfl, hend, hP⟩
    cases l with
    | null => exact (first_keyword (.inl rfl) P rest).trans (afterKeyword?_eq_some_iff.2 ⟨hend, .inl rfl⟩)
    | bool b => exact (first_keyword (.inr ⟨b, rfl⟩) P rest).trans (afterKeyword?_eq_some_iff.2 ⟨hend, .inr ⟨b, rfl⟩⟩)
    | number negative whole fraction =>
      have hbegins := begins_number hl rest
      have hnumber := afterNumber?_eq_some_iff.2 ⟨negative, whole, fraction, hl, rfl, hend⟩
      rw [afterQuoted?_number (.inl rfl) hbegins, afterQuoted?_number (.inr rfl) hbegins, hnumber,
        Option.filter_some, if_pos (hP rfl)]
      rfl
    | quoted mark s =>
      rw [proper, Bool.and_eq_true, Bool.or_eq_true, beq_iff_eq, beq_iff_eq, List.all_eq_true] at hl
      have hquoted : afterQuoted? mark ((LiteralText.quoted mark s).text ++ rest) = some rest :=
        afterQuoted?_eq_some_iff.2 ⟨s, fun c hc => by simpa using hl.2 c hc, by simp [LiteralText.text]⟩
      rcases hl.1 with rfl | rfl
      · rw [hquoted]
        rfl
      · rw [afterQuoted?_eq_none rfl, hquoted]
        rfl

/-- **A text begins with a literal** exactly if it is the text of a proper one and a rest before which that one ends. -/
theorem after?_eq_some_iff : after? s = some rest ↔ ∃ l : LiteralText,
    l.proper = true ∧ s = l.text ++ rest ∧ l.endsAt rest = true := by
  have hfilter : (afterNumber? s).filter (fun _ => true) = afterNumber? s := by cases afterNumber? s <;> rfl
  have h := @first_eq_some_iff s rest fun _ => true
  rw [hfilter] at h
  unfold after?
  simpa only [implies_true, and_true] using h

theorem endsAt_nil (l : LiteralText) : l.endsAt [] = true := by
  cases l with
  | number _ _ fraction => cases fraction <;> rfl
  | _ => rfl

theorem isLiteral_iff : isLiteral s = true ↔ ∃ l : LiteralText, l.proper = true ∧ Text.strip s = l.text := by
  simp [isLiteral, after?_eq_some_iff, endsAt_nil]

theorem isBlank_of_mem_number {negative : Bool} {whole : Text} {fraction : Option Text}
    (h : (number negative whole fraction).proper = true) :
    ∀ c ∈ (number negative whole fraction).text, Text.isBlank c = false := by
  rw [proper, Bool.and_eq_true, areDigits_iff] at h
  have hdigits {d : Text} (hd : areDigits d = true) : ∀ c ∈ d, Text.isBlank c = false :=
    fun c hc => Text.isBlank_of_isDigit (digits_of_areDigits hd c hc)
  have hsign : ∀ c ∈ sign negative, Text.isBlank c = false := by
    cases negative <;> simp [sign, show Text.isBlank '-' = false by decide]
  have hfraction : ∀ c ∈ fractionText fraction, Text.isBlank c = false := by
    cases fraction with
    | none => simp [fractionText]
    | some f => exact List.forall_mem_cons.2 ⟨by decide, hdigits h.2⟩
  rw [LiteralText.text, List.forall_mem_append, List.forall_mem_append]
  exact ⟨hsign, fun c hc => Text.isBlank_of_isDigit (h.1.2 c hc), hfraction⟩

/-- no blank stands at the beginning or end of a literal -/
theorem solid_text {l : LiteralText} (h : l.proper = true) : Text.Solid l.text := by
  have hword {t : Text} (ne : t ≠ []) (ht : t.all Text.isNameChar = true) : Text.Solid t :=
    Text.solid_of_forall ne fun c hc => Text.isBlank_of_isNameChar (List.all_eq_true.1 ht c hc)
  cases l with
  | null => exact hword (by simp [LiteralText.text]) rfl
  | bool b => cases b <;> exact hword (by simp [LiteralText.text]) rfl
  | quoted mark s =>
    rw [proper, Bool.and_eq_true, Bool.or_eq_true, beq_iff_eq, beq_iff_eq] at h
    rcases h.1 with rfl | rfl <;> exact Text.solid_around (by decide) (by decide)
  | number negative whole fraction =>
    refine Text.solid_of_forall (fun hnil => ?_) (isBlank_of_mem_number h)
    have hbegins := begins_number h []
    rw [hnil] at hbegins
    cases hbegins

/-- a text that begins with a mark or like a number is none of the words -/
theorem find?_words_eq_none (h : Text.begins (fun c => c == '"' || c == '\'' || atNumber c) s = true) :
    words.find? (fun w => w.1 == s) = none := by
  have hletters : ∀ w ∈ words, Text.begins (fun c => c == '"' || c == '\'' || atNumber c) w.1 = false := by decide
  rw [List.find?_eq_none]
  intro w hw heq
  rw [← beq_iff_eq.1 heq, hletters w hw] at h
  cases h

/-- a text stands between marks, for the reader of literals -/
def inMarks (s : Text) : Bool :=
  2 ≤ s.length && s.head? == s.getLast? && (s.head? == some '"' || s.head? == some '\'')

theorem inMarks_quoted {mark : Char} (hmark : mark = '"' ∨ mark = '\'') (s : Text) :
    inMarks (mark :: (s ++ [mark])) = true := by
  have hlast : (mark :: (s ++ [mark])).getLast? = some mark := by rw [← List.cons_append, List.getLast?_concat]
  rw [inMarks, hlast, List.head?_cons]
  rcases hmark with rfl | rfl <;> simp

theorem inMarks_number (h : Text.begins atNumber s = true) : inMarks s = false := by
  cases s with
  | nil => rfl
  | cons c s =>
    have hc : ∀ mark, atNumber mark = false → (some c == some mark) = false := by
      intro mark hmark
      rw [Option.some_beq_some, beq_eq_false_iff_ne]
      rintro rfl
      rw [Text.begins_cons, hmark] at h
      cases h
    rw [inMarks, List.head?_cons, hc '"' (by decide), hc '\'' (by decide), Bool.or_self, Bool.and_false]

/-- **A literal has its value**, unless it is an integer of too many digits. -/
theorem parse_text {l : LiteralText} (h : l.proper = true) :
    parse l.text = if l.short then .ok l.value else .error .digitLimit := by
  have hstrip : Text.strip l.text = l.text := by
    simpa using (solid_text h).strip (u := []) (v := []) (by simp) (by simp)
  unfold parse
  simp only [hstrip]
  cases l with
  | null => rfl
  | bool b => cases b <;> rfl
  | quoted mark s =>
    rw [proper, Bool.and_eq_true, Bool.or_eq_true, beq_iff_eq, beq_iff_eq] at h
    have hwords : words.find? (fun w => w.1 == (LiteralText.quoted mark s).text) = none := by
      refine find?_words_eq_none ?_
      rcases h.1 with rfl | rfl <;> rfl
    have hmarks : inMarks (LiteralText.quoted mark s).text = true := inMarks_quoted h.1 s
    rw [inMarks] at hmarks
    simp only [hwords, hmarks, if_true, short, value]
    rw [LiteralText.text, List.drop_one, List.tail_cons, List.dropLast_concat]
  | number negative whole fraction =>
    have hbegins := begins_number h []
    rw [List.append_nil] at hbegins
    have hwords : words.find? (fun w => w.1 == (number negative whole fraction).text) = none := by
      refine find?_words_eq_none (Text.begins_mono (fun c hc => ?_) hbegins)
      rw [hc, Bool.or_true]
    have hmarks := inMarks_number hbegins
    rw [inMarks] at hmarks
    rw [proper, Bool.and_eq_true] at h
    have hunsigned : unsigned (number negative whole fraction).text = (negative, whole ++ fractionText fraction) :=
      unsigned_sign h.1 _
    simp only [hwords, hmarks, Bool.false_eq_true, if_false, hunsigned]
    cases fraction with
    | none =>
      simp only [fractionText, List.append_nil, h.1, if_true, short, value]
      by_cases hshort : whole.length ≤ digitLimit
      · simp [hshort]
      · simp [hshort, Nat.lt_of_not_le hshort]
    | some f =>
      have hpoint : areDigits (whole ++ '.' :: f) = false := by
        simp [areDigits, show Text.isDigit '.' = false by decide]
      have hwhole : ∀ c ∈ whole, (c != '.') = true :=
        fun c hc => bne_iff_ne.2 (isDigit_apart (digits_of_areDigits h.1 c hc)).2.1
      have hend : Text.begins (· != '.') ('.' :: f) = false := rfl
      obtain ⟨htake, hdrop⟩ := Text.span_run hwhole hend
      have hf : areDigits f = true := h.2
      simp [fractionText, hpoint, htake, hdrop, h.1, hf, short, value]

end Literal

end Stencil
