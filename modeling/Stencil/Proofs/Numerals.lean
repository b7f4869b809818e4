/-
NUMBERS READ BACK. A number in code is a numeral: a sign, digits, maybe a fraction and an exponent. Reading the text of
an integer or of a finite double gives back the number, with every place that a double can have.

- `takeNumeral?_text`: the text of a numeral is read as this numeral.
- `writes_layout`: digits laid out around a point are a numeral of their value.
- `number?_ofInt`, `number?_text`: integers and doubles are read back.
-/
import Stencil.Directive.Condition
import Stencil.Document.Number
import Stencil.Proofs.Doubles

namespace Stencil

namespace Document

/-! ## Digits -/

/-- one digit or more, and nothing else -/
def Digits (s : Text) : Prop := s ≠ [] ∧ ∀ c ∈ s, isDigit c = true

/-- no digit stands at the beginning -/
def AfterDigits (s : Text) : Prop := ∀ c ∈ s.head?, isDigit c = false

@[simp] theorem afterDigits_nil : AfterDigits [] := by simp [AfterDigits]

@[simp] theorem afterDigits_cons (c : Char) (s : Text) : AfterDigits (c :: s) ↔ isDigit c = false := by
  simp [AfterDigits]

theorem Digits.append {s t : Text} (hs : Digits s) (ht : ∀ c ∈ t, isDigit c = true) : Digits (s ++ t) :=
  ⟨by simp [hs.1], List.forall_mem_append.2 ⟨hs.2, ht⟩⟩

theorem Digits.singleton {c : Char} (hc : isDigit c = true) : Digits [c] := ⟨by simp, by simpa using hc⟩

theorem isDigit_of_mem_replicate {n : Nat} {c : Char} (hc : c ∈ List.replicate n '0') : isDigit c = true := by
  rw [List.eq_of_mem_replicate hc]
  rfl

theorem digits_ofNat (n : Nat) : Digits (Text.ofNat n) :=
  ⟨Nat.toDigits_ne_nil, fun _ hc => Nat.isDigit_of_mem_toDigits (by decide) (by decide) hc⟩

theorem numberOf_eq (s : Text) : numberOf s = Nat.ofDigitChars 10 s 0 := rfl

@[simp] theorem numberOf_ofNat (n : Nat) : numberOf (Text.ofNat n) = n := Nat.ofDigitChars_ten_toDigits

theorem numberOf_append_zeros (s : Text) (n : Nat) : numberOf (s ++ List.replicate n '0') = numberOf s * 10 ^ n := by
  rw [numberOf_eq, Nat.ofDigitChars_append, Nat.ofDigitChars_replicate_zero, ← numberOf_eq, Nat.mul_comm]

theorem numberOf_zeros_append (n : Nat) (s : Text) : numberOf (List.replicate n '0' ++ s) = numberOf s := by
  rw [numberOf_eq, Nat.ofDigitChars_append, Nat.ofDigitChars_replicate_zero, Nat.mul_zero, ← numberOf_eq]

/-- a positive number does not begin with a zero -/
theorem head?_ofNat {n : Nat} (hn : 0 < n) : (Text.ofNat n).head? ≠ some '0' := by
  have hdigit : ∀ d < 10, 0 < d → Nat.digitChar d ≠ '0' := by decide
  induction n using Nat.strongRecOn with
  | ind n ih =>
    rw [Text.ofNat, Nat.toDigits_eq_if (by decide)]
    split
    · rename_i hlt
      simpa using hdigit n hlt hn
    · rw [List.head?_append_of_ne_nil _ Nat.toDigits_ne_nil]
      exact ih (n / 10) (by omega) (by omega)

theorem takeDigits?_append {s rest : Text} (hs : Digits s) (hrest : AfterDigits rest) :
    takeDigits? (s ++ rest) = some (s, rest) := by
  have htake : rest.takeWhile isDigit = [] ∧ rest.dropWhile isDigit = rest := by
    cases rest with
    | nil => simp
    | cons c cs => simp [(afterDigits_cons c cs).1 hrest]
  rw [takeDigits?, List.takeWhile_append_of_pos hs.2, List.dropWhile_append_of_pos hs.2, htake.1, htake.2,
    List.append_nil]
  simp [hs.1]

/-! ## Numerals -/

namespace Numeral

/-- a fraction as it is written -/
def fractionText : Option Text → Text
  | none => []
  | some f => '.' :: f

/-- an exponent as it is written -/
def exponentText : Option (Option Char × Text) → Text
  | none => []
  | some (sign, e) => 'e' :: (sign.toList ++ e)

/-- a numeral as it is written -/
def text (n : Numeral) : Text :=
  (if n.negative then ['-'] else []) ++ n.whole ++ fractionText n.fraction ++ exponentText n.exponent

/-- digits stand where a numeral has them, an exponent has a sign, and no zero stands before other digits -/
structure WellFormed (n : Numeral) : Prop where
  whole : Digits n.whole
  lead : n.whole.head? = some '0' → n.whole.length = 1
  fraction : ∀ f ∈ n.fraction, Digits f
  exponent : ∀ e ∈ n.exponent, (e.1 = some '+' ∨ e.1 = some '-') ∧ Digits e.2

/-- the power of ten that an exponent stands for -/
def power (n : Numeral) : Int :=
  match n.exponent with
  | none => 0
  | some (sign, e) => if sign = some '-' then -(numberOf e : Int) else numberOf e

/-- the literal that a numeral is in code: with a fraction or an exponent it is the nearest double -/
def literal (n : Numeral) : Literal :=
  if n.isWhole then .int (if n.negative then -(numberOf n.whole : Int) else numberOf n.whole)
  else
    let fraction := n.fraction.getD []
    .float (Binary64.ofDecimal n.negative (numberOf (n.whole ++ fraction)) (n.power - fraction.length))

end Numeral

/-- what no number goes on with -/
theorem not_continues {c : Char} {rest : Text} (h : Directive.atNumberEnd (c :: rest) = true) :
    isDigit c = false ∧ c ≠ '.' ∧ c ≠ 'e' ∧ c ≠ 'E' := by
  have hword : Text.isWord c = false ∧ c ≠ '.' := by simpa [Directive.atNumberEnd] using h
  refine ⟨?_, hword.2, ?_, ?_⟩
  · rw [← Bool.not_eq_true]
    intro hdigit
    have hascii : c.toNat < 128 := by
      simp only [isDigit, Char.isDigit, Bool.and_eq_true, decide_eq_true_eq] at hdigit
      have : c.toNat ≤ 57 := hdigit.2
      omega
    have hdigit : c.isDigit = true := hdigit
    simp [Text.isWord, hascii, Text.isNameChar, Char.isAlphanum, hdigit] at hword
  · rintro rfl
    exact absurd hword.1 (by decide)
  · rintro rfl
    exact absurd hword.1 (by decide)

theorem afterDigits_of_atNumberEnd {rest : Text} (h : Directive.atNumberEnd rest = true) : AfterDigits rest := by
  cases rest with
  | nil => exact afterDigits_nil
  | cons c cs => simpa using (not_continues h).1

theorem takeFraction?_append {fraction : Option Text} (hfraction : ∀ f ∈ fraction, Digits f) {rest : Text}
    (hdigits : AfterDigits rest) (hpoint : rest.head? ≠ some '.') :
    takeFraction? (Numeral.fractionText fraction ++ rest) = some (fraction, rest) := by
  cases fraction with
  | none =>
    simp only [Numeral.fractionText, List.nil_append, takeFraction?]
    split
    · simp at hpoint
    · rfl
  | some f => simp [Numeral.fractionText, takeFraction?, takeDigits?_append (hfraction f rfl) hdigits]

theorem takeExponent?_append {exponent : Option (Option Char × Text)}
    (hexponent : ∀ e ∈ exponent, (e.1 = some '+' ∨ e.1 = some '-') ∧ Digits e.2) {rest : Text}
    (hrest : Directive.atNumberEnd rest = true) :
    takeExponent? (Numeral.exponentText exponent ++ rest) = some (exponent, rest) := by
  cases exponent with
  | none =>
    cases rest with
    | nil => rfl
    | cons c cs =>
      obtain ⟨-, -, hlower, hupper⟩ := not_continues hrest
      simp [Numeral.exponentText, takeExponent?, hlower, hupper]
  | some e =>
    obtain ⟨sign, digits⟩ := e
    obtain ⟨hsign | hsign, hall⟩ := hexponent _ rfl <;> simp only at hsign hall <;> subst hsign <;>
      simp [Numeral.exponentText, takeExponent?, takeSign,
        takeDigits?_append hall (afterDigits_of_atNumberEnd hrest)]

/-- the sign of a numeral is what an unsigned text has in front -/
theorem takeNumeral?_eq (s : Text) :
    takeNumeral? s = (takeDigits? (Literal.unsigned s).2).bind fun p =>
      if p.1.head? == some '0' && p.1.length != 1 then none
      else (takeFraction? p.2).bind fun q =>
        (takeExponent? q.2).bind fun x => some (⟨(Literal.unsigned s).1, p.1, q.1, x.1⟩, x.2) := by
  rfl

theorem unsigned_text (n : Numeral) (hn : Digits n.whole) (rest : Text) :
    Literal.unsigned (n.text ++ rest) =
      (n.negative, n.whole ++ (Numeral.fractionText n.fraction ++ (Numeral.exponentText n.exponent ++ rest))) := by
  obtain ⟨negative, whole, fraction, exponent⟩ := n
  cases negative with
  | true => simp [Numeral.text, Literal.unsigned]
  | false =>
    obtain ⟨c, cs, rfl⟩ := List.exists_cons_of_ne_nil hn.1
    have hc : c ≠ '-' := by
      rintro rfl
      exact absurd (hn.2 '-' (by simp)) (by decide)
    simp [Numeral.text, Literal.unsigned, hc]

/-- **The text of a numeral** is read as this numeral. -/
theorem takeNumeral?_text {n : Numeral} (h : n.WellFormed) {rest : Text} (hrest : Directive.atNumberEnd rest = true) :
    takeNumeral? (n.text ++ rest) = some (n, rest) := by
  obtain ⟨hwhole, hlead, hfraction, hexponent⟩ := h
  have hafter : AfterDigits (Numeral.exponentText n.exponent ++ rest) ∧
      (Numeral.exponentText n.exponent ++ rest).head? ≠ some '.' := by
    cases n.exponent with
    | none =>
      refine ⟨afterDigits_of_atNumberEnd hrest, ?_⟩
      cases rest with
      | nil => simp [Numeral.exponentText]
      | cons c cs => simpa [Numeral.exponentText] using (not_continues hrest).2.1
    | some e => simp [Numeral.exponentText, isDigit]
  have hbefore : AfterDigits (Numeral.fractionText n.fraction ++ (Numeral.exponentText n.exponent ++ rest)) := by
    cases n.fraction with
    | none => exact hafter.1
    | some f => simp [Numeral.fractionText, isDigit]
  have hzeros : (n.whole.head? == some '0' && n.whole.length != 1) = false := by
    rw [Bool.and_eq_false_imp]
    intro hzero
    simpa using hlead (beq_iff_eq.1 hzero)
  rw [takeNumeral?_eq, unsigned_text n hwhole, takeDigits?_append hwhole hbefore, Option.bind_some, hzeros]
  simp only [Bool.false_eq_true, if_false, takeFraction?_append hfraction hafter.1 hafter.2, Option.bind_some,
    takeExponent?_append hexponent hrest]

/-! ## Layouts -/

namespace Numeral

/-- the numeral is written so after its sign, and it is the double nearest to digits·10^k -/
structure Writes (n : Numeral) (negative : Bool) (s : Text) (digits : Nat) (k : Int) : Prop where
  wellFormed : n.WellFormed
  text : n.text = (if negative then ['-'] else []) ++ s
  literal : n.literal = .float (Binary64.ofDecimal negative digits k)

/-- digits as a fraction, if there are any -/
def fractionOf (s : Text) : Option Text := if s.isEmpty then none else some s

theorem getD_fractionOf (s : Text) : (fractionOf s).getD [] = s := by
  cases s <;> rfl

theorem fractionText_fractionOf (s : Text) : fractionText (fractionOf s) = if s.isEmpty then [] else '.' :: s := by
  cases s <;> rfl

theorem digits_fractionOf {s : Text} (h : ∀ c ∈ s, isDigit c = true) : ∀ f ∈ fractionOf s, Digits f := by
  cases s with
  | nil => simp [fractionOf]
  | cons c cs => simpa [fractionOf, Digits] using h

/-- a power of ten as an exponent: a sign and at least two digits -/
def exponentOf (x : Int) : Option Char × Text :=
  (some (if x < 0 then '-' else '+'), List.replicate (2 - (Text.ofNat x.natAbs).length) '0' ++ Text.ofNat x.natAbs)

theorem exponentText_exponentOf (x : Int) : exponentText (some (exponentOf x)) = Binary64.exponentText x := by
  simp only [exponentText, exponentOf, Binary64.exponentText, Option.toList_some]
  split <;> simp

theorem power_exponentOf (negative : Bool) (whole : Text) (fraction : Option Text) (x : Int) :
    power ⟨negative, whole, fraction, some (exponentOf x)⟩ = x := by
  simp only [power, exponentOf, numberOf_zeros_append, numberOf_ofNat, Int.natCast_natAbs]
  by_cases hx : x < 0
  · simp [hx, abs_of_neg hx]
  · simp [hx, abs_of_nonneg (not_lt.1 hx)]

theorem wellFormed_exponentOf (x : Int) :
    ((exponentOf x).1 = some '+' ∨ (exponentOf x).1 = some '-') ∧ Digits (exponentOf x).2 := by
  refine ⟨?_, by simp [exponentOf, (digits_ofNat x.natAbs).1],
    List.forall_mem_append.2 ⟨fun _ => isDigit_of_mem_replicate, (digits_ofNat x.natAbs).2⟩⟩
  unfold exponentOf
  split <;> simp

variable {t : Text} (negative : Bool) (ht : Digits t) (hlead : t.head? ≠ some '0')

include ht

/-- all digits stand behind the point -/
theorem writes_small (zeros : Nat) :
    (⟨negative, ['0'], some (List.replicate zeros '0' ++ t), none⟩ : Numeral).Writes negative
      ('0' :: '.' :: (List.replicate zeros '0' ++ t)) (numberOf t) (-(zeros : Int) - t.length) where
  wellFormed :=
    ⟨.singleton rfl, fun _ => rfl, by
      simp only [Option.mem_some_iff, forall_eq']
      exact ⟨by simp [ht.1], List.forall_mem_append.2 ⟨fun _ => isDigit_of_mem_replicate, ht.2⟩⟩, by simp⟩
  text := by cases negative <;> simp [Numeral.text, fractionText, exponentText]
  literal := by
    have hdigits : numberOf (['0'] ++ (List.replicate zeros '0' ++ t)) = numberOf t := by
      rw [← numberOf_zeros_append (zeros + 1) t, List.replicate_succ]
      simp
    simp only [Numeral.literal, isWhole, Option.isNone_some, Bool.false_and, Bool.false_eq_true, if_false,
      Option.getD_some, hdigits, power, List.length_append, List.length_replicate]
    congr 2
    push_cast
    omega

include hlead

/-- all digits stand before the point -/
theorem writes_whole (zeros : Nat) :
    (⟨negative, t ++ List.replicate zeros '0', some ['0'], none⟩ : Numeral).Writes negative
      (t ++ List.replicate zeros '0' ++ ['.', '0']) (numberOf t) zeros where
  wellFormed :=
    ⟨ht.append fun _ => isDigit_of_mem_replicate, by simp [List.head?_append_of_ne_nil _ ht.1, hlead],
      by simpa using Digits.singleton (c := '0') rfl, by simp⟩
  text := by cases negative <;> simp [Numeral.text, fractionText, exponentText]
  literal := by
    have hdigits : numberOf (t ++ List.replicate zeros '0' ++ ['0']) = numberOf t * 10 ^ (zeros + 1) := by
      rw [← numberOf_append_zeros, List.replicate_succ']
      simp
    simp only [Numeral.literal, isWhole, Option.isNone_some, Bool.false_and, Bool.false_eq_true, if_false,
      Option.getD_some, hdigits, power, Binary64.ofDecimal_shift]
    congr 2
    push_cast
    simp

/-- the point stands between the digits -/
theorem writes_mixed {place : Nat} (hpos : 0 < place) (hplace : place < t.length) :
    (⟨negative, t.take place, some (t.drop place), none⟩ : Numeral).Writes negative
      (t.take place ++ '.' :: t.drop place) (numberOf t) (place - t.length) where
  wellFormed :=
    ⟨⟨by simp [hpos.ne', ht.1], fun c hc => ht.2 c (List.mem_of_mem_take hc)⟩,
      by simp [List.head?_take, hpos.ne', hlead],
      by simpa using ⟨by simpa using hplace, fun c hc => ht.2 c (List.mem_of_mem_drop hc)⟩, by simp⟩
  text := by cases negative <;> simp [Numeral.text, fractionText, exponentText]
  literal := by
    simp only [Numeral.literal, isWhole, Option.isNone_some, Bool.false_and, Bool.false_eq_true, if_false,
      Option.getD_some, List.take_append_drop, power, List.length_drop]
    congr 2
    omega

/-- one digit stands before the point, and the place is given by an exponent -/
theorem writes_scientific (x : Int) :
    (⟨negative, t.take 1, fractionOf (t.drop 1), some (exponentOf x)⟩ : Numeral).Writes negative
      (t.take 1 ++ (if (t.drop 1).isEmpty then [] else '.' :: t.drop 1) ++ Binary64.exponentText x) (numberOf t)
      (x - (t.length - 1 : Nat)) where
  wellFormed :=
    ⟨⟨by simp [ht.1], fun c hc => ht.2 c (List.mem_of_mem_take hc)⟩, by simp [List.head?_take, hlead],
      digits_fractionOf fun c hc => ht.2 c (List.mem_of_mem_drop hc), by simpa using wellFormed_exponentOf x⟩
  text := by simp only [Numeral.text, fractionText_fractionOf, exponentText_exponentOf, List.append_assoc]
  literal := by
    simp only [Numeral.literal, isWhole, Option.isNone_some, Bool.and_false, Bool.false_eq_true, if_false,
      getD_fractionOf, List.take_append_drop, power_exponentOf, List.length_drop]

/-- **Digits around a point** are a numeral of their value. -/
theorem writes_layout (point : Int) :
    ∃ n : Numeral, n.Writes negative (Binary64.layout t point) (numberOf t) (point - t.length) := by
  unfold Binary64.layout
  split
  · split
    · rename_i hpoint
      have hplace : point - t.length = -((-point).toNat : Int) - t.length := by omega
      rw [hplace]
      exact ⟨_, writes_small negative ht _⟩
    · split
      · have hplace : point - t.length = ((point.toNat - t.length : Nat) : Int) := by omega
        rw [hplace]
        exact ⟨_, writes_whole negative ht hlead _⟩
      · have hplace : point - t.length = (point.toNat : Int) - t.length := by omega
        rw [hplace]
        exact ⟨_, writes_mixed negative ht hlead (by omega) (by omega)⟩
  · have hplace : point - t.length = point - 1 - (t.length - 1 : Nat) := by
      have := List.length_pos_of_ne_nil ht.1
      omega
    rw [hplace]
    exact ⟨_, writes_scientific negative ht hlead (point - 1)⟩

end Numeral

end Document

/-! ## Numbers in code -/

namespace Code

open Document

/-- the number that code begins with, and the rest -/
def number? (s : Text) : Option (Literal × Text) :=
  (takeNumeral? s).bind fun p => if Directive.atNumberEnd p.2 then some (p.1.literal, p.2) else none

theorem number?_of_text {n : Numeral} (h : n.WellFormed) {rest : Text} (hrest : Directive.atNumberEnd rest = true) :
    number? (n.text ++ rest) = some (n.literal, rest) := by
  simp [number?, takeNumeral?_text h hrest, hrest]

/-- **An integer** is read back. -/
theorem number?_ofInt (n : Int) {rest : Text} (hrest : Directive.atNumberEnd rest = true) :
    number? (Text.ofInt n ++ rest) = some (.int n, rest) := by
  have hwell : (⟨decide (n < 0), Text.ofNat n.natAbs, none, none⟩ : Numeral).WellFormed := by
    refine ⟨digits_ofNat _, fun hzero => ?_, by simp, by simp⟩
    rcases Nat.eq_zero_or_pos n.natAbs with h | h
    · rw [h]
      rfl
    · exact absurd hzero (head?_ofNat h)
  have htext : Text.ofInt n = (⟨decide (n < 0), Text.ofNat n.natAbs, none, none⟩ : Numeral).text := by
    cases n with
    | ofNat n => simp [Numeral.text, Numeral.fractionText, Numeral.exponentText, Text.ofInt]
    | negSucc n => simp [Numeral.text, Numeral.fractionText, Numeral.exponentText, Text.ofInt]
  have hvalue : (⟨decide (n < 0), Text.ofNat n.natAbs, none, none⟩ : Numeral).literal = .int n := by
    by_cases hn : n < 0
    · simp [Numeral.literal, Numeral.isWhole, hn, abs_of_neg hn]
    · simp [Numeral.literal, Numeral.isWhole, hn, abs_of_nonneg (not_lt.1 hn)]
  rw [htext, number?_of_text hwell hrest, hvalue]

end Code

namespace Binary64

open Document

theorem ofDecimal_zero (negative : Bool) (k : Int) : ofDecimal negative 0 k = zero negative := by
  unfold ofDecimal
  split <;> simp [ofRatio_zero]

/-- digits are those that are left without the zeros at the end, and these zeros -/
theorem exists_trimZeros (digits : Text) : ∃ j, digits = trimZeros digits ++ List.replicate j '0' := by
  have hzeros : ∀ c ∈ digits.reverse.takeWhile (· == '0'), c = '0' := by
    intro c hc
    simpa using List.all_eq_true.1 List.all_takeWhile c hc
  have hreplicate := List.eq_replicate_of_mem hzeros
  refine ⟨(digits.reverse.takeWhile (· == '0')).length, ?_⟩
  calc digits
      = (digits.reverse.takeWhile (· == '0') ++ digits.reverse.dropWhile (· == '0')).reverse := by
        rw [List.takeWhile_append_dropWhile, List.reverse_reverse]
    _ = trimZeros digits ++ (digits.reverse.takeWhile (· == '0')).reverse := List.reverse_append
    _ = trimZeros digits ++ List.replicate (digits.reverse.takeWhile (· == '0')).length '0' := by
        rw [hreplicate, List.reverse_replicate, List.length_replicate]

theorem digits_trimZeros {n : Nat} (hn : 0 < n) :
    Digits (trimZeros (Text.ofNat n)) ∧ (trimZeros (Text.ofNat n)).head? ≠ some '0' := by
  obtain ⟨j, hj⟩ := exists_trimZeros (Text.ofNat n)
  have hhead := head?_ofNat hn
  have hne : trimZeros (Text.ofNat n) ≠ [] := by
    intro hnil
    rw [hnil, List.nil_append] at hj
    cases j with
    | zero => exact (digits_ofNat n).1 hj
    | succ j => simp [hj, List.replicate_succ] at hhead
  refine ⟨⟨hne, fun c hc => (digits_ofNat n).2 c ?_⟩, ?_⟩
  · rw [hj]
    exact List.mem_append_left _ hc
  · rwa [hj, List.head?_append_of_ne_nil _ hne] at hhead

/-- the text of a finite double is a numeral whose double it is -/
theorem exists_numeral {negative : Bool} {m : Nat} {e : Int} (hc : (finite negative m e).Canonical) :
    ∃ n : Numeral, n.WellFormed ∧ n.text = (finite negative m e).text ∧
      n.literal = .float (finite negative m e) := by
  rcases Nat.eq_zero_or_pos m with rfl | hm
  · obtain rfl : e = leastExponent := by
      obtain ⟨-, -, -, hfull | hleast⟩ := hc
      · exact absurd hfull (by decide)
      · exact hleast
    obtain ⟨hwell, htext, hliteral⟩ := Numeral.writes_small negative (Digits.singleton (c := '0') rfl) 0
    refine ⟨_, hwell, htext.trans ?_, hliteral.trans ?_⟩
    · simp [text]
    · rw [show numberOf ['0'] = 0 from rfl, ofDecimal_zero]
      rfl
  · have hread := ofDecimal_shortest hc hm
    simp only [text, beq_iff_eq, hm.ne', if_false]
    generalize shortest negative m e = found at hread
    obtain ⟨digits, k⟩ := found
    have hdigits : 0 < digits := by
      refine Nat.pos_of_ne_zero ?_
      rintro rfl
      rw [ofDecimal_zero, zero, finite.injEq] at hread
      exact hm.ne hread.2.1
    obtain ⟨ht, hlead⟩ := digits_trimZeros hdigits
    obtain ⟨j, hj⟩ := exists_trimZeros (Text.ofNat digits)
    -- the zeros that are left out are made up for by the place of the point
    have hvalue : numberOf (trimZeros (Text.ofNat digits)) * 10 ^ j = digits := by
      rw [← numberOf_append_zeros, ← hj, numberOf_ofNat]
    have hplace : k + (Text.ofNat digits).length - (trimZeros (Text.ofNat digits)).length = k + j := by
      have hlength := congrArg List.length hj
      rw [List.length_append, List.length_replicate] at hlength
      omega
    obtain ⟨n, hwell, htext, hliteral⟩ :=
      Numeral.writes_layout negative ht hlead (k + (Text.ofNat digits).length)
    refine ⟨n, hwell, htext, ?_⟩
    rw [hliteral, hplace, ← ofDecimal_shift, hvalue]
    exact congrArg Literal.float hread

/-- **A finite double** is read back. -/
theorem number?_text {negative : Bool} {m : Nat} {e : Int} (hc : (finite negative m e).Canonical) {rest : Text}
    (hrest : Directive.atNumberEnd rest = true) :
    Code.number? ((finite negative m e).text ++ rest) = some (.float (finite negative m e), rest) := by
  obtain ⟨n, hwell, htext, hliteral⟩ := exists_numeral hc
  rw [← htext, Code.number?_of_text hwell hrest, hliteral]

end Binary64

end Stencil
