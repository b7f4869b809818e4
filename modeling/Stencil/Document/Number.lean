/-
NUMBERS IN A DOCUMENT: digits, with a point and more digits for a double, which may have an exponent with a sign. No
zero stands before other digits. What is written with another exponent is a text.
-/
import Stencil.Value.Basic

namespace Stencil.Document

/-- a digit of a number -/
def isDigit (c : Char) : Bool := c.isDigit

/-- the number that digits stand for -/
def numberOf (digits : Text) : Nat := digits.foldl (fun n c => 10 * n + (c.toNat - 48)) 0

/-- the parts of a number's text: the digits before and after a point, and what an exponent is written with -/
structure Numeral where
  negative : Bool
  whole : Text
  fraction : Option Text
  exponent : Option (Option Char × Text)
  deriving DecidableEq, Repr

/-- the sign at the beginning, and the rest -/
def takeSign (s : Text) : Option Char × Text :=
  match s with
  | '+' :: rest => (some '+', rest)
  | '-' :: rest => (some '-', rest)
  | s => (none, s)

/-- the digits at the beginning, of which there must be one, and the rest -/
def takeDigits? (s : Text) : Option (Text × Text) :=
  let digits := s.takeWhile isDigit
  if digits.isEmpty then none else some (digits, s.dropWhile isDigit)

/-- the fraction at the beginning, if a point stands there, and the rest -/
def takeFraction? (s : Text) : Option (Option Text × Text) :=
  match s with
  | '.' :: rest => (takeDigits? rest).map fun p => (some p.1, p.2)
  | s => some (none, s)

/-- the exponent at the beginning, if there is one, and the rest -/
def takeExponent? (s : Text) : Option (Option (Option Char × Text) × Text) :=
  match s with
  | c :: rest =>
    if c == 'e' || c == 'E' then
      let (sign, rest) := takeSign rest
      (takeDigits? rest).map fun p => (some (sign, p.1), p.2)
    else some (none, s)
  | [] => some (none, [])

/-- the number at the beginning, and the rest -/
def takeNumeral? (s : Text) : Option (Numeral × Text) := do
  let (negative, s) := match s with
    | '-' :: rest => (true, rest)
    | s => (false, s)
  let (whole, s) ← takeDigits? s
  if whole.head? == some '0' && whole.length != 1 then none
  let (fraction, s) ← takeFraction? s
  let (exponent, s) ← takeExponent? s
  return (⟨negative, whole, fraction, exponent⟩, s)

namespace Numeral

/-- a number without a point and without an exponent -/
def isWhole (n : Numeral) : Bool := n.fraction.isNone && n.exponent.isNone

/-- the value of a number; `source` is its text -/
def value (n : Numeral) (source : Text) (id : Identity) : Value :=
  match n.fraction, n.exponent with
  | none, none =>
    let m : Int := numberOf n.whole
    .int (if n.negative then -m else m) id
  | some f, none => .float (Binary64.ofScientific n.negative (numberOf (n.whole ++ f)) (-(f.length : Int))) id
  | some f, some (some sign, e) =>
    let k : Int := numberOf e
    let power := (if sign == '-' then -k else k) - f.length
    .float (Binary64.ofScientific n.negative (numberOf (n.whole ++ f)) power) id
  | _, _ => .text source id

end Numeral

end Stencil.Document
