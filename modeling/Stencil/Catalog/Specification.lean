/-
SPECIFICATIONS of how a value is set in a field. In this order and each part optional: a fill character and a side
(`<` left, `>` right, `^` centre, `=` after the sign), a sign, the letter z, the mark #, a zero that fills, the
width, a mark that groups digits, a point and the precision, and the type, which is one character.

`parse` reads all of it and checks only what holds for every kind of value: which types go with a grouping. What
the parts mean, and which are flaws, is for the kinds of values to say.
-/
import Stencil.Catalog.Flaw

namespace Stencil

/-- the greatest number that a phrase can hold -/
def numberLimit : Nat := Nat.pow 2 63 - 1

/-- a number so far and one digit more -/
def addDigit (n d : Nat) : Except Flaw Nat :=
  if numberLimit < 10 * n + d then .error .tooManyDigits else .ok (10 * n + d)

/-- the number whose first digits are read, and the text after its last digit -/
def takeDigits (n : Nat) : Text → Except Flaw (Nat × Text)
  | [] => .ok (n, [])
  | c :: cs =>
    match Text.digitValue? c with
    | some d => do
      let m ← addDigit n d
      takeDigits m cs
    | none => .ok (n, c :: cs)

/-- the number that a text begins with, if there is one, and the text after it -/
def takeNumber? (s : Text) : Except Flaw (Option Nat × Text) :=
  if (s.take 1).all Text.isDigit && !s.isEmpty then (takeDigits 0 s).map fun p => (some p.1, p.2)
  else .ok (none, s)

/-- the side of a field on which a text stands -/
inductive Side where
  | left | right | center | afterSign
  deriving DecidableEq, Repr

/-- the side that a character stands for -/
def Side.ofChar? (c : Char) : Option Side :=
  if c == '<' then some .left
  else if c == '>' then some .right
  else if c == '^' then some .center
  else if c == '=' then some .afterSign
  else none

/-- a specification, part by part -/
structure Specification where
  fill : Option Char
  side : Option Side
  sign : Option Char
  coercion : Bool
  alternate : Bool
  zero : Bool
  width : Option Nat
  grouping : Option Char
  precision : Option Nat
  type : Option Char
  deriving DecidableEq, Repr

namespace Specification

/-- the fill and side that a specification begins with, and the rest -/
def takeSide (s : Text) : Option Char × Option Side × Text :=
  match s with
  | f :: a :: rest =>
    match Side.ofChar? a with
    | some side => (some f, some side, rest)
    | none =>
      match Side.ofChar? f with
      | some side => (none, some side, a :: rest)
      | none => (none, none, s)
  | [a] =>
    match Side.ofChar? a with
    | some side => (none, some side, [])
    | none => (none, none, s)
  | [] => (none, none, [])

/-- the first character, if it satisfies a test, and the rest -/
def takeIf (p : Char → Bool) (s : Text) : Option Char × Text :=
  match s with
  | c :: cs => if p c then (some c, cs) else (none, s)
  | [] => (none, [])

/-- the mark that groups digits, and the rest -/
def takeGrouping (s : Text) : Except Flaw (Option Char × Text) := do
  let (comma, s) := takeIf (· == ',') s
  let (line, s) := takeIf (· == '_') s
  if line.isSome && (comma.isSome || (takeIf (· == ',') s).1.isSome) then throw .twoGroupings
  return (comma <|> line, s)

/-- the precision after a point, and the rest -/
def takePrecision (s : Text) : Except Flaw (Option Nat × Text) := do
  let (point, s) := takeIf (· == '.') s
  if point.isNone then return (none, s)
  let (n, s) ← takeNumber? s
  if n.isNone then throw .noPrecision
  return (n, s)

/-- the types whose digits can be grouped by either mark, and those that only the line can group -/
def groups (mark type : Char) : Bool :=
  "defgEG%F".toList.contains type || (mark == '_' && "boxX".toList.contains type)

/-- the specification that a text stands for; `standard` is the type where none is given, if a value has one, and
`owner` the name of the class of the value -/
def parse (owner : Text) (standard : Option Char) (source : Text) : Except Flaw Specification := do
  let (fill, side, s) := takeSide source
  let (sign, s) := takeIf (fun c => c == '+' || c == '-' || c == ' ') s
  let (coercion, s) := takeIf (· == 'z') s
  let (alternate, s) := takeIf (· == '#') s
  let (zero, s) := if fill.isSome then (none, s) else takeIf (· == '0') s
  let (width, s) ← takeNumber? s
  let (grouping, s) ← takeGrouping s
  let (precision, s) ← takePrecision s
  if 1 < s.length then throw (.invalidSpecification source owner)
  let type := s.head?
  if let (some mark, some t) := (grouping, type <|> standard) then
    if !groups mark t then throw (.grouping mark t)
  return ⟨fill, side, sign, coercion.isSome, alternate.isSome, zero.isSome, width, grouping, precision, type⟩

end Specification

end Stencil
