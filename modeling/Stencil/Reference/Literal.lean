/-
LITERALS of the template language: texts between quotation marks or apostrophes, whole numbers, decimals, and the
words true, false and null. Digits may be of any script.

`take?` reads the literal a text begins with, `isLiteral` says whether a text is one literal, and `parse` gives its
value. `text` writes a value as the literal that stands for it in generated code.
-/
import Stencil.Fault
import Stencil.Number.Shortest
import Stencil.Text.Quoted
import Stencil.Value.Basic

namespace Stencil

/-- the value of a literal -/
inductive Literal where
  | null
  | bool (b : Bool)
  | int (n : Int)
  | float (x : Binary64)
  | text (s : Text)
  deriving DecidableEq, Repr

/-- the greatest number of digits an integer is read from -/
def digitLimit : Nat := 4300

namespace Literal

/-- a literal as a value -/
def toValue : Literal → Value
  | null => .none
  | bool b => .bool b
  | int n => .int n
  | float x => .float x
  | text s => .text s

/-- a literal in generated code -/
def code : Literal → Text
  | null => "None"
  | bool b => if b then "True" else "False"
  | int n => Text.ofInt n
  | float x => x.text
  | text s => Text.Quoted.encode s

/-- the words that are literals -/
def words : List (Text × Literal) := [("true", bool true), ("false", bool false), ("null", null)]

/-- the number that digits stand for -/
def numberOf (digits : Text) : Nat := digits.foldl (fun n c => 10 * n + (Text.digitValue? c).getD 0) 0

/-- the rest of a text after digits, if it begins with one -/
def afterDigits? (s : Text) : Option Text :=
  match s with
  | c :: cs => if Text.isDigit c then some (cs.dropWhile Text.isDigit) else none
  | [] => none

/-- the rest after a number, which may have a sign and a fraction -/
def afterNumber? (s : Text) : Option Text :=
  (afterDigits? (match s with
    | '-' :: cs => cs
    | s => s)).map fun rest =>
    match rest with
    | '.' :: cs => (afterDigits? cs).getD rest
    | rest => rest

/-- the rest after a text between two of the marks -/
def afterQuoted? (mark : Char) (s : Text) : Option Text :=
  match s with
  | c :: cs =>
    if c == mark then
      match cs.dropWhile (· != mark) with
      | _ :: rest => some rest
      | [] => none
    else none
  | [] => none

/-- no letter, digit or low line stands at the beginning -/
def atWordEnd (s : Text) : Bool :=
  match s with
  | c :: _ => !Text.isWord c
  | [] => true

/-- the rest after a whole word -/
def afterWord? (word s : Text) : Option Text := (Text.after? word s).filter atWordEnd

/-- the rest after one of the words that are literals -/
def afterKeyword? (s : Text) : Option Text := words.findSome? fun w => afterWord? w.1 s

/-- the rest after the literal that a text begins with -/
def after? (s : Text) : Option Text :=
  afterQuoted? '"' s <|> afterQuoted? '\'' s <|> afterNumber? s <|> afterKeyword? s

/-- the source text of the literal that a text begins with, and the rest -/
def take? (s : Text) : Option (Text × Text) :=
  (after? s).map fun rest => (s.take (s.length - rest.length), rest)

/-- the text is one literal, blanks around it aside -/
def isLiteral (s : Text) : Bool := after? (Text.strip s) == some []

/-- the digits after an optional minus sign -/
def unsigned (s : Text) : Bool × Text :=
  match s with
  | '-' :: cs => (true, cs)
  | s => (false, s)

/-- one digit or more, and nothing else -/
def areDigits (s : Text) : Bool := !s.isEmpty && s.all Text.isDigit

/-- the value of a literal's text -/
def parse (source : Text) : Except Refusal Literal :=
  let s := Text.strip source
  match words.find? fun w => w.1 == s with
  | some w => .ok w.2
  | none =>
    let quoted := 2 ≤ s.length && s.head? == s.getLast? && (s.head? == some '"' || s.head? == some '\'')
    if quoted then .ok (text ((s.drop 1).dropLast))
    else
      let (negative, digits) := unsigned s
      if areDigits digits then
        if digitLimit < digits.length then .error .digitLimit
        else
          let n : Int := numberOf digits
          .ok (int (if negative then -n else n))
      else
        let whole := digits.takeWhile (· != '.')
        let fraction := (digits.dropWhile (· != '.')).drop 1
        if areDigits whole && areDigits fraction then
          .ok (float (Binary64.ofDecimal negative (numberOf (whole ++ fraction)) (-(fraction.length : Int))))
        else .error (.fault (.of (.invalidLiteral s) s))

end Literal

end Stencil
