/-
TEXTS IN A DOCUMENT stand between quotation marks. A backslash begins an escape: a letter or mark for a character,
or x, u or U and the code in two, four or eight hexadecimal digits. Lines are folded: blanks around a line end
count for nothing, a single line end is a space, and more of them are one less; the line and paragraph separators
stay as they are. A line end after a backslash is nothing at all. No line inside a text can be one that divides
documents.
-/
import Stencil.Text.Half

namespace Stencil.Document

/-- a character that ends a line, once carriage returns are gone -/
def isBreak (c : Char) : Bool := c == '\n' || c == '\x85' || c == '\u2028' || c == '\u2029'

/-- a character that a line end is read as -/
def breakChar (c : Char) : Char := if c == '\x85' then '\n' else c

/-- a space or a tabulator -/
def isSpace (c : Char) : Bool := c == ' ' || c == '\t'

/-- the line that begins here divides documents -/
def isDivider (s : Text) : Bool :=
  match s with
  | a :: b :: c :: rest =>
    ((a == '-' && b == '-' && c == '-') || (a == '.' && b == '.' && c == '.')) &&
      (rest.take 1).all fun d => isSpace d || isBreak d
  | _ => false

/-- the value of a hexadecimal digit -/
def hexValue? (c : Char) : Option Nat :=
  let n := c.toNat
  if 48 ≤ n && n ≤ 57 then some (n - 48)
  else if 97 ≤ n && n ≤ 102 then some (n - 87)
  else if 65 ≤ n && n ≤ 70 then some (n - 55)
  else none

/-- the number that hexadecimal digits stand for -/
def hexNumber? (digits : Text) : Option Nat :=
  digits.foldlM (fun n c => (hexValue? c).map fun d => 16 * n + d) 0

/-- the character of a code in hexadecimal digits -/
def coded? (digits : Text) : Option Char := (hexNumber? digits).bind Text.ofCode?

/-- the characters that stand for others after a backslash -/
def escapes : List (Char × Char) :=
  [('0', '\x00'), ('a', '\x07'), ('b', '\x08'), ('t', '\t'), ('\t', '\t'), ('n', '\n'), ('v', '\x0b'), ('f', '\x0c'),
   ('r', '\r'), ('e', '\x1b'), (' ', ' '), ('"', '"'), ('\\', '\\'), ('/', '/'), ('N', '\x85'), ('_', '\xa0'),
   ('L', '\u2028'), ('P', '\u2029')]

/-- the character that a letter or mark after a backslash stands for -/
def escaped? (c : Char) : Option Char := (escapes.find? fun e => e.1 == c).map (·.2)

/-- blanks and line ends that were read and do not stand for themselves yet; all of them last first -/
inductive Gap where
  | spaces (s : Text)
  /-- the first line end, unless a backslash stood before it, and those that followed it -/
  | lines (first : Option Char) (more : Text)
  deriving DecidableEq, Repr

namespace Gap

/-- nothing read -/
def empty : Gap := .spaces []

/-- one space or tabulator more -/
def space (c : Char) : Gap → Gap
  | spaces s => spaces (c :: s)
  | g => g

/-- one line end more -/
def line (c : Char) : Gap → Gap
  | spaces _ => lines (some (breakChar c)) []
  | lines first more => lines first (breakChar c :: more)

/-- what the gap stands for -/
def text : Gap → Text
  | spaces s => s.reverse
  | lines none more => more.reverse
  | lines (some '\n') [] => [' ']
  | lines (some '\n') more => more.reverse
  | lines (some c) more => c :: more.reverse

end Gap

/-- a character in front of a text that was read -/
def putFront (c : Text) (p : Text × Text) : Text × Text := (c ++ p.1, p.2)

/-- the text up to the closing quotation mark, and the rest, after a gap -/
def takeText (gap : Gap) : Text → Option (Text × Text)
  | [] => none
  | '\\' :: 'x' :: a :: b :: rest => do
    let c ← coded? [a, b]
    (takeText .empty rest).map (putFront (gap.text ++ [c]))
  | '\\' :: 'u' :: a :: b :: c :: d :: rest => do
    let c ← coded? [a, b, c, d]
    (takeText .empty rest).map (putFront (gap.text ++ [c]))
  | '\\' :: 'U' :: a :: b :: c :: d :: e :: f :: g :: h :: rest => do
    let c ← coded? [a, b, c, d, e, f, g, h]
    (takeText .empty rest).map (putFront (gap.text ++ [c]))
  | '\\' :: c :: rest =>
    if isBreak c then
      if isDivider rest then none else (takeText (.lines none []) rest).map (putFront gap.text)
    else do
      let e ← escaped? c
      (takeText .empty rest).map (putFront (gap.text ++ [e]))
  | c :: rest =>
    if c == '"' then some (gap.text, rest)
    else if isSpace c then takeText (gap.space c) rest
    else if isBreak c then
      if isDivider rest then none else takeText (gap.line c) rest
    else (takeText .empty rest).map (putFront (gap.text ++ [c]))

end Stencil.Document
