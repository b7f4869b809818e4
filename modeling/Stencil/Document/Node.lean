/-
NODES: a document as it is written. A word, a number, a text in quotation marks, a list in brackets or a mapping in
braces, with spaces and line ends between. The key of a mapping is a text that stands on one line with the colon
after it, which is at most `keyLimit` characters from the key's beginning.

Every node has its place, the number of characters from its beginning to the end of the document.
-/
import Stencil.Document.Number
import Stencil.Document.Quoted

namespace Stencil.Document

/-- the words that are values -/
inductive Word where
  | nothing | yes | no
  deriving DecidableEq, Repr

/-- a node of a document -/
inductive Node where
  | word (w : Word)
  | number (n : Numeral) (source : Text) (place : Nat)
  | text (s : Text) (place : Nat)
  | list (items : List Node) (place : Nat)
  | mapping (entries : List (Text × Nat × Node))
  deriving Repr

/-- a text without the spaces and line ends at its beginning -/
def skip (s : Text) : Text := s.dropWhile fun c => c == ' ' || isBreak c

/-- the words as they are written -/
def words : List (Text × Word) := [("null", .nothing), ("true", .yes), ("false", .no)]

/-- the word or number at the beginning, and the rest -/
def takeScalar? (s : Text) : Option (Node × Text) :=
  match words.findSome? fun w => (Text.after? w.1 s).map fun rest => (w.2, rest) with
  | some (w, rest) => some (.word w, rest)
  | none => (takeNumeral? s).map fun p => (.number p.1 (s.take (s.length - p.2.length)) s.length, p.2)

/-- how far from the beginning of a key its colon can stand -/
def keyLimit : Nat := 1024

/-- a key can be written as this -/
def isKeySource (s : Text) : Bool := s.length ≤ keyLimit && !s.any isBreak

/-- the key with its place at the beginning, and the rest after its colon -/
def takeKey? (s : Text) : Option (Text × Nat × Text) :=
  match s with
  | '"' :: inside => do
    let (key, rest) ← takeText .empty inside
    match skip rest with
    | ':' :: after => if isKeySource (s.take (s.length - after.length - 1)) then some (key, s.length, after) else none
    | _ => none
  | _ => none

mutual

/-- the node at the beginning, and the rest; `fuel` bounds the number of steps -/
def takeNode (fuel : Nat) (s : Text) : Option (Node × Text) :=
  match fuel with
  | 0 => none
  | fuel + 1 =>
    let s := skip s
    match s with
    | '"' :: rest => (takeText .empty rest).map fun p => (.text p.1 s.length, p.2)
    | '[' :: rest =>
      match skip rest with
      | ']' :: rest => some (.list [] s.length, rest)
      | rest => (takeItems fuel rest).map fun p => (.list p.1 s.length, p.2)
    | '\x7b' :: rest =>
      match skip rest with
      | '\x7d' :: rest => some (.mapping [], rest)
      | rest => (takeEntries fuel rest).map fun p => (.mapping p.1, p.2)
    | s => takeScalar? s

/-- the items up to the closing bracket, and the rest -/
def takeItems (fuel : Nat) (s : Text) : Option (List Node × Text) :=
  match fuel with
  | 0 => none
  | fuel + 1 => do
    let (n, rest) ← takeNode fuel s
    match skip rest with
    | ',' :: rest =>
      let (ns, rest) ← takeItems fuel rest
      return (n :: ns, rest)
    | ']' :: rest => return ([n], rest)
    | _ => none

/-- the entries up to the closing brace, and the rest -/
def takeEntries (fuel : Nat) (s : Text) : Option (List (Text × Nat × Node) × Text) :=
  match fuel with
  | 0 => none
  | fuel + 1 => do
    let (key, place, rest) ← takeKey? (skip s)
    let (n, rest) ← takeNode fuel rest
    match skip rest with
    | ',' :: rest =>
      let (es, rest) ← takeEntries fuel rest
      return ((key, place, n) :: es, rest)
    | '\x7d' :: rest => return ([(key, place, n)], rest)
    | _ => none

end

/-- a character that a document can hold -/
def isAllowed (c : Char) : Bool :=
  let n := c.toNat
  n == 9 || n == 10 || n == 13 || (0x20 ≤ n && n ≤ 0x7E) || n == 0x85 || (0xA0 ≤ n && n ≤ 0xFFFD) || 0x10000 ≤ n

/-- a text without the mark of byte order at its beginning -/
def skipMark (s : Text) : Text :=
  match s with
  | '\ufeff' :: rest => rest
  | s => s

/-- the node of a document, nothing for one that is empty; none if the text is no document -/
def parse? (source : Text) : Option Node :=
  let s := skip (skipMark (Text.unixLines source))
  if source.all isAllowed then
    if s.isEmpty then some (.word .nothing)
    else (takeNode (s.length + 1) s).bind fun p => if (skip p.2).isEmpty then some p.1 else none
  else none

end Stencil.Document
