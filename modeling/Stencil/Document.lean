/-
DOCUMENTS hold data, catalogs and mappings. The nodes of a document become values: of two entries with one key the
later counts, in the place of the first. A whole number of more than `digitLimit` digits has no value.

`entries` reads a document that must be a mapping, or nothing for an empty one. Values of one document are parts of
it: its number and their places tell them apart.
-/
import Stencil.Document.Node
import Stencil.Reference.Literal
import Stencil.Value.Equality

namespace Stencil

/-- why a document gives no entries -/
inductive DocumentFault where
  /-- there is no such file, or it cannot be read -/
  | unreadable
  /-- the text is no document -/
  | broken
  /-- a whole number has too many digits -/
  | digitLimit
  /-- the document is something else than a mapping -/
  | notMapping
  deriving DecidableEq, Repr

/-- what the user is told of the document at a path -/
def DocumentFault.message (path : Text) : DocumentFault → Text
  | unreadable => "Failed to load ".toList ++ path
  | broken => "Failed to parse ".toList ++ path
  | digitLimit => "Too many digits in ".toList ++ path
  | notMapping => "Expected a mapping at the top of ".toList ++ path

namespace Document

namespace Word

/-- the value of a word -/
def value : Word → Value
  | nothing => .none
  | yes => .bool true
  | no => .bool false

end Word

/-- the value of a number, if it has one -/
def numberValue (serial : Nat) (n : Numeral) (source : Text) (place : Nat) : Except DocumentFault Value :=
  if n.isWhole && digitLimit < n.whole.length then .error .digitLimit
  else .ok (n.value source (.part serial place))

mutual

/-- the value of a node in the document with a number -/
def Node.value (serial : Nat) : Node → Except DocumentFault Value
  | .word w => .ok w.value
  | .number n source place => numberValue serial n source place
  | .text s place => .ok (.text s (.part serial place))
  | .list ns place => (itemValues serial ns).map fun vs => .list vs (.part serial place)
  | .mapping es => (entryValues serial [] es).map .mapping

/-- the values of nodes -/
def itemValues (serial : Nat) : List Node → Except DocumentFault (List Value)
  | [] => .ok []
  | n :: ns => do
    let v ← n.value serial
    let vs ← itemValues serial ns
    return v :: vs

/-- entries, and the values of others put on top of them -/
def entryValues (serial : Nat) (es : Entries) : List (Text × Nat × Node) → Except DocumentFault Entries
  | [] => .ok es
  | (key, place, n) :: rest => do
    let v ← n.value serial
    entryValues serial (Value.put (.text key (.part serial place)) v es) rest

end

/-- the entries of the document with a number, which was read or not -/
def entries (serial : Nat) (source : Option Text) : Except DocumentFault Entries :=
  match source with
  | none => .error .unreadable
  | some s =>
    match parse? s with
    | none => .error .broken
    | some n => do
      match ← n.value serial with
      | .none => return []
      | .mapping es => return es
      | _ => .error .notMapping

end Document

end Stencil
