/-
REPORTS of faults: a diagnostic as one line of text, and with the line of the template where it stands and a caret
under its place.
-/
import Stencil.Fault
import Stencil.Highlight.Terminal

namespace Stencil

/-- a fault as it is told; position and line are known once it is located -/
structure Diagnostic where
  kind : FaultKind
  message : Text
  raw : Text
  position : Option Int
  line : Option Int
  deriving DecidableEq, Repr

/-- a fault as a diagnostic -/
def Fault.diagnostic (f : Fault) : Diagnostic :=
  ⟨f.cause.kind, f.cause.message, f.raw, f.place.map fun p => p.position, f.place.map fun p => p.line⟩

namespace Diagnostic

/-- a diagnostic of an unknown family -/
def unknownFamily (family raw : Text) (position line : Option Int) : Diagnostic :=
  ⟨.unknownFamily, (Cause.unknownFamily family).message, raw, position, line⟩

/-- the diagnostic at a place, unless it has a position; without a directive text it takes the one given -/
def locate (raw : Text) (position line : Int) (d : Diagnostic) : Diagnostic :=
  { d with
    raw := if d.raw.isEmpty then raw else d.raw
    position := some (d.position.getD position)
    line := if d.position.isSome then d.line else some line }

/-- a number, or the word for none -/
def numberText (n : Option Int) : Text :=
  match n with
  | some n => Text.ofInt n
  | none => "None"

/-- kind and message -/
def head (d : Diagnostic) : Text := Text.cat [d.kind.name, ": ", d.message]

/-- the diagnostic in one line -/
def text (d : Diagnostic) : Text :=
  match d.line with
  | some _ => Text.cat [d.head, " at line ", numberText d.line, ", position ", numberText d.position]
  | none => d.head

/-- a position as an offset into a text; a negative one counts from the end -/
def offset (length : Nat) (position : Int) : Nat :=
  if position < 0 then (position + length).toNat else min position.toNat length

/-- the line of a text around an offset, and where it begins -/
def lineAround (source : Text) (n : Nat) : Text × Nat :=
  let before := (source.take n).reverse.takeWhile (· != '\n')
  (before.reverse ++ (source.drop n).takeWhile (· != '\n'), min n source.length - before.length)

/-- the diagnostic with its line and a caret, `show` applied to the line -/
def contextWith (shown : Text → Text) (source : Text) (d : Diagnostic) : Text :=
  match d.position with
  | none => d.text
  | some p =>
    let (line, start) := lineAround source (offset source.length p)
    Text.cat [d.head, "\nLine ", numberText d.line, ", position ", numberText d.position, "\nContext: ", shown line,
      "\n         ", List.replicate (p - start).toNat ' ', "^"]

/-- the diagnostic with its line -/
def context (source : Text) (d : Diagnostic) : Text := d.contextWith id source

/-- the diagnostic with its line in colours -/
def highlighted (source : Text) (d : Diagnostic) : Text := d.contextWith Highlight.terminal source

end Diagnostic

end Stencil
