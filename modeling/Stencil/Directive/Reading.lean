/-
READING REFERENCES in a template. In strict mode the first name of a reference must be declared or bound by an
enclosing construct, and an interpolation without a fallback demands its value; otherwise what is not reached is
the fallback, or nothing.
-/
import Stencil.Program.Basic

namespace Stencil.Directive

/-- how references are read: the mode and the declared names -/
structure Mode where
  strict : Bool
  names : List Text
  deriving DecidableEq, Repr

namespace Mode

/-- strict mode: the first name of a reference is known -/
def check (m : Mode) (bound : List Text) (r : Reference) : Except Refusal Unit :=
  if m.strict && !(m.names.contains r.root || bound.contains r.root) then
    .error (.fault (.of (.unresolved r.raw r.root) r.raw))
  else .ok ()

/-- the value of a reference; a lenient one never demands its value -/
def value (m : Mode) (bound : List Text) (lenient : Bool) (source : Text) : Except Refusal Expr := do
  let r ← Reference.parse source
  m.check bound r
  match r.fallback with
  | some f =>
    let l ← Literal.parse f
    return .lookup r.path l
  | none => return if m.strict && !lenient then .demand r.path r.raw else .lookup r.path .null

/-- the path of a reference whose presence is tested -/
def reached (m : Mode) (bound : List Text) (source : Text) : Except Refusal (List Segment) := do
  let r ← Reference.parse source
  m.check bound r
  return r.path

/-- the value of a literal or a reference -/
def operand (m : Mode) (bound : List Text) (lenient : Bool) (source : Text) : Except Refusal Expr :=
  if Literal.isLiteral source then (Literal.parse source).map .literal else m.value bound lenient source

end Mode

end Stencil.Directive
