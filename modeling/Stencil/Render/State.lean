/-
THE STATE OF A RENDER. Names are looked for in the layers of the scope, the innermost first, and then in the data;
a layer of a loop shows the innermost open loop, a layer of a form the innermost open form. Output goes to the
innermost capture, or to the result. What a section captured is kept under its name and written where it stands.

`Render` is work on such a state that can fail.
-/
import Stencil.Catalog.Basic
import Stencil.Keyed
import Stencil.Program.Eval
import Stencil.Render.Form
import Stencil.Render.Loop

namespace Stencil

/-- what a layer of the scope shows beside its names -/
inductive Shown where
  | loop | form
  deriving DecidableEq, Repr

/-- a layer of the scope: the names bound in it -/
structure Layer where
  shown : Shown
  names : Entries

/-- what a temporary of a program holds -/
inductive Temporary where
  | entries (es : Entries)
  | value (v : Value)
  | text (t : Option Text)

/-- the state of a render; stacks have the innermost first, and output has the last text first -/
structure State where
  data : Entries
  catalog : Catalog
  mappings : Value
  escaping : Bool
  scope : List Layer
  loops : List Loop
  forms : List Form
  temporaries : List (Nat × Temporary)
  output : List Text
  captures : List (List Text)
  sections : List (Text × Text)
  messages : List Message
  asked : Asked

/-- the name under which a layer shows what it is made for -/
def Shown.name : Shown → Text
  | loop => "loop"
  | form => "form"

namespace State

/-- the state before a render; the account of streams goes on -/
def start (data : Entries) (catalog : Catalog) (mappings : Value) (escaping : Bool) (asked : Asked) : State :=
  ⟨data, catalog, mappings.orEmpty, escaping, [], [], [], [], [], [], [], [], asked⟩

/-- what a layer shows, in this state -/
def shown (s : State) : Shown → Value
  | .loop => Loop.value s.loops
  | .form => Form.value s.forms

/-- the value of a name in the scope from some layer on -/
def findFrom (s : State) (name : Text) : List Layer → Option Value
  | [] => Value.find? (.text name) s.data
  | l :: ls =>
    match Value.find? (.text name) l.names with
    | some v => some v
    | none => if l.shown.name == name then some (s.shown l.shown) else s.findFrom name ls

/-- the value of a name -/
def find? (s : State) (name : Text) : Option Value := s.findFrom name s.scope

/-- what a path reaches -/
def reach (s : State) : Reach
  | .name root :: rest =>
    match s.find? root with
    | none => .ok none
    | some v =>
      if v.isMissing then .ok none
      else (v.reachAll (rest.map Segment.toValue)).map fun found => found.map (Value.current s.asked)
  | _ => .ok none

/-- the text written so far where output goes now -/
def result (s : State) : Text := Text.cat s.output.reverse

/-- a text written -/
def write (t : Text) (s : State) : State := { s with output := t :: s.output }

/-- a capture opened -/
def captureBegin (s : State) : State := { s with captures := s.output :: s.captures, output := [] }

/-- the innermost capture closed: its text is kept under a name, and written -/
def captureEnd? (name : Text) (s : State) : Option State :=
  match s.captures with
  | [] => none
  | outer :: rest =>
    some { s with captures := rest, output := s.result :: outer, sections := putAt name s.result s.sections }

/-- a name bound in the innermost layer -/
def bind (name : Text) (v : Value) (s : State) : State :=
  match s.scope with
  | [] => { s with data := Value.put (.text name) v s.data }
  | l :: ls => { s with scope := { l with names := Value.put (.text name) v l.names } :: ls }

end State

/-- work on the state of a render -/
abbrev Render := ExceptT Failure (StateM State)

/-- the text that is written for a value: nothing for what is absent, markup as it stands, the text of all else -/
def outputText (escaping : Bool) (v : Value) : Except Failure Text :=
  match v with
  | .none => .ok []
  | .missing => .ok []
  | .markup s .. => .ok s
  | .object _ _ fields =>
    if fields.any fun f => f.1 == "__html__".toList then .error .notCallable
    else .ok (Text.escapeIf escaping v.display)
  | v => .ok (Text.escapeIf escaping v.display)

namespace Render

/-- work on streams as work on the state -/
def work {α : Type} (w : Work α) : Render α :=
  ExceptT.mk fun s =>
    let r := w.run.run s.asked
    (r.1, { s with asked := r.2 })

/-- a value as output -/
def convert (v : Value) : Render Text := do
  let s ← get
  outputText s.escaping v

/-- a text written as it is -/
def write (t : Text) : Render Unit := modify (State.write t)

/-- a value written -/
def emit (v : Value) : Render Unit := do
  let t ← convert v
  write t

/-- a capture closed -/
def captureEnd (name : Text) : Render Text := do
  let s ← get
  match s.captureEnd? name with
  | none => throw .nothingOpen
  | some s' =>
    set s'
    return s.result

/-- parameters as they are written -/
def convertParameters (es : Entries) : Render Entries :=
  es.mapM fun e => do
    let t ← convert e.2
    return (e.1, .text t)

/-- a key translated with parameters as they are written; none if the catalog has no phrase -/
def translate (key params : Value) : Render (Option Text) := do
  let es ← params.orEmpty.mappingEntries
  let given ← convertParameters es
  let s ← get
  let t ← work (s.catalog.translate key (.mapping given))
  modify fun s => { s with messages := t.messages.reverse ++ s.messages }
  return t.text

/-- a form for an entity, with the configuration under its name -/
def makeForm (entity : Value) (name : Text) (attributes : Value) : Render Form := do
  let s ← get
  let mapping ← s.mappings.get? (.text name)
  work (Form.make entity name (mapping.getD .none) .none attributes s.escaping)

/-- the innermost open form -/
def form : Render Form := do
  let s ← get
  match s.forms with
  | f :: _ => return f
  | [] => throw .nothingOpen

end Render

end Stencil
