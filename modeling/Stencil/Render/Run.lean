/-
RUNNING A PROGRAM. An expression has a value in a scope, a condition holds or does not, and a statement works on
the state; a block runs its statements one after the other, and the bodies of statements that head a block as often
as they say: a branch if it is the first of its conditional that holds, a loop once for every entry.

`Template.render` renders a template with data: its outcome is the text written and the captured sections.
-/
import Stencil.Program.Eval
import Stencil.Render.State
import Stencil.Template

namespace Stencil

/-- attributes as a value -/
def Attributes.toValue (a : Attributes) : Value := .mapping (a.map fun e => (.text e.1, .text e.2))

namespace Render

/-- an expression in the current scope -/
def eval (e : Expr) : Render Value := do
  let s ← get
  e.eval s.reach

/-- what a temporary holds -/
def temporary (n : Nat) : Render Temporary := do
  let s ← get
  match getAt? n s.temporaries with
  | some t => return t
  | none => throw (.unknownName [])

/-- a temporary set -/
def setTemporary (n : Nat) (t : Temporary) : Render Unit :=
  modify fun s => { s with temporaries := putAt n t s.temporaries }

/-- the entries that a temporary holds -/
def entries (n : Nat) : Render Entries := do
  match ← temporary n with
  | .entries es => return es
  | _ => throw (.unknownName [])

/-- the value that a temporary holds -/
def value (n : Nat) : Render Value := do
  match ← temporary n with
  | .value v => return v
  | _ => throw (.unknownName [])

/-- the text that a temporary holds, if any -/
def textOf (n : Nat) : Render (Option Text) := do
  match ← temporary n with
  | .text t => return t
  | _ => throw (.unknownName [])

/-- the innermost loop changed -/
def changeLoop (f : Loop → Loop) : Render Unit := do
  let s ← get
  match s.loops with
  | l :: ls => set { s with loops := f l :: ls }
  | [] => throw .nothingOpen

/-- the parameters of a phrase with their values; of two with one name the last counts -/
def parameters (params : List (Text × Expr)) : Render Entries := do
  let es ← params.mapM fun p => do
    let v ← eval p.2
    return (Value.text p.1, v)
  return Value.putAll [] es

/-- a statement that heads no block -/
def exec : Stmt → Render Unit
  | .write t => write t
  | .emit e => do
    let v ← eval e
    emit v
  | .iterate n e => do
    let v ← eval e
    let es ← work v.pairs
    setTemporary n (.entries es)
  | .loopOpen n => do
    let es ← entries n
    modify fun s => { s with loops := Loop.start es.length :: s.loops }
  | .scopeLoop => modify fun s => { s with scope := ⟨.loop, []⟩ :: s.scope }
  | .iterationBegin n => do
    let k ← value n
    changeLoop (Loop.enter k)
  | .bind name (.key n) => do
    let v ← value n
    modify (State.bind name v)
  | .bind name (.item n) => do
    let v ← value n
    modify (State.bind name v)
  | .iterationEnd => changeLoop Loop.advance
  | .scopeClose => modify fun s => { s with scope := s.scope.drop 1 }
  | .loopClose => modify fun s => { s with loops := s.loops.drop 1 }
  | .captureBegin => modify State.captureBegin
  | .captureEnd name => do
    let _ ← captureEnd name
  | .formOpen e name attributes => do
    let v ← eval e
    let f ← makeForm v name attributes.toValue
    modify fun s => { s with forms := f :: s.forms }
  | .writeFormOpen => do
    let f ← form
    let t ← f.openTag .none
    write t
  | .scopeForm => modify fun s => { s with scope := ⟨.form, []⟩ :: s.scope }
  | .writeFormClose => do
    let _ ← form
    write Form.closeTag
  | .formClose => modify fun s => { s with forms := s.forms.drop 1 }
  | .field name attributes labelled => do
    let f ← form
    let t ← work (f.control (.text name) attributes.toValue labelled)
    write t
  | .submit attributes => do
    let f ← form
    let t ← work (f.submit attributes.toValue)
    write t
  | .button attributes => do
    let f ← form
    let t ← work (f.button attributes.toValue)
    write t
  | .generate e name attributes submitting => do
    let v ← eval e
    let f ← makeForm v name (.mapping [])
    let t ← work (f.generate attributes.toValue submitting)
    write t
  | .translate n key params => do
    let es ← parameters params
    let t ← translate (.text key) (.mapping es)
    setTemporary n (.text t)
  | .writeText n => do
    match ← textOf n with
    | some t => write t
    | none => throw .notText
  | _ => pure ()

end Render

/-- a block run; `ran` says whether a branch of the conditional that goes on here has run -/
def Block.run (ran : Bool) : Block → Render Unit
  | done => pure ()
  | step s rest => do
    Render.exec s
    rest.run false
  | nest s body rest =>
    match s with
    | .forEach k n items => do
      let es ← Render.entries items
      es.forM fun e => do
        Render.setTemporary k (.value e.1)
        Render.setTemporary n (.value e.2)
        body.run false
      rest.run false
    | .when c => do
      let s ← get
      let b ← c.eval s.reach
      if b then body.run false
      rest.run b
    | .elsewhen c => do
      if ran then rest.run true
      else
        let s ← get
        let b ← c.eval s.reach
        if b then body.run false
        rest.run b
    | .otherwise => do
      if !ran then body.run false
      rest.run false
    | .whenReached path => do
      let s ← get
      let b ← reaches s.reach path
      if b then body.run false
      rest.run false
    | .whenText n => do
      let t ← Render.textOf n
      if t.isSome then body.run false
      rest.run t.isSome
    | _ => do
      body.run false
      rest.run false

/-- where the phrases of a render come from -/
inductive Phrases where
  | catalog (c : Catalog)
  | value (v : Value)

/-- the catalog of the phrases -/
def Phrases.toCatalog : Phrases → Work Catalog
  | catalog c => pure c
  | value v => Catalog.ofValue v standardLocale

/-- the outcome of a render -/
structure Outcome where
  output : Text
  sections : List (Text × Text)
  deriving DecidableEq, Repr

/-- a render: what went wrong or came out, and what the log tells of it -/
structure Rendered where
  outcome : Except Failure Outcome
  messages : List Message

namespace Template

/-- the template's program run from a state -/
def run (t : Template) (s : State) : Rendered :=
  match (t.program.run false).run.run s with
  | (.ok (), s') => ⟨.ok ⟨s'.result, s'.sections⟩, s'.messages.reverse⟩
  | (.error e, s') => ⟨.error e, s'.messages.reverse⟩

/-- the names that a render takes for itself -/
def ownNames : List Text := ["self", "data", "translations", "mappings"]

/-- the names a template refers to: the data with further values on top -/
def scopeOf (data : Value) (values : List (Text × Value)) : Except Failure Entries :=
  if values.any fun v => ownNames.contains v.1 then .error .badArguments
  else data.orEmpty.merge (.mapping (Value.putAll [] (values.map fun v => (.text v.1, v.2))))

/-- the template rendered -/
def render (t : Template) (data : Value) (values : List (Text × Value)) (phrases : Phrases)
    (mappings : Value) : Rendered :=
  match scopeOf data values with
  | .error e => ⟨.error e, []⟩
  | .ok es =>
    match phrases.toCatalog.run.run [] with
    | (.error e, _) => ⟨.error e, []⟩
    | (.ok c, asked) => t.run (State.start es c mappings t.escaping asked)

end Template

end Stencil
