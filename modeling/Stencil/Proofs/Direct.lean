/-
TEMPLATES INTERPRETED DIRECTLY. A passage writes on a page. Where it stands is an environment: the data, the layers of
names around it, the innermost first, and the loops and forms it is in; a body runs in a larger environment, and nothing
has to be taken back after it.

- literal text is written, and a value as `outputText` gives it;
- a loop whose path reaches something in the environment around it runs its body for each entry, in a new layer with the
  loop and its names;
- a conditional runs the first branch whose condition holds;
- a section keeps what its body writes under its name, and it stands where the section stands;
- a form writes its opening tag, its body with the form in a new layer, and its closing tag;
- a phrase writes the text that the catalog has, and else its body; a comment writes nothing.
-/
import Stencil.Proofs.Passage
import Stencil.Render.Run

namespace Stencil

/-- where a part of a template stands -/
structure Env where
  data : Entries
  catalog : Catalog
  mappings : Value
  escaping : Bool
  layers : List (List (Text × Value))
  loops : List Loop
  forms : List Form

/-- what has been written so far -/
structure Page where
  output : Text
  sections : List (Text × Text)
  messages : List Message
  asked : Asked

/-- work on a page that can fail -/
abbrev Direct := ExceptT Failure (StateM Page)

namespace Env

/-- the value of a name: that of the innermost layer which has it, else that of the data -/
def find? (env : Env) (name : Text) : Option Value :=
  (env.layers.findSome? (getAt? name)).or (Value.find? (.text name) env.data)

/-- what a path reaches -/
def reach (env : Env) (asked : Asked) : Reach
  | .name root :: rest =>
    match env.find? root with
    | none => .ok none
    | some v =>
      if v.isMissing then .ok none
      else (v.reachAll (rest.map Segment.toValue)).map fun found => found.map (Value.current asked)
  | _ => .ok none

/-- the facts of a loop in one of its iterations, the first of which is number one -/
def facts (count index : Nat) : LoopFacts :=
  ⟨index, count, index == 1, index == count, index % 2 == 0, index % 2 == 1⟩

/-- the names of a loop with their values -/
def bindings (names : List Text) (e : Value × Value) : List (Text × Value) :=
  match names with
  | [n] => [(n, e.2)]
  | n :: m :: _ => [(n, e.1), (m, e.2)]
  | [] => []

/-- a layer with a value of its own, and names on top -/
def layer (own : Text) (v : Value) (names : List (Text × Value)) : List (Text × Value) :=
  names.foldl (fun l p => putAt p.1 p.2 l) [(own, v)]

/-- inside one iteration of a loop -/
def inLoop (env : Env) (names : List Text) (count index : Nat) (e : Value × Value) : Env :=
  let loops := ⟨facts count index, e.1⟩ :: env.loops
  { env with layers := layer "loop" (Loop.value loops) (bindings names e) :: env.layers, loops := loops }

/-- inside a form -/
def inForm (env : Env) (f : Form) : Env :=
  let forms := f :: env.forms
  { env with layers := layer "form" (Form.value forms) [] :: env.layers, forms := forms }

end Env

namespace Direct

/-- a text written -/
def write (t : Text) : Direct Unit := modify fun p => { p with output := p.output ++ t }

/-- work on streams as work on the page -/
def work {α : Type} (w : Work α) : Direct α :=
  ExceptT.mk fun p =>
    let r := w.run.run p.asked
    (r.1, { p with asked := r.2 })

/-- an expression in an environment -/
def eval (env : Env) (e : Expr) : Direct Value := do
  let p ← get
  e.eval (env.reach p.asked)

/-- whether a condition holds in an environment -/
def holds (env : Env) (c : Condition) : Direct Bool := do
  let p ← get
  c.eval (env.reach p.asked)

/-- whether a path reaches a value other than nothing -/
def reached (env : Env) (path : List Segment) : Direct Bool := do
  let p ← get
  reaches (env.reach p.asked) path

/-- a value written -/
def emit (env : Env) (v : Value) : Direct Unit := do
  let t ← outputText env.escaping v
  write t

/-- a form for an entity -/
def makeForm (env : Env) (entity : Value) (name : Text) (attributes : Value) : Direct Form := do
  let mapping ← env.mappings.get? (.text name)
  work (Form.make entity name (mapping.getD .none) .none attributes env.escaping)

/-- work on the form around -/
def inForm (env : Env) (w : Form → Work Text) : Direct Unit :=
  match env.forms with
  | f :: _ => do
    let t ← work (w f)
    write t
  | [] => throw .nothingOpen

/-- the text of a phrase, if the catalog has one; of two parameters with one name the last counts -/
def phrase? (env : Env) (key : Text) (params : List (Text × Expr)) : Direct (Option Text) := do
  let values ← params.mapM fun p => do
    let v ← eval env p.2
    return (Value.text p.1, v)
  let given ← (Value.putAll [] values).mapM fun e => do
    let t ← outputText env.escaping e.2
    return (e.1, Value.text t)
  let filled ← work (env.catalog.translate (.text key) (.mapping given))
  modify fun p => { p with messages := p.messages ++ filled.messages }
  return filled.text

/-- what a body writes, kept under a name and written -/
def capture (name : Text) (body : Direct Unit) : Direct Unit := do
  let before ← get
  set { before with output := [] }
  body
  modify fun p => { p with output := before.output ++ p.output, sections := putAt name p.output p.sections }

end Direct

/-- a directive without a body interpreted -/
def Act.direct (env : Env) : Act → Direct Unit
  | write t => Direct.write t
  | emit e => do
    let v ← Direct.eval env e
    Direct.emit env v
  | field name attributes labelled => Direct.inForm env fun f => f.control (.text name) attributes.toValue labelled
  | submit attributes => Direct.inForm env fun f => f.submit attributes.toValue
  | button attributes => Direct.inForm env fun f => f.button attributes.toValue
  | generate e name attributes submitting => do
    let v ← Direct.eval env e
    let f ← Direct.makeForm env v name (.mapping [])
    let t ← Direct.work (f.generate attributes.toValue submitting)
    Direct.write t
  | remark => pure ()

/-- a construct interpreted, given what its body does in an environment -/
def Opening.direct (env : Env) (body : Env → Direct Unit) : Opening → Direct Unit
  | loop names path e => do
    if ← Direct.reached env path then
      let v ← Direct.eval env e
      let es ← Direct.work v.pairs
      (es.zipIdx 1).forM fun p => body (env.inLoop names es.length p.2 p.1)
  | capture name => Direct.capture name (body env)
  | form e name attributes => do
    let v ← Direct.eval env e
    let f ← Direct.makeForm env v name attributes.toValue
    let t ← f.openTag .none
    Direct.write t
    body (env.inForm f)
    Direct.write Form.closeTag
  | phrase key params => do
    match ← Direct.phrase? env key params with
    | some t => Direct.write t
    | none => body env

mutual

/-- **A passage interpreted directly.** -/
def Passage.direct (env : Env) : Passage → Direct Unit
  | .done => pure ()
  | .act a rest => do
    a.direct env
    rest.direct env
  | .construct o body rest => do
    o.direct env fun env' => body.direct env'
    rest.direct env
  | .choice c body more rest => do
    if ← Direct.holds env c then body.direct env else more.direct env
    rest.direct env

/-- the first of the branches whose condition holds interpreted -/
def Choices.direct (env : Env) : Choices → Direct Unit
  | .none => pure ()
  | .elsewhen c body more => do
    if ← Direct.holds env c then body.direct env else more.direct env
  | .otherwise body => body.direct env

end

/-- **A passage rendered**: what it writes on an empty page. -/
def Passage.render (p : Passage) (escaping : Bool) (data : Value) (values : List (Text × Value)) (phrases : Phrases)
    (mappings : Value) : Rendered :=
  match Template.scopeOf data values with
  | .error e => ⟨.error e, []⟩
  | .ok es =>
    match phrases.toCatalog.run.run [] with
    | (.error e, _) => ⟨.error e, []⟩
    | (.ok c, asked) =>
      match (p.direct ⟨es, c, mappings.orEmpty, escaping, [], [], []⟩).run.run ⟨[], [], [], asked⟩ with
      | (.ok (), page) => ⟨.ok ⟨page.output, page.sections⟩, page.messages⟩
      | (.error e, page) => ⟨.error e, page.messages⟩

end Stencil
