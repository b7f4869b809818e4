/-
COMPILING A TEMPLATE. The tokens of a template are compiled one after the other; every construct that is opened
must be closed by its own closing directive, innermost first. The first fault is the result, at the token where
it shows; a construct that stays open is a fault at its beginning.

`compile` gives the template's fragments, its code and its program in blocks, along with the messages about it.
-/
import Stencil.Directive.Compile
import Stencil.Log
import Stencil.Program.Layout
import Stencil.Program.Shape
import Stencil.Token.Scan

namespace Stencil

/-- a compiled template -/
structure Template where
  tokens : List Token
  fragments : List Fragment
  code : Text
  program : Block
  escaping : Bool
  deriving Repr

/-- the tokens of a template that is scanned on its own: its settings cut it, and the registry is the standard one -/
def scanAlone (s : Settings) (source : Text) : Except Fault (List Token) :=
  scan s (Registry.standard Settings.standard.comment).classify source

/-- what a compilation is made with; `strict` decides over the settings -/
structure Compiler where
  settings : Settings
  registry : Registry
  strict : Option Bool
  names : List Text

namespace Compiler

/-- the compiler of the language -/
def standard (s : Settings) (strict : Option Bool) (names : List Text) : Compiler :=
  ⟨s, Registry.standard s.comment, strict, names⟩

/-- how references are read -/
def mode (k : Compiler) : Directive.Mode := ⟨k.strict.getD k.settings.strict, k.names⟩

/-- the family that a closing directive names, if it has a closing reader -/
def closedFamily (r : Registry) (t : Token) : Except Refusal (Family × Reader) :=
  match Directive.closing? t.raw with
  | none => .error (.fault (.of (.malformedClosing t.raw) t.raw))
  | some name =>
    match (Family.ofName? name).bind fun f => (r.closer? f).map fun reader => (f, reader) with
    | some p => .ok p
    | none => .error (.fault (.of (.unknownFamily name) t.raw))

/-- a closing directive -/
def close (r : Registry) (t : Token) (c : Context) : Except Refusal (Fragment × Context) := do
  let (family, reader) ← closedFamily r t
  match c.stack with
  | [] => .error (.fault (.of (.nothingToClose t.raw) t.raw))
  | o :: rest =>
    if o.family == some family then
      let f ← reader.last t c
      return (f, { c with stack := rest })
    else .error (.fault (.of (.wrongClosing t.raw o.token.raw o.token.line) t.raw))

/-- a branch must stand directly in a conditional, before its last branch -/
def branch (t : Token) (c : Context) : Except Refusal Context :=
  match c.stack with
  | o :: rest =>
    if o.family == some .conditional then
      if o.closedBranches then .error (.fault (.of (.afterOtherwise t.raw) t.raw))
      else if t.kind == .otherwise then .ok { c with stack := { o with closedBranches := true } :: rest }
      else .ok c
    else .error (.fault (.of (.outsideConditional t.raw) t.raw))
  | [] => .error (.fault (.of (.outsideConditional t.raw) t.raw))

/-- a directive of a registered specification -/
def directive (r : Registry) (m : Directive.Mode) (t : Token) (c : Context) : Except Refusal (Fragment × Context) :=
  match r.match? t.raw with
  | none => .error (.fault (.of (.unknownDirective t.raw) t.raw))
  | some spec => do
    let c ← if t.kind == .elsewhen || t.kind == .otherwise then branch t c else .ok c
    let (f, c) ← spec.reader.first m t c
    if spec.opens then
      let names ← spec.reader.binds t
      return (f, c.push ⟨spec.family, t, names, false⟩)
    else return (f, c)

/-- one token -/
def token (r : Registry) (m : Directive.Mode) (t : Token) (c : Context) : Except Refusal (Fragment × Context) :=
  match t.kind with
  | .literal => Reader.first m t c .literal
  | .comment => Reader.first m t c .comment
  | .interpolation => Reader.first m t c .interpolation
  | .closing => close r t c
  | _ => directive r m t c

/-- tokens one after the other -/
def tokens (r : Registry) (m : Directive.Mode) (c : Context) : List Token → Except Refusal (List Fragment × Context)
  | [] => .ok ([], c)
  | t :: ts =>
    match token r m t c with
    | .error e => .error (e.locate t)
    | .ok (f, c) => (tokens r m c ts).map fun p => (f :: p.1, p.2)

/-- no construct may stay open -/
def checkClosed (c : Context) : Except Refusal Unit :=
  match c.stack with
  | [] => .ok ()
  | o :: _ => .error (.fault (.here (.neverClosed o.token.raw) o.token))

/-- the fragments of tokens -/
def fragments (k : Compiler) (ts : List Token) : Except Refusal (List Fragment) := do
  let (fs, c) ← tokens k.registry k.mode .start ts
  checkClosed c
  return fs

/-- why code of a wrong shape is refused -/
def misshapen : ShapeFault → Refusal
  | .branch => .misplacedBranch
  | .block => .misplacedBlock
  | .depth => .depthLimit

/-- generated code can be loaded; only the comments in it can hold a null character -/
def checkCode (t : Template) : Except Refusal Unit :=
  if t.code.contains '\x00' then .error .nullCharacter
  else do
    (Shape.check (programLines t.fragments)).mapError misshapen
    if loopLimit < t.program.loopDepth then throw .loopLimit
    if readsNames (programLines t.fragments) then throw .unknownName

/-- the tokens of a template -/
def scan (k : Compiler) (source : Text) : Except Refusal (List Token) :=
  (Stencil.scan k.settings k.registry.classify source).mapError .fault

/-- the template of tokens and their fragments -/
def template (k : Compiler) (ts : List Token) (fs : List Fragment) : Template :=
  ⟨ts, fs, programCode k.settings (ts.zip fs), readBlocks (programLines fs), k.settings.escaping⟩

/-- a template compiled -/
def compile (k : Compiler) (source : Text) : Except Refusal Template := do
  let ts ← k.scan source
  let fs ← k.fragments ts
  let template := k.template ts fs
  checkCode template
  return template

/-- the messages about the compilation of a template of some name -/
def messages (k : Compiler) (name source : Text) : List Message :=
  ⟨2, Text.cat ["Compiling ", name, "..."]⟩ ::
    match k.scan source with
    | .error _ => []
    | .ok ts =>
      ⟨3, Text.cat ["Scanned ", Text.ofNat ts.length, " tokens"]⟩ ::
        match k.fragments ts with
        | .error _ => []
        | .ok fs =>
          [⟨3, Text.cat ["Generated ", Text.ofNat (Text.lineFeeds (k.template ts fs).code),
            " lines of render code"]⟩]

end Compiler

end Stencil
