/-
COMPILING DIRECTIVES. A reader turns the token that begins a construct into its first fragment, and the token that
ends it into its last one; what stands between is compiled on its own. The context of a compilation holds the open
constructs, the names of the sections so far and the number of temporaries taken.

- A loop tests that its path reaches something, materialises the entries, opens a loop and a scope layer and binds
  its names in every iteration; an absent value makes an empty loop, in strict mode too.
- A branch of a conditional heads a block that begins with `pass`.
- A section captures its body; its name must be new.
- A form opens the form, writes its opening tag and binds it in a scope layer; its parts need an open form.
- A phrase is written in the language of the render if the catalog has it; its body is the alternative.
-/
import Stencil.Directive.Grammar

namespace Stencil

/-- an open construct -/
structure OpenConstruct where
  family : Option Family
  token : Token
  /-- the names it binds for its body -/
  names : List Text
  /-- its last branch has begun -/
  closedBranches : Bool
  deriving DecidableEq, Repr

/-- the state of a compilation; the innermost construct comes first -/
structure Context where
  stack : List OpenConstruct
  sections : List Text
  counter : Nat
  deriving DecidableEq, Repr

namespace Context

/-- nothing compiled yet -/
def start : Context := ⟨[], [], 0⟩

/-- a construct opened -/
def push (c : Context) (o : OpenConstruct) : Context := { c with stack := o :: c.stack }

/-- the innermost open construct of a family -/
def find? (c : Context) (f : Family) : Option OpenConstruct := c.stack.find? fun o => o.family == some f

/-- the names that the open constructs bind -/
def bound (c : Context) : List Text := c.stack.reverse.flatMap (·.names)

/-- the number of a new temporary -/
def fresh (c : Context) : Nat × Context := (c.counter + 1, { c with counter := c.counter + 1 })

end Context

namespace Directive

/-- names that constructs bind and loops cannot take -/
def reservedNames : List Text := ["loop", "form"]

/-- a directive that does not follow its grammar -/
def malformed {α : Type} (t : Token) : Except Refusal α :=
  .error (.fault (.of (.malformedDirective t.keyword t.raw) t.raw))

/-- the parts of a directive, if it follows its grammar -/
def require {α : Type} (t : Token) (parts : Option α) : Except Refusal α :=
  match parts with
  | some p => .ok p
  | none => malformed t

/-- the parts of a loop whose names are different and not reserved -/
def loopParts (t : Token) : Except Refusal LoopParts := do
  let p ← require t (loop? t.raw)
  if p.names.length == 2 && p.names[0]? == p.names[1]? then
    .error (.fault (.of (.repeatedLoopName t.raw) t.raw))
  else
    match p.names.find? fun n => reservedNames.contains n with
    | some n => .error (.fault (.of (.reservedLoopName n) t.raw))
    | none => .ok p

/-- the names a loop binds, and the halves of the entry they are bound to -/
def loopBinds (names : List Text) (key item : Nat) : List Stmt :=
  match names with
  | [n] => [.bind n (.item item)]
  | n :: m :: _ => [.bind n (.key key), .bind m (.item item)]
  | [] => []

/-- the beginning of a loop -/
def startLoop (m : Mode) (t : Token) (c : Context) : Except Refusal (Fragment × Context) := do
  let p ← loopParts t
  let guard ← m.reached c.bound p.path
  let value ← m.value c.bound true p.path
  let (items, c) := c.fresh
  let (key, c) := c.fresh
  let (item, c) := c.fresh
  let lines : List Line :=
    [⟨0, .whenReached guard⟩, ⟨1, .iterate items value⟩, ⟨1, .loopOpen items⟩, ⟨1, .scopeLoop⟩,
     ⟨1, .forEach key item items⟩, ⟨2, .iterationBegin key⟩] ++ (loopBinds p.names key item).map fun s => ⟨2, s⟩
  return (⟨lines, 2⟩, c)

/-- the end of a loop -/
def endLoop : Fragment := ⟨[⟨0, .iterationEnd⟩, ⟨-1, .scopeClose⟩, ⟨-1, .loopClose⟩], -2⟩

/-- the beginning of a section -/
def startCapture (t : Token) (c : Context) : Except Refusal (Fragment × Context) := do
  let name ← require t (capture? t.raw)
  if c.sections.contains name then .error (.fault (.of (.repeatedSection name) t.raw))
  else return (.statements [.captureBegin], { c with sections := c.sections ++ [name] })

/-- the end of the innermost section -/
def endCapture (t : Token) (c : Context) : Except Refusal Fragment :=
  match c.find? .capture with
  | none => .error (.fault (.of (.outsideSection t.raw) t.raw))
  | some o => (require o.token (capture? o.token.raw)).map fun name => .statements [.captureEnd name]

/-- the beginning of a form -/
def startForm (m : Mode) (t : Token) (c : Context) : Except Refusal Fragment := do
  let p ← require t (form? t.raw)
  let r ← Reference.parse p.subject
  let value ← m.value c.bound true p.subject
  return .statements [.formOpen value r.lastName (attributes p.options), .writeFormOpen, .scopeForm]

/-- the end of a form -/
def endForm : Fragment := .statements [.writeFormClose, .scopeClose, .formClose]

/-- the parts of a directive that stands inside a form -/
def requireInForm {α : Type} (t : Token) (c : Context) (parts : Option α) : Except Refusal α := do
  let p ← require t parts
  if (c.find? .form).isNone then .error (.fault (.of (.outsideForm t.raw) t.raw)) else return p

/-- a field of a form -/
def fieldFragment (t : Token) (c : Context) : Except Refusal Fragment := do
  let p ← requireInForm t c (field? t.raw)
  return .statements [.field p.subject (attributes p.options) (!(flags p.options).contains noLabel)]

/-- a form generated from the field mapping -/
def generateFragment (m : Mode) (t : Token) (c : Context) : Except Refusal Fragment := do
  let p ← require t (generate? t.raw)
  let r ← Reference.parse p.subject
  let value ← m.value c.bound true p.subject
  return .statements
    [.generate value r.lastName (attributes p.options) (!(flags p.options).contains noSubmit)]

/-- the beginning of a phrase -/
def startPhrase (m : Mode) (t : Token) (c : Context) : Except Refusal (Fragment × Context) := do
  let p ← require t (phrase? t.raw)
  let ps ← (params p.params).mapM fun (n, v) => (m.operand c.bound true v).map fun e => (n, e)
  let (text, c) := c.fresh
  return (⟨[⟨0, .translate text p.key ps⟩, ⟨0, .whenText text⟩, ⟨1, .writeText text⟩, ⟨0, .otherwise⟩, ⟨1, .pass⟩], 1⟩,
    c)

end Directive

namespace Reader

open Directive

/-- the fragment of the token that a reader is given first -/
def first (m : Mode) (t : Token) (c : Context) : Reader → Except Refusal (Fragment × Context)
  | blank => .error .noGrammar
  | literal => .ok (.statements [.write t.raw], c)
  | interpolation => (m.value c.bound false t.raw).map fun e => (.statements [.emit e], c)
  | loop => startLoop m t c
  | conditional => do
    let text ← require t (when? t.raw)
    let cond ← condition m c.bound t.raw text
    return (⟨[⟨0, .when cond⟩, ⟨1, .pass⟩], 1⟩, c)
  | elsewhen => do
    let text ← require t (elsewhen? t.raw)
    let cond ← condition m c.bound t.raw text
    return (⟨[⟨-1, .elsewhen cond⟩, ⟨0, .pass⟩], 0⟩, c)
  | otherwise =>
    if isOtherwise t.raw then .ok (⟨[⟨-1, .otherwise⟩, ⟨0, .pass⟩], 0⟩, c) else malformed t
  | capture => startCapture t c
  | form => (startForm m t c).map fun f => (f, c)
  | field => (fieldFragment t c).map fun f => (f, c)
  | submit => do
    let options ← requireInForm t c (keywordOptions? "submit" t.raw)
    return (.statements [.submit (attributes options)], c)
  | button => do
    let options ← requireInForm t c (keywordOptions? "button" t.raw)
    return (.statements [.button (attributes options)], c)
  | generate => (generateFragment m t c).map fun f => (f, c)
  | phrase => startPhrase m t c
  | comment => .ok (.empty, c)

/-- the fragment of the token that closes a construct -/
def last (t : Token) (c : Context) : Reader → Except Refusal Fragment
  | loop => .ok endLoop
  | conditional => .ok ⟨[], -1⟩
  | elsewhen => .ok ⟨[], -1⟩
  | capture => endCapture t c
  | form => .ok endForm
  | phrase => .ok ⟨[], -1⟩
  | _ => .error (.fault (.of (.noClosing t.raw) t.raw))

/-- the names that a construct binds for its body -/
def binds (t : Token) : Reader → Except Refusal (List Text)
  | loop => (loopParts t).map fun p => "loop".toList :: p.names
  | form => .ok ["form"]
  | _ => .ok []

/-- the family a reader is made for -/
def family? : Reader → Option Family
  | loop => some .loop
  | conditional => some .conditional
  | elsewhen => some .conditional
  | otherwise => some .conditional
  | capture => some .capture
  | form => some .form
  | phrase => some .phrase
  | _ => none

end Reader

end Stencil
