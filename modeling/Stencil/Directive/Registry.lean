/-
THE REGISTRY of directives. A specification says by which spellings a directive begins, what kind of token it is,
which reader compiles it and which family closes it. A directive text belongs to the specification with the
longest spelling that it begins with as a whole word; of two registered under one spelling the later counts.

`classify` gives the kind of a directive text: a comment by its mark, then a registered spelling, then a closing
directive, else an interpolation.
-/
import Stencil.Keyed
import Stencil.Token.Basic

namespace Stencil

/-- the families of constructs with a closing directive -/
inductive Family where
  | loop | conditional | capture | form | phrase
  deriving DecidableEq, Repr

namespace Family

/-- the name in a closing directive -/
def name : Family → Text
  | loop => "for"
  | conditional => "if"
  | capture => "section"
  | form => "form"
  | phrase => "translate"

/-- every family -/
def all : List Family := [loop, conditional, capture, form, phrase]

/-- the family of that name -/
def ofName? (s : Text) : Option Family := all.find? fun f => f.name == s

end Family

/-- the readers of directives -/
inductive Reader where
  | blank | literal | interpolation | loop | conditional | elsewhen | otherwise | capture | form | field | submit
  | button | generate | phrase | comment
  deriving DecidableEq, Repr

/-- a specification; `serial` is the number of its registration -/
structure Spec where
  keyword : Text
  kind : TokenKind
  description : Text
  reader : Reader
  family : Option Family
  opens : Bool
  examples : List Text
  aliases : List Text
  serial : Nat
  deriving DecidableEq, Repr

namespace Spec

/-- the spellings of a directive -/
def spellings (s : Spec) : List Text := s.keyword :: s.aliases

/-- the text begins with the spelling, and then a blank or the end -/
def beginsWith (raw spelling : Text) : Bool :=
  match Text.after? spelling raw with
  | some [] => true
  | some (c :: _) => Text.isBlank c
  | none => false

/-- the longer of two spellings, the first if they are of one length -/
def longer (best : Option Text) (s : Text) : Option Text :=
  match best with
  | some t => if t.length < s.length then some s else some t
  | none => some s

/-- the longest spelling that the text begins with -/
def spelling? (s : Spec) (raw : Text) : Option Text :=
  (s.spellings.filter (beginsWith raw)).foldl longer none

end Spec

/-- the registered specifications by spelling, and the reader that closes each family -/
structure Registry where
  comment : Text
  specs : List (Text × Spec)
  families : List (Family × Reader)
  count : Nat
  deriving Repr

namespace Registry

/-- no directive registered -/
def empty (comment : Text) : Registry := ⟨comment, [], [], 0⟩

/-- the registry with one specification more -/
def register (r : Registry) (spec : Spec) : Registry :=
  let spec := { spec with serial := r.count }
  { r with
    specs := spec.spellings.foldl (fun acc s => putAt s spec acc) r.specs
    families := match spec.family, spec.opens with
      | some f, true => putAt f spec.reader r.families
      | _, _ => r.families
    count := r.count + 1 }

/-- the specification of a spelling -/
def get? (r : Registry) (spelling : Text) : Option Spec := (r.specs.find? fun e => e.1 == spelling).map (·.2)

/-- the better of what was found and a specification: the longer spelling, the earlier of equal ones -/
def better (raw : Text) (best : Option (Spec × Nat)) (spec : Spec) : Option (Spec × Nat) :=
  match spec.spelling? raw with
  | none => best
  | some s =>
    match best with
    | some (_, n) => if n < s.length then some (spec, s.length) else best
    | none => some (spec, s.length)

/-- the specification that a directive text belongs to -/
def match? (r : Registry) (raw : Text) : Option Spec :=
  ((r.specs.map (·.2)).foldl (better raw) none).map (·.1)

/-- the text begins as a closing directive: a slash, or end and a letter -/
def beginsClosing (raw : Text) : Bool :=
  match raw with
  | '/' :: _ => true
  | 'e' :: 'n' :: 'd' :: c :: _ => Text.isNameStart c
  | _ => false

/-- the kind of a directive text -/
def classify (r : Registry) (raw : Text) : TokenKind :=
  if Text.startsWith raw r.comment then .comment
  else
    match r.match? raw with
    | some spec => spec.kind
    | none => if beginsClosing raw then .closing else .interpolation

/-- the reader that closes a family -/
def closer? (r : Registry) (f : Family) : Option Reader := (r.families.find? fun e => e.1 == f).map (·.2)

/-- a specification added to a list, unless it is there -/
def addNew (seen : List Spec) (s : Spec) : List Spec := if seen.any (·.serial == s.serial) then seen else seen ++ [s]

/-- the specifications of a family, each once -/
def ofFamily (r : Registry) (f : Family) : List Spec :=
  ((r.specs.map (·.2)).filter fun s => s.family == some f).foldl addNew []

/-- the spellings in the order of registration -/
def spellings (r : Registry) : List Text := r.specs.map (·.1)

/-- the registry without a spelling -/
def dropSpelling (r : Registry) (s : Text) : Registry := { r with specs := r.specs.filter fun e => !(e.1 == s) }

/-- the registry without the closing reader of a family -/
def dropFamily (r : Registry) (f : Family) : Registry :=
  { r with families := r.families.filter fun e => !(e.1 == f) }

end Registry

/-- a directive that opens a construct -/
def construct (keyword : Text) (kind : TokenKind) (description : Text) (reader : Reader) (family : Family)
    (examples : List Text) : Spec :=
  ⟨keyword, kind, description, reader, some family, true, examples, [], 0⟩

/-- a directive that opens nothing -/
def inlined (keyword : Text) (kind : TokenKind) (description : Text) (reader : Reader) (family : Option Family)
    (examples aliases : List Text) : Spec :=
  ⟨keyword, kind, description, reader, family, false, examples, aliases, 0⟩

/-- a template text of directives between literal texts; every second text is a directive -/
def exampleText : List Text → Text
  | [] => []
  | [t] => t
  | t :: d :: rest => t ++ Text.cat ["\x7b\x7b ", d, " \x7d\x7d"] ++ exampleText rest

/-- the directives of the language -/
def builtIn : List Spec :=
  [ construct "for" .loop "Iterate over a sequence or mapping, exposing loop metadata" .loop .loop
      [exampleText ["", "for user in users", "", "user.name", "", "endfor"],
       exampleText ["", "for key, value in settings", "", "key", "=", "value", "", "/for"]],
    construct "if" .when "Render the body when the condition holds" .conditional .conditional
      [exampleText ["", "if user.admin", "Admin", "endif"],
       exampleText ["", "if count > 1 and not hidden", "...", "/if"]],
    construct "section" .capture "Capture a named block for reuse" .capture .capture
      [exampleText ["", "section sidebar", "<nav>...</nav>", "endsection"]],
    construct "form" .form "Open a form bound to a data entity" .form .form
      [exampleText ["", "form user method=\"post\"", "", "field email", "", "endform"]],
    construct "translate" .translate "Localized text for a key; the body is the fallback" .phrase .phrase
      [exampleText ["", "translate greeting name=user.name", "Hello!", "endtranslate"]],
    inlined "elseif" .elsewhen "Alternate conditional branch" .elsewhen (some .conditional)
      [exampleText ["", "elseif user.editor"]] ["else if"],
    inlined "else" .otherwise "Final conditional branch" .otherwise (some .conditional) [exampleText ["", "else"]] [],
    inlined "field" .field "Labelled input for an entity field inside a form" .field none
      [exampleText ["", "field email"], exampleText ["", "field id nolabel"],
       exampleText ["", "field bio class=\"wide\""]] [],
    inlined "submit" .submit "Submit input inside a form" .submit none
      [exampleText ["", "submit"], exampleText ["", "submit value=\"Send\""]] [],
    inlined "button" .button "Button inside a form; its value attribute is the text" .button none
      [exampleText ["", "button type=\"reset\" value=\"Clear\""]] [],
    inlined "generate" .generate "Complete form with inputs for every mapped field" .generate none
      [exampleText ["", "generate user"], exampleText ["", "generate user nosubmit method=\"post\""]] [] ]

/-- the registry of the language, with a comment mark -/
def Registry.standard (comment : Text) : Registry := builtIn.foldl Registry.register (Registry.empty comment)

end Stencil
