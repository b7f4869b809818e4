/-
GRAMMARS of the single directives, other than conditions and options. Each takes the whole text of a directive
and gives its parts, or nothing if the text does not follow the grammar.

    loop        for NAME [, NAME] in PATH
    branch      if CONDITION, elseif CONDITION, else if CONDITION
    capture     section NAME
    form        form PATH OPTIONS
    field       field NAME OPTIONS
    submit      submit OPTIONS, button OPTIONS
    generate    generate PATH OPTIONS
    translate   translate KEY (NAME = OPERAND)*
    closing     /NAME, endNAME
-/
import Stencil.Directive.Condition
import Stencil.Directive.Options

namespace Stencil.Directive

/-- the rest after one blank or more -/
def afterBlanks? (s : Text) : Option Text :=
  match s with
  | c :: cs => if Text.isBlank c then some (cs.dropWhile Text.isBlank) else none
  | [] => none

/-- the rest after a word and the blanks that follow it -/
def afterWord? (word s : Text) : Option Text := (Text.after? word s).bind afterBlanks?

/-- the names of a loop and the path it runs over -/
structure LoopParts where
  names : List Text
  path : Text
  deriving DecidableEq, Repr

/-- the second name of a loop, and the rest -/
def secondName? (s : Text) : Option (Text × Text) :=
  (Text.after? [','] (s.dropWhile Text.isBlank)).bind fun rest => Reference.name? (rest.dropWhile Text.isBlank)

/-- the path of a loop, after blanks, in, and blanks -/
def loopPath? (s : Text) : Option Text :=
  (((afterBlanks? s).bind (afterWord? "in")).bind Reference.takePath?).bind fun p =>
    if p.2.isEmpty then some p.1 else none

/-- the parts of a loop -/
def loop? (s : Text) : Option LoopParts :=
  (afterWord? "for" s).bind fun s =>
    (Reference.name? s).bind fun (n, rest) =>
      match secondName? rest with
      | some (m, rest) => (loopPath? rest).map fun p => ⟨[n, m], p⟩
      | none => (loopPath? rest).map fun p => ⟨[n], p⟩

/-- what follows blanks, which must not be empty: the last of two blanks or more counts as something -/
def afterBlanksSome? (s : Text) : Option Text :=
  (afterBlanks? s).bind fun rest =>
    if rest.isEmpty then
      if 2 ≤ s.length then some (s.drop (s.length - 1)) else none
    else some rest

/-- the condition of the first branch -/
def when? (s : Text) : Option Text := (Text.after? "if" s).bind afterBlanksSome?

/-- the condition of another branch -/
def elsewhen? (s : Text) : Option Text :=
  ((Text.after? "elseif" s).bind afterBlanksSome?) <|>
    (((afterWord? "else" s).bind (Text.after? "if")).bind afterBlanksSome?)

/-- the directive of the last branch -/
def isOtherwise (s : Text) : Bool := s == "else".toList

/-- the name of a section -/
def capture? (s : Text) : Option Text :=
  (afterWord? "section" s).bind fun n =>
    match n with
    | c :: cs => if Text.isNameStart c && cs.all isAttributeChar then some n else none
    | [] => none

/-- a path or name and the options after it -/
structure Optioned where
  subject : Text
  options : Text
  deriving DecidableEq, Repr

/-- a path and options -/
def pathAndOptions? (word : Option Text) (s : Text) : Option Optioned :=
  (Reference.takePath? s).bind fun p => if areOptions word p.2 then some ⟨p.1, p.2⟩ else none

/-- the entity and the attributes of a form -/
def form? (s : Text) : Option Optioned := (afterWord? "form" s).bind (pathAndOptions? none)

/-- the bare word by which a field has no label -/
def noLabel : Text := "nolabel"

/-- the bare word by which a generated form has no submit button -/
def noSubmit : Text := "nosubmit"

/-- the name and the options of a field -/
def field? (s : Text) : Option Optioned :=
  ((afterWord? "field" s).bind Reference.name?).bind fun p =>
    if areOptions (some noLabel) p.2 then some ⟨p.1, p.2⟩ else none

/-- the entity and the options of a generated form -/
def generate? (s : Text) : Option Optioned := (afterWord? "generate" s).bind (pathAndOptions? (some noSubmit))

/-- the options after a keyword -/
def keywordOptions? (keyword s : Text) : Option Text :=
  (Text.after? keyword s).bind fun rest => if areOptions none rest then some rest else none

/-- a character that may continue the key of a phrase -/
def isKeyChar (c : Char) : Bool := isAttributeChar c || c == '.'

/-- the rest after a name, an equals sign with blanks around it -/
def afterEquals? (s : Text) : Option (Text × Text) :=
  (Reference.name? s).bind fun (n, rest) =>
    (Text.after? ['='] (rest.dropWhile Text.isBlank)).map fun rest => (n, rest.dropWhile Text.isBlank)

/-- the rest after an operand that ends at a blank or the end -/
def afterParamOperand? (s : Text) : Option Text :=
  ((Literal.after? s).filter atBlank) <|> (((Reference.takePath? s).map (·.2)).filter atBlank)

/-- a text of parameters, each after blanks; at most `n` of them -/
def areParamsUpTo : Nat → Text → Bool
  | _, [] => true
  | 0, _ => false
  | n + 1, c :: cs =>
    Text.isBlank c &&
      match (afterEquals? (cs.dropWhile Text.isBlank)).bind fun p => afterParamOperand? p.2 with
      | some rest => areParamsUpTo n rest
      | none => false

/-- the key and the parameters of a phrase -/
structure PhraseParts where
  key : Text
  params : Text
  deriving DecidableEq, Repr

/-- the parts of a phrase -/
def phrase? (s : Text) : Option PhraseParts :=
  (afterWord? "translate" s).bind fun s =>
    match s with
    | c :: cs =>
      let rest := cs.dropWhile isKeyChar
      if Text.isNameStart c && areParamsUpTo rest.length rest then some ⟨c :: cs.takeWhile isKeyChar, rest⟩ else none
    | [] => none

/-- the source text of a literal or else a path that a text begins with, and the rest -/
def takeOperand? (s : Text) : Option (Text × Text) := Literal.take? s <|> Reference.takePath? s

/-- the parameter that a text begins with, and the rest -/
def param? (s : Text) : Option ((Text × Text) × Text) :=
  (afterEquals? s).bind fun (n, rest) => (takeOperand? rest).map fun (v, rest) => ((n, v), rest)

/-- the parameters that stand in a text, each where one first begins; `n` characters are looked at -/
def paramsUpTo : Nat → Text → List (Text × Text)
  | 0, _ => []
  | _, [] => []
  | n + 1, c :: cs =>
    match param? (c :: cs) with
    | some (p, rest) => p :: paramsUpTo n rest
    | none => paramsUpTo n cs

/-- the parameters of a text, by name and operand -/
def params (s : Text) : List (Text × Text) := paramsUpTo s.length s

/-- the family's name in a closing directive -/
def closing? (s : Text) : Option Text :=
  (Text.after? ['/'] s <|> Text.after? "end" s).bind fun rest =>
    match rest.dropWhile Text.isBlank with
    | c :: cs => if Text.isNameStart c && cs.all Text.isWord then some (c :: cs) else none
    | [] => none

end Stencil.Directive
