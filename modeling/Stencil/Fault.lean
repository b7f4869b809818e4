/-
FAULTS: why a template does not compile. A fault has a cause, the text of the directive at fault and, once it is
located, the directive's place. The wording of every cause is `Cause.message`.

A template can also be refused because it goes beyond what generated code may hold: `Refusal`.
-/
import Stencil.Token.Basic

namespace Stencil

/-- the kinds of faults -/
inductive FaultKind where
  | unmatched | malformed | unknownFamily | unresolved
  deriving DecidableEq, Repr

/-- the name of a kind -/
def FaultKind.name : FaultKind → Text
  | unmatched => "UnmatchedDirective"
  | malformed => "MalformedDirective"
  | unknownFamily => "UnknownDirectiveFamily"
  | unresolved => "UnresolvedVariablePath"

/-- what is wrong with a template -/
inductive Cause where
  /-- an opening delimiter without a closing one -/
  | unterminated
  /-- an opening delimiter inside a directive -/
  | nestedDelimiter
  /-- a directive of blanks -/
  | emptyDirective
  /-- a text that is no reference -/
  | invalidReference (text : Text)
  /-- a text that is no literal -/
  | invalidLiteral (text : Text)
  /-- a directive that does not follow its grammar -/
  | malformedDirective (keyword raw : Text)
  /-- a loop with the same name for key and item -/
  | repeatedLoopName (raw : Text)
  /-- a loop that takes a reserved name -/
  | reservedLoopName (name : Text)
  /-- a place in a condition where no token begins -/
  | invalidCondition (rest : Text)
  /-- a condition that ends where an operand is due -/
  | incompleteCondition (raw : Text)
  /-- a word of the language where an operand is due -/
  | unexpectedWord (word raw : Text)
  /-- an operator where an operand is due -/
  | operandExpected (found raw : Text)
  /-- a fallback that is no literal -/
  | literalExpected (raw : Text)
  /-- something else where the next clause is to be connected -/
  | connectiveExpected (found raw : Text)
  /-- two sections of one name -/
  | repeatedSection (name : Text)
  /-- a closing directive for a directive that has none -/
  | noClosing (raw : Text)
  /-- a directive that the registry no longer knows -/
  | unknownDirective (raw : Text)
  /-- a closing directive that does not follow its grammar -/
  | malformedClosing (raw : Text)
  /-- a closing directive for a family that is none -/
  | unknownFamily (name : Text)
  /-- a closing directive where nothing is open -/
  | nothingToClose (raw : Text)
  /-- a closing directive of another family than the innermost open construct -/
  | wrongClosing (raw opener : Text) (line : Nat)
  /-- a branch that is not in a conditional -/
  | outsideConditional (raw : Text)
  /-- a branch after the last one -/
  | afterOtherwise (raw : Text)
  /-- a part of a form that is not in one -/
  | outsideForm (raw : Text)
  /-- the end of a section where none is open -/
  | outsideSection (raw : Text)
  /-- a construct that is still open at the end -/
  | neverClosed (raw : Text)
  /-- a reference whose first name is not known -/
  | unresolved (raw root : Text)
  deriving DecidableEq, Repr

namespace Cause

/-- the kind of fault that a cause makes -/
def kind : Cause → FaultKind
  | unknownFamily _ => .unknownFamily
  | nothingToClose _ => .unmatched
  | wrongClosing _ _ _ => .unmatched
  | outsideConditional _ => .unmatched
  | outsideForm _ => .unmatched
  | outsideSection _ => .unmatched
  | neverClosed _ => .unmatched
  | unresolved _ _ => .unresolved
  | _ => .malformed

/-- a text between apostrophes -/
def quote (s : Text) : Text := '\'' :: s ++ ['\'']

/-- what a template's author is told -/
def message : Cause → Text
  | unterminated => "Unterminated directive"
  | nestedDelimiter => "Nested directive delimiter"
  | emptyDirective => "Empty directive"
  | invalidReference text => "Invalid variable reference ".toList ++ quote text
  | invalidLiteral text => "Invalid literal ".toList ++ quote text
  | malformedDirective keyword raw => Text.cat ["Malformed ", quote keyword, " directive: ", quote raw]
  | repeatedLoopName raw => "Duplicate loop variable in ".toList ++ quote raw
  | reservedLoopName name => quote name ++ " is reserved and cannot be a loop variable".toList
  | invalidCondition rest => "Invalid condition near ".toList ++ quote rest
  | incompleteCondition raw => "Incomplete condition in ".toList ++ quote raw
  | unexpectedWord word raw => Text.cat ["Unexpected ", quote word, " in ", quote raw]
  | operandExpected found raw => Text.cat ["Expected operand, found ", quote found, " in ", quote raw]
  | literalExpected raw => "'??' needs a literal in ".toList ++ quote raw
  | connectiveExpected found raw => Text.cat ["Expected 'and'/'or', found ", quote found, " in ", quote raw]
  | repeatedSection name => Text.cat ["Section ", quote name, " is defined twice"]
  | noClosing raw => quote raw ++ " has no end directive".toList
  | unknownDirective raw => "Unknown directive ".toList ++ quote raw
  | malformedClosing raw => "Malformed end directive ".toList ++ quote raw
  | unknownFamily name => "Unknown directive family ".toList ++ quote name
  | nothingToClose raw => quote raw ++ " closes nothing".toList
  | wrongClosing raw opener line =>
    Text.cat [quote raw, " cannot close ", quote opener, " opened at line ", Text.ofNat line]
  | outsideConditional raw => quote raw ++ " is outside of an if".toList
  | afterOtherwise raw => quote raw ++ " follows else".toList
  | outsideForm raw => quote raw ++ " is outside of a form".toList
  | outsideSection raw => quote raw ++ " closes no section".toList
  | neverClosed raw => quote raw ++ " is never closed".toList
  | unresolved raw root =>
    Text.cat ["Unresolved variable path ", quote raw, " (unknown name ", quote root, ")"]

end Cause

/-- a place in a template -/
structure Place where
  position : Nat
  line : Nat
  deriving DecidableEq, Repr

/-- what is wrong, with which directive, and where it stands once that is known -/
structure Fault where
  cause : Cause
  raw : Text
  place : Option Place
  deriving DecidableEq, Repr

/-- where a token begins -/
def Token.place (t : Token) : Place := ⟨t.position, t.line⟩

namespace Fault

/-- a fault of a directive text that is not yet located -/
def of (cause : Cause) (raw : Text) : Fault := ⟨cause, raw, none⟩

/-- a fault of a token, at the token -/
def here (cause : Cause) (t : Token) : Fault := ⟨cause, t.raw, some t.place⟩

/-- the fault at a token, unless it is located already; without a directive text it takes the token's -/
def locate (f : Fault) (t : Token) : Fault :=
  { f with
    place := some (f.place.getD t.place)
    raw := if f.raw.isEmpty then t.raw else f.raw }

end Fault

/-- why a template is not compiled -/
inductive Refusal where
  /-- the template has a fault -/
  | fault (f : Fault)
  /-- an integer of more digits than are read -/
  | digitLimit
  /-- a directive is given to a reader that reads none -/
  | noGrammar
  /-- a null character in the generated code -/
  | nullCharacter
  /-- loops inside loops beyond the greatest depth -/
  | loopLimit
  /-- a line of the generated code beyond the greatest depth -/
  | depthLimit
  /-- a branch in the generated code that continues nothing -/
  | misplacedBranch
  /-- a block in the generated code that is missing or that nothing heads -/
  | misplacedBlock
  /-- a name that is read where it is not known, in generated code behind the function -/
  | unknownName
  deriving DecidableEq, Repr

/-- the refusal, with its fault at a token -/
def Refusal.locate (r : Refusal) (t : Token) : Refusal :=
  match r with
  | .fault f => .fault (f.locate t)
  | r => r

end Stencil
