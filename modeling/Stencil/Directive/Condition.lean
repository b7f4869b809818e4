/-
CONDITIONS. A condition is a sequence of tokens with blanks between them: literals, comparison operators, the
fallback mark ??, and paths. Its tokens follow

    condition := clause (('and' | 'or') clause)*
    clause    := 'not'* operand [operator operand]
    operand   := literal | path | path '??' literal

where the bare words and, or, not are never operands. An even number of nots is none.
-/
import Stencil.Directive.Reading

namespace Stencil.Directive

/-- a token of a condition, by its source text -/
inductive Part where
  | literal (s : Text)
  | operator (op : Comparison)
  | fallback
  | path (s : Text)
  deriving DecidableEq, Repr

/-- the source text of a token -/
def Part.text : Part → Text
  | literal s => s
  | operator op => op.text
  | fallback => "??"
  | path s => s

/-- no word character and no point stands at the beginning -/
def atNumberEnd (s : Text) : Bool :=
  match s with
  | c :: _ => !(Text.isWord c || c == '.')
  | [] => true

/-- the rest after a literal in a condition -/
def afterOperand? (s : Text) : Option Text :=
  Literal.afterQuoted? '"' s <|> Literal.afterQuoted? '\'' s <|> (Literal.afterNumber? s).filter atNumberEnd <|>
    Literal.afterKeyword? s

/-- the operators, those of two characters before those of one -/
def operators : List Comparison := [.eq, .ne, .le, .ge, .lt, .gt]

/-- the operator that a text begins with, and the rest -/
def operator? (s : Text) : Option (Comparison × Text) :=
  operators.findSome? fun op => (Text.after? op.text s).map fun rest => (op, rest)

/-- the token that a text begins with, and the rest -/
def part? (s : Text) : Option (Part × Text) :=
  ((afterOperand? s).map fun rest => (Part.literal (s.take (s.length - rest.length)), rest)) <|>
    ((operator? s).map fun p => (Part.operator p.1, p.2)) <|>
    ((Text.after? ['?', '?'] s).map fun rest => (Part.fallback, rest)) <|>
    ((Reference.takePath? s).map fun p => (Part.path p.1, p.2))

/-- the tokens of a condition's text without blanks at its end; at most `n` of them -/
def partsUpTo : Nat → Text → Except Cause (List Part)
  | _, [] => .ok []
  | 0, s => .error (.invalidCondition (Text.strip s))
  | n + 1, c :: cs =>
    match part? ((c :: cs).dropWhile Text.isBlank) with
    | none => .error (.invalidCondition (Text.strip (c :: cs)))
    | some (p, rest) => (partsUpTo n rest).map (p :: ·)

/-- the tokens of a condition -/
def parts (s : Text) : Except Cause (List Part) :=
  let s := Text.stripEnd s
  partsUpTo s.length s

/-- the bare words that are no operands -/
def reservedWords : List Text := ["and", "or", "not"]

/-- an operand, and the tokens after it -/
def operand (m : Mode) (bound : List Text) (raw : Text) : List Part → Except Refusal (Expr × List Part)
  | [] => .error (.fault (.of (.incompleteCondition raw) raw))
  | .literal s :: rest => (m.operand bound true s).map fun e => (e, rest)
  | .path s :: rest =>
    if reservedWords.contains s then .error (.fault (.of (.unexpectedWord s raw) raw))
    else
      match rest with
      | .fallback :: rest =>
        match rest with
        | [] => .error (.fault (.of (.literalExpected raw) raw))
        | p :: rest =>
          if Literal.isLiteral p.text then
            (m.operand bound true (Text.cat [s, " ?? ", p.text])).map fun e => (e, rest)
          else .error (.fault (.of (.literalExpected raw) raw))
      | rest => (m.operand bound true s).map fun e => (e, rest)
  | p :: _ => .error (.fault (.of (.operandExpected p.text raw) raw))

/-- the tokens after the nots at the beginning, and whether the nots negate -/
def nots : List Part → Bool × List Part
  | .path s :: rest =>
    if s == "not".toList then
      let (negated, after) := nots rest
      (!negated, after)
    else (false, .path s :: rest)
  | ps => (false, ps)

/-- a clause, and the tokens after it -/
def clause (m : Mode) (bound : List Text) (raw : Text) (ps : List Part) : Except Refusal (Clause × List Part) := do
  let (negated, ps) := nots ps
  let (left, ps) ← operand m bound raw ps
  match ps with
  | .operator op :: ps =>
    let (right, ps) ← operand m bound raw ps
    return (⟨negated, .compare op left right⟩, ps)
  | ps => return (⟨negated, .truth left⟩, ps)

/-- the connective that a token is -/
def connective? : Part → Option Connective
  | .path s => if s == "and".toList then some .and else if s == "or".toList then some .or else none
  | _ => none

/-- the clauses after the first, each with its connective; at most `n` of them -/
def clausesUpTo (m : Mode) (bound : List Text) (raw : Text) :
    Nat → List Part → Except Refusal (List (Connective × Clause))
  | _, [] => .ok []
  | 0, p :: _ => .error (.fault (.of (.connectiveExpected p.text raw) raw))
  | n + 1, p :: ps =>
    match connective? p with
    | none => .error (.fault (.of (.connectiveExpected p.text raw) raw))
    | some c => do
      let (cl, ps) ← clause m bound raw ps
      let more ← clausesUpTo m bound raw n ps
      return (c, cl) :: more

/-- the condition of a directive's text `raw` -/
def condition (m : Mode) (bound : List Text) (raw text : Text) : Except Refusal Condition :=
  match parts text with
  | .error cause => .error (.fault (.of cause raw))
  | .ok ps => do
    let (first, rest) ← clause m bound raw ps
    let more ← clausesUpTo m bound raw rest.length rest
    return ⟨first, more⟩

end Stencil.Directive
