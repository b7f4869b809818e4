/-
HIGHLIGHTED SPANS. A template is divided into spans of one style each. Outside of directives are the delimiters,
comments that end on the line of their mark, and text; inside are the words of the language, names, literals,
operators and punctuation. Every character belongs to one span, so the spans one after the other are the text.
-/
import Stencil.Reference.Literal

namespace Stencil.Highlight

/-- the style of a span -/
inductive Style where
  | text | other | comment | delimiter | keyword | constant | wordOperator | name | string | number | operator
  | punctuation
  deriving DecidableEq, Repr

/-- the name of a style -/
def Style.title : Style → Text
  | text => "Token.Text"
  | other => "Token.Other"
  | comment => "Token.Comment"
  | delimiter => "Token.Comment.Preproc"
  | keyword => "Token.Keyword"
  | constant => "Token.Keyword.Constant"
  | wordOperator => "Token.Operator.Word"
  | name => "Token.Name.Variable"
  | string => "Token.Literal.String"
  | number => "Token.Literal.Number"
  | operator => "Token.Operator"
  | punctuation => "Token.Punctuation"

/-- a text of one style -/
structure Span where
  style : Style
  text : Text
  deriving DecidableEq, Repr

/-- how a text begins: the style of its first character, how many more characters have it too, perhaps the same
for a second span, and whether a directive is open then -/
structure Opening where
  style : Style
  more : Nat
  second : Option (Style × Nat)
  inside : Bool
  deriving DecidableEq, Repr

/-- an opening of one span with a number of characters -/
def one (style : Style) (length : Nat) (inside : Bool) : Opening := ⟨style, length - 1, none, inside⟩

/-- the number of characters at the beginning that satisfy a test -/
def runLength (p : Char → Bool) (s : Text) : Nat := (s.takeWhile p).length

/-- the number of characters of a comment that a text begins with -/
def commentLength? (s : Text) : Option Nat :=
  (Text.after? "\x7b\x7b" s).bind fun rest =>
    match rest.dropWhile Text.isBlank with
    | '#' :: cs =>
      match Text.cut? "\x7d\x7d" cs with
      | some (before, after) => if before.contains '\n' then none else some (s.length - after.length)
      | none => none
    | _ => none

/-- how a text outside of directives begins -/
def outside (s : Text) : Opening :=
  if Text.startsWith s "\\\x7b\x7b" then one .other 3 false
  else
    match commentLength? s with
    | some n => one .comment n false
    | none =>
      if Text.startsWith s "\x7b\x7b" then one .delimiter 2 true
      else
        let plain := fun (c : Char) => c != '\x7b' && c != '\\'
        one .other (max 1 (runLength plain s)) false

/-- the words that begin and continue directives -/
def keywords : List Text :=
  ["for", "if", "elseif", "else", "section", "form", "field", "submit", "button", "generate", "nolabel", "nosubmit",
   "translate"]

/-- the words that are operators -/
def wordOperators : List Text := ["in", "not", "and", "or"]

/-- the words that are literals -/
def constants : List Text := ["true", "false", "null"]

/-- the operators, a longer one before those it begins with -/
def operators : List Text := ["??", "==", "!=", "<=", ">=", "<", ">", "="]

/-- a mark with a name after it -/
def named? (mark s : Text) : Option Opening :=
  (Text.after? mark s).bind fun rest =>
    let n := runLength Text.isWord rest
    if n == 0 then none else some ⟨.punctuation, mark.length - 1, some (.keyword, n - 1), true⟩

/-- the mark of a closing directive with a name after it -/
def closing? (s : Text) : Option Opening := named? "/" s <|> named? "end" s

/-- a word of the language -/
def word? (s : Text) : Option Opening :=
  let w := s.takeWhile Text.isWord
  if keywords.contains w then some (one .keyword w.length true)
  else if wordOperators.contains w then some (one .wordOperator w.length true)
  else if constants.contains w then some (one .constant w.length true)
  else none

/-- an operator -/
def operator? (s : Text) : Option Opening :=
  (operators.find? fun o => Text.startsWith s o).map fun o => one .operator o.length true

/-- a literal whose end a reader finds -/
def literal? (style : Style) (rest : Option Text) (s : Text) : Option Opening :=
  rest.map fun r => one style (s.length - r.length) true

/-- how a text inside of a directive begins with a certain character -/
def inside (c : Char) (s : Text) : Opening :=
  if Text.startsWith s "\x7d\x7d" then one .delimiter 2 false
  else if Text.isBlank c then one .text (runLength Text.isBlank s) true
  else
    (closing? s <|> word? s <|> operator? s <|>
      literal? .string (Literal.afterQuoted? '"' s <|> Literal.afterQuoted? '\'' s) s <|>
      literal? .number (Literal.afterNumber? s) s).getD
    (if Text.isNameStart c then one .name (runLength Text.isWord s) true
    else if c == '.' || c == '[' || c == ']' || c == ',' then one .punctuation 1 true
    else one .text 1 true)

/-- the spans of a text, given whether a directive is open -/
def spansFrom (isInside : Bool) (s : Text) : List Span :=
  match s with
  | [] => []
  | c :: cs =>
    let o := if isInside then inside c (c :: cs) else outside (c :: cs)
    let rest := cs.drop o.more
    match o.second with
    | none => ⟨o.style, c :: cs.take o.more⟩ :: spansFrom o.inside rest
    | some (style, more) =>
      ⟨o.style, c :: cs.take o.more⟩ :: ⟨style, rest.take (more + 1)⟩ :: spansFrom o.inside (rest.drop (more + 1))
termination_by s.length
decreasing_by
  · simp only [List.length_cons, List.length_drop]
    omega
  · simp only [List.length_cons, List.length_drop]
    omega

/-- a template as it is highlighted: without a byte order mark, with line feeds at the ends of lines, and with one
at the end instead of those at the two ends -/
def normalise (s : Text) : Text :=
  let s := match s with
    | c :: cs => if c.toNat == 0xFEFF then cs else s
    | [] => []
  let s := ((Text.unixLines s).dropWhile (· == '\n')).reverse.dropWhile (· == '\n')
  s.reverse ++ ['\n']

/-- the spans of a template -/
def spans (s : Text) : List Span := spansFrom false (normalise s)

end Stencil.Highlight
