/-
TOKENS. A template is a sequence of tokens: literal text, and directives by their kind.
-/
import Stencil.Text.Basic

namespace Stencil

/-- what a token is -/
inductive TokenKind where
  | literal | interpolation | loop | when | elsewhen | otherwise | capture | form | field | submit | button | generate
  | translate | closing | comment
  deriving DecidableEq, Repr

namespace TokenKind

/-- the name of a kind -/
def name : TokenKind → Text
  | literal => "literal"
  | interpolation => "variable"
  | loop => "for"
  | when => "if"
  | elsewhen => "elseif"
  | otherwise => "else"
  | capture => "section"
  | form => "form"
  | field => "field"
  | submit => "submit"
  | button => "button"
  | generate => "generate"
  | translate => "translate"
  | closing => "end"
  | comment => "comment"

/-- every kind -/
def all : List TokenKind :=
  [literal, interpolation, loop, when, elsewhen, otherwise, capture, form, field, submit, button, generate,
   translate, closing, comment]

/-- the kind of that name -/
def ofName? (s : Text) : Option TokenKind := all.find? fun k => k.name == s

end TokenKind

/-- a token: its text without the delimiters, and where it begins -/
structure Token where
  kind : TokenKind
  raw : Text
  position : Nat
  line : Nat
  deriving DecidableEq, Repr

/-- the first word of a directive; literal text has none -/
def Token.keyword (t : Token) : Text :=
  match t.kind with
  | .literal => []
  | _ => Text.firstWord t.raw

end Stencil
