/-
MARKUP ESCAPES. The five characters that have a meaning in markup are written as character references, all
others as they are, so that text stays text in element content and in quoted attribute values.
-/
import Stencil.Text.Basic

namespace Stencil.Text

/-- a character as markup text -/
def escapeChar (c : Char) : Text :=
  if c == '&' then "&amp;"
  else if c == '<' then "&lt;"
  else if c == '>' then "&gt;"
  else if c == '"' then "&quot;"
  else if c == '\'' then "&#x27;"
  else [c]

/-- a text as markup text -/
def escape (s : Text) : Text := s.flatMap escapeChar

/-- the text as markup text if `escaping`, else as it is -/
def escapeIf (escaping : Bool) (s : Text) : Text := if escaping then escape s else s

end Stencil.Text
