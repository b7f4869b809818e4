/-
TERMINAL COLOURS. Every line of a coloured span stands between the code of its colour and the code that ends it;
line feeds stand outside. The line feeds at the end of the whole are left out.
-/
import Stencil.Highlight.Span

namespace Stencil.Highlight

/-- the number of a style's colour -/
def Style.colour? : Style → Option Nat
  | delimiter => some 36
  | comment => some 37
  | keyword => some 34
  | constant => some 34
  | wordOperator => some 35
  | name => some 31
  | string => some 33
  | number => some 34
  | _ => none

/-- a control sequence that sets colours -/
def sequence (parameters : Text) : Text := Text.cat ["\x1b[", parameters, "m"]

/-- the code that ends a colour -/
def plain : Text := sequence "39;49;00"

/-- a line without its line feed, and the line feed -/
def splitFeed (line : Text) : Text × Text :=
  if line.getLast? == some '\n' then (line.dropLast, ['\n']) else (line, [])

/-- a line in a colour -/
def paintLine (colour : Nat) (line : Text) : Text :=
  let (body, feed) := splitFeed line
  sequence (Text.ofNat colour) ++ body ++ plain ++ feed

/-- a span in its colour -/
def paint (s : Span) : Text :=
  match s.style.colour? with
  | some colour => (Text.lines s.text).flatMap (paintLine colour)
  | none => s.text

/-- a text without the line feeds at its end -/
def dropFeeds (s : Text) : Text := (s.reverse.dropWhile (· == '\n')).reverse

/-- a template in colours -/
def terminal (s : Text) : Text := dropFeeds ((spans s).flatMap paint)

end Stencil.Highlight
