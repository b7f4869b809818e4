/-
SETTINGS of a compilation: the delimiters, the mark of a comment, the indentation of the generated code and the
modes. The marks are never empty and the indentation is never zero: `make?` refuses other settings.
-/
import Stencil.Text.Basic

namespace Stencil

/-- how templates are scanned, compiled and rendered -/
structure Settings where
  /-- the mark that opens a directive -/
  opening : Text
  /-- the mark that closes a directive -/
  closing : Text
  /-- the mark that turns a directive into a comment -/
  comment : Text
  /-- unknown names and missing paths are errors -/
  strict : Bool
  /-- spaces for each level of the generated code -/
  indent : Nat
  /-- the generated code tells the directive it comes from -/
  annotate : Bool
  /-- markup characters of interpolated values are escaped -/
  escaping : Bool
  opening_ne : opening ≠ []
  closing_ne : closing ≠ []
  comment_ne : comment ≠ []
  indent_pos : 0 < indent

namespace Settings

/-- the settings in force where nothing else is said -/
def standard : Settings where
  opening := ['\x7b', '\x7b']
  closing := ['\x7d', '\x7d']
  comment := ['#']
  strict := false
  indent := 4
  annotate := false
  escaping := true
  opening_ne := by decide
  closing_ne := by decide
  comment_ne := by decide
  indent_pos := by decide

instance : Inhabited Settings := ⟨standard⟩

/-- settings of the given parts, if the marks are not empty and the indentation is not zero -/
def make? (opening closing comment : Text) (strict : Bool) (indent : Int) (annotate escaping : Bool) :
    Option Settings :=
  if h : opening ≠ [] ∧ closing ≠ [] ∧ comment ≠ [] ∧ 0 < indent.toNat then
    some ⟨opening, closing, comment, strict, indent.toNat, annotate, escaping, h.1, h.2.1, h.2.2.1, h.2.2.2⟩
  else none

/-- the spaces in front of a line of the generated code; a depth below zero has none -/
def indentation (s : Settings) (depth : Int) : Text := List.replicate (s.indent * depth.toNat) ' '

end Settings

end Stencil
