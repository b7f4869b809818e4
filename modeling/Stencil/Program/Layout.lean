/-
LAYOUT of code: lines at their indentation. A layout keeps the depth at which the next fragment goes.

`programCode` is the whole code of a template: the head of the render function and the lines of every fragment;
if the settings ask for it, each directive is told in a comment before its lines.
-/
import Stencil.Program.Code
import Stencil.Settings

namespace Stencil

/-- lines of code so far, last first, and the depth of what follows -/
structure Layout where
  depth : Int
  lines : List Text
  deriving DecidableEq, Repr

namespace Layout

/-- no line yet -/
def start (depth : Int) : Layout := ⟨depth, []⟩

/-- a line at a depth -/
def addAt (s : Settings) (depth : Int) (text : Text) (l : Layout) : Layout :=
  { l with lines := (s.indentation depth ++ text) :: l.lines }

/-- a line at the current depth -/
def add (s : Settings) (text : Text) (l : Layout) : Layout := l.addAt s l.depth text

/-- lines at depths relative to the current one, and a change of the current depth -/
def addFragment (s : Settings) (lines : List (Int × Text)) (shift : Int) (l : Layout) : Layout :=
  let l' := lines.foldl (fun acc line => acc.addAt s (l.depth + line.1) line.2) l
  { l' with depth := l.depth + shift }

/-- the lines, each ended by a line feed -/
def source (l : Layout) : Text := Text.sep ['\n'] l.lines.reverse ++ ['\n']

end Layout

/-- the lines of a fragment as code -/
def Fragment.codeLines (f : Fragment) : List (Int × Text) := f.lines.map fun l => (l.depth, l.stmt.code)

/-- the lines that every program begins with -/
def headLines : List (Int × Text) :=
  [(0, "def render(_scope, _r):"), (1, "_loop = None"), (1, "_form = None"), (1, "_write = _r.write"),
   (1, "_emit = _r.emit")]

/-- a comment that tells a directive -/
def remark (t : Token) : Text := Text.cat ["# \x7b\x7b ", Text.sep [' '] (Text.words t.raw), " \x7d\x7d"]

/-- one token's lines added to the code -/
def addToken (s : Settings) (l : Layout) (p : Token × Fragment) : Layout :=
  let l := if s.annotate && p.1.kind != .literal then l.add s (remark p.1) else l
  l.addFragment s p.2.codeLines p.2.shift

/-- the layout of a whole program -/
def programLayout (s : Settings) (parts : List (Token × Fragment)) : Layout :=
  parts.foldl (addToken s) ((Layout.start 0).addFragment s headLines bodyDepth)

/-- the code of a template -/
def programCode (s : Settings) (parts : List (Token × Fragment)) : Text := (programLayout s parts).source

end Stencil
