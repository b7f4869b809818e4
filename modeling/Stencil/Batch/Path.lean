/-
PATHS of files in a folder, as lists of names from the folder inwards.
-/
import Stencil.Value.Order

namespace Stencil

/-- a path, by its names -/
abbrev Path := List Text

namespace Path

/-- the names of a path as it is written; empty names and points are left out -/
def ofText (s : Text) : Path := (Text.parts '/' s).filter fun n => !(n.isEmpty || n == ['.'])

/-- a path as it is written -/
def text (p : Path) : Text := Text.sep ['/'] p

/-- a path that does not begin in the folder -/
def isAbsolute (s : Text) : Bool := s.head? == some '/'

/-- the place of a path in a folder of some name -/
def inside (folder : Text) (p : Path) : Text := text (folder :: p)

/-- the order of paths by their names -/
def order : Path → Path → Ordering
  | [], [] => .eq
  | [], _ :: _ => .lt
  | _ :: _, [] => .gt
  | a :: as, b :: bs => if a == b then order as bs else Text.order a b

/-- a path stands before another or at the same place -/
def le (a b : Path) : Bool := order a b != .gt

/-- a name without its suffix: what follows the last point, unless the name begins or ends with it -/
def stem (name : Text) : Text :=
  let suffix := name.reverse.takeWhile (· != '.')
  let rest := name.reverse.drop (suffix.length + 1)
  if suffix.isEmpty || rest.isEmpty then name else rest.reverse

/-- a path with another suffix -/
def withSuffix (suffix : Text) (p : Path) : Path :=
  match p.getLast? with
  | some name => p.dropLast ++ [stem name ++ suffix]
  | none => p

end Path

end Stencil
