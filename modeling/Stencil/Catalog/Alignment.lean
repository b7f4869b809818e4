/-
ALIGNMENT of a text in a field. The text is cut to the precision, then padded to the width. The type is s; signs,
z, #, grouping and the side `=` have no meaning for texts and are flaws.
-/
import Stencil.Catalog.Specification

namespace Stencil

/-- how a text is set in a field -/
structure Alignment where
  fill : Char
  side : Side
  width : Nat
  precision : Option Nat
  deriving DecidableEq, Repr

namespace Alignment

/-- the alignment of a text that a specification stands for -/
def ofSpecification (owner : Text) (f : Specification) : Except Flaw Alignment := do
  if let some t := f.type then
    if t != 's' then throw (.unknownType t owner)
  if let some mark := f.sign then throw (.sign mark)
  if f.coercion then throw .zeroCoercion
  if f.alternate then throw .alternate
  if f.side == some .afterSign then throw .afterSign
  return ⟨f.fill.getD (if f.zero then '0' else ' '), f.side.getD .left, f.width.getD 0, f.precision⟩

/-- a text set in its field -/
def apply (a : Alignment) (s : Text) : Text :=
  let s := match a.precision with
    | some n => s.take n
    | none => s
  let space := a.width - s.length
  let before := match a.side with
    | .right => space
    | .center => space / 2
    | _ => 0
  List.replicate before a.fill ++ s ++ List.replicate (space - before) a.fill

end Alignment

end Stencil
