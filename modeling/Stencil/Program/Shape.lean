/-
THE SHAPE OF CODE. Lines are at the indentation of their depth, and none is left of the margin. A line that heads a
block is followed by a deeper one; no other line is. A branch continues a conditional of its own level, a last
branch also a loop, and nothing stands between them. There are fewer than `depthLimit` levels.

The function of a template ends at the first line on the margin. What stands there runs when the code is loaded,
where no name of the function is known: `readsNames` says that it would read one.
-/
import Stencil.Program.Block
import Stencil.Program.Eval

namespace Stencil

/-- what is wrong with the shape of code -/
inductive ShapeFault where
  /-- a branch without a conditional -/
  | branch
  /-- a block that is missing, or one that nothing heads -/
  | block
  /-- too many levels -/
  | depth
  deriving DecidableEq, Repr

/-- how the last statement of a level can be continued -/
inductive Sequel where
  | nothing | branches | otherwise
  deriving DecidableEq, Repr

/-- a level of lines that is open -/
structure Level where
  depth : Nat
  sequel : Sequel
  deriving DecidableEq, Repr

/-- the open levels, the innermost first, and whether the last line heads a block -/
structure Shape where
  levels : List Level
  headed : Bool
  deriving DecidableEq, Repr

/-- how many levels there are at most -/
def depthLimit : Nat := 100

/-- the depth at which a line is laid out -/
def Line.margin (l : Line) : Nat := l.depth.toNat

/-- how a statement can be continued -/
def Stmt.sequel : Stmt → Sequel
  | .forEach _ _ _ => .otherwise
  | .otherwise => .nothing
  | s => if s.heads then .branches else .nothing

namespace Shape

/-- the shape in the body of the function -/
def start : Shape := ⟨[⟨1, .nothing⟩, ⟨0, .nothing⟩], false⟩

/-- a line at a depth: the level to which it belongs becomes the innermost one -/
def enter (d : Nat) (s : Shape) : Except ShapeFault (List Level) :=
  match s.levels with
  | [] => .error .block
  | l :: _ =>
    if l.depth < d then
      if !s.headed then .error .block
      else if depthLimit ≤ s.levels.length then .error .depth
      else .ok (⟨d, .nothing⟩ :: s.levels)
    else if s.headed then .error .block
    else
      match s.levels.dropWhile fun l => d < l.depth with
      | [] => .error .block
      | l :: ls => if l.depth == d then .ok (l :: ls) else .error .block

/-- a statement can stand in a level -/
def admits (l : Level) : Stmt → Bool
  | .elsewhen _ => l.sequel == .branches
  | .otherwise => l.sequel != .nothing
  | _ => true

/-- a line more -/
def add (s : Shape) (line : Line) : Except ShapeFault Shape := do
  match ← s.enter line.margin with
  | [] => throw .block
  | l :: ls =>
    if admits l line.stmt then return ⟨⟨l.depth, line.stmt.sequel⟩ :: ls, line.stmt.heads⟩ else throw .branch

/-- lines of the function and behind it have a shape -/
def check (lines : List Line) : Except ShapeFault Unit := do
  let s ← lines.foldlM add start
  if s.headed then throw .block

end Shape

/-- no name is known -/
def unknownReach : Reach := fun _ => .error (.unknownName [])

/-- whether a block reads a name when no name is known; `ran` says whether a branch of the conditional that goes on
here has run -/
def Block.readsNames (ran : Bool) : Block → Bool
  | done => false
  | step s rest => s != .pass || rest.readsNames false
  | nest s body rest =>
    match s with
    | .when c =>
      match c.eval unknownReach with
      | .ok b => (b && body.readsNames false) || rest.readsNames b
      | .error _ => true
    | .elsewhen c =>
      if ran then rest.readsNames true
      else
        match c.eval unknownReach with
        | .ok b => (b && body.readsNames false) || rest.readsNames b
        | .error _ => true
    | .otherwise => (!ran && body.readsNames false) || rest.readsNames false
    | _ => true

/-- the lines behind the function -/
def outerLines (lines : List Line) : List Line := lines.dropWhile fun l => 0 < l.margin

/-- loading code with these lines reads a name that is not known -/
def readsNames (lines : List Line) : Bool := (readBlocks (outerLines lines)).readsNames false

end Stencil
