/-
BLOCKS. `readBlocks` reads the lines of a program as nested blocks: the lines after a statement that are deeper
than it are its body. `loopDepth` is what generated code is limited in.
-/
import Stencil.Program.Basic

namespace Stencil

/-- statements one after the other; `nest` has a body before what follows -/
inductive Block where
  | done
  | step (s : Stmt) (rest : Block)
  | nest (s : Stmt) (body rest : Block)
  deriving Repr

/-- the statement heads a block -/
def Stmt.heads : Stmt → Bool
  | whenReached _ => true
  | forEach _ _ _ => true
  | when _ => true
  | elsewhen _ => true
  | otherwise => true
  | whenText _ => true
  | _ => false

/-- the nested blocks of lines -/
def readBlocks : List Line → Block
  | [] => .done
  | l :: ls =>
    if l.stmt.heads then
      .nest l.stmt (readBlocks (ls.takeWhile fun m => l.depth < m.depth))
        (readBlocks (ls.dropWhile fun m => l.depth < m.depth))
    else .step l.stmt (readBlocks ls)
termination_by ls => ls.length
decreasing_by
  · have := (List.takeWhile_sublist (fun m : Line => decide (l.depth < m.depth)) (l := ls)).length_le
    simp
    omega
  · have := (List.dropWhile_sublist (fun m : Line => decide (l.depth < m.depth)) (l := ls)).length_le
    simp
    omega
  · simp

/-- how many loops stand inside one another at most -/
def Block.loopDepth : Block → Nat
  | done => 0
  | step _ rest => rest.loopDepth
  | nest s body rest =>
    let inner := match s with
      | .forEach _ _ _ => body.loopDepth + 1
      | _ => body.loopDepth
    max inner rest.loopDepth

/-- the greatest number of loops inside one another -/
def loopLimit : Nat := 20

end Stencil
