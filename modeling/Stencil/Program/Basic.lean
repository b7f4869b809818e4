/-
PROGRAMS. A compiled template is a flat list of statements, each with a depth: a statement that heads a block is
followed by deeper ones. A fragment is what one directive contributes; its depths are relative to the depth at
which it is put, and `shift` is by how much it changes the depth for what follows.

Statements work on a render state: a scope of layers, the open loops and forms, an output, and numbered
temporaries. `Stmt.code` writes a statement as a line of code, every text in it as a quoted literal.
-/
import Stencil.Reference.Basic
import Stencil.Value.Order

namespace Stencil

/-- an expression whose value a template uses -/
inductive Expr where
  | literal (l : Literal)
  /-- what a path reaches, else the default -/
  | lookup (path : List Segment) (default : Literal)
  /-- what a path reaches, else a failure that names the reference -/
  | demand (path : List Segment) (reference : Text)
  deriving DecidableEq, Repr

/-- what a clause tests -/
inductive Test where
  | truth (e : Expr)
  | compare (op : Comparison) (left right : Expr)
  deriving DecidableEq, Repr

/-- a test or its negation -/
structure Clause where
  negated : Bool
  test : Test
  deriving DecidableEq, Repr

/-- how a clause is joined to those before it -/
inductive Connective where
  | and | or
  deriving DecidableEq, Repr

/-- a condition: a clause, and more clauses with their connectives -/
structure Condition where
  first : Clause
  rest : List (Connective × Clause)
  deriving DecidableEq, Repr

/-- attributes of a form element, in order -/
abbrev Attributes := List (Text × Text)

/-- the two parts of an entry -/
inductive Half where
  | key (n : Nat)
  | item (n : Nat)
  deriving DecidableEq, Repr

/-- a statement; numbers name temporaries -/
inductive Stmt where
  | pass
  | write (s : Text)
  | emit (e : Expr)
  /-- heads a block that runs if the path reaches something -/
  | whenReached (path : List Segment)
  | iterate (items : Nat) (e : Expr)
  | loopOpen (items : Nat)
  | scopeLoop
  /-- heads a block that runs for every entry -/
  | forEach (key item items : Nat)
  | iterationBegin (key : Nat)
  | bind (name : Text) (half : Half)
  | iterationEnd
  | scopeClose
  | loopClose
  /-- heads a block that runs if the condition holds -/
  | when (c : Condition)
  /-- heads a block that runs if the condition holds and no block before it ran -/
  | elsewhen (c : Condition)
  /-- heads a block that runs if no block before it ran -/
  | otherwise
  | captureBegin
  | captureEnd (name : Text)
  | formOpen (e : Expr) (name : Text) (attributes : Attributes)
  | writeFormOpen
  | scopeForm
  | writeFormClose
  | formClose
  | field (name : Text) (attributes : Attributes) (labelled : Bool)
  | submit (attributes : Attributes)
  | button (attributes : Attributes)
  | generate (e : Expr) (name : Text) (attributes : Attributes) (submitting : Bool)
  | translate (text : Nat) (key : Text) (params : List (Text × Expr))
  /-- heads a block that runs if the phrase was found -/
  | whenText (text : Nat)
  | writeText (text : Nat)
  deriving DecidableEq, Repr

/-- a statement at a depth -/
structure Line where
  depth : Int
  stmt : Stmt
  deriving DecidableEq, Repr

/-- the statements of one directive -/
structure Fragment where
  lines : List Line
  shift : Int
  deriving DecidableEq, Repr

namespace Fragment

/-- statements at one depth -/
def statements (stmts : List Stmt) : Fragment := ⟨stmts.map fun s => ⟨0, s⟩, 0⟩

/-- no statement -/
def empty : Fragment := ⟨[], 0⟩

end Fragment

/-- the lines of fragments put one after the other from a depth on, at their absolute depths -/
def placeLines (depth : Int) : List Fragment → List Line
  | [] => []
  | f :: fs => f.lines.map (fun l => { l with depth := depth + l.depth }) ++ placeLines (depth + f.shift) fs

/-- the depth of the body of the program -/
def bodyDepth : Int := 1

/-- the lines of a program -/
def programLines (fs : List Fragment) : List Line := placeLines bodyDepth fs

end Stencil
