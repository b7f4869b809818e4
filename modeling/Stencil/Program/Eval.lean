/-
EVALUATION of expressions and conditions, where `reach` gives what a path reaches. Parts are evaluated from left to
right; a clause that cannot change the result of a condition is not evaluated.
-/
import Stencil.Failure
import Stencil.Program.Basic

namespace Stencil

/-- what paths reach: nothing, a value, or a failure -/
abbrev Reach := List Segment → Except Failure (Option Value)

/-- a literal evaluated; a number beyond all doubles has no value -/
def Literal.eval : Literal → Except Failure Value
  | float (.infinite _) => .error (.unknownName "inf")
  | l => .ok l.toValue

/-- an expression evaluated -/
def Expr.eval (reach : Reach) : Expr → Except Failure Value
  | literal l => l.eval
  | lookup path default => do
    let d ← default.eval
    let found ← reach path
    return found.getD d
  | demand path reference => do
    match ← reach path with
    | some v => return v
    | none => throw (.undefined reference)

/-- a path reaches a value other than nothing -/
def reaches (reach : Reach) (path : List Segment) : Except Failure Bool := do
  match ← reach path with
  | some v => return !v.isNone
  | none => return false

/-- whether a test holds -/
def Test.eval (reach : Reach) : Test → Except Failure Bool
  | truth e => do
    let v ← e.eval reach
    return v.truthy
  | compare op l r => do
    let a ← l.eval reach
    let b ← r.eval reach
    return op.apply a b

/-- whether a clause holds -/
def Clause.eval (reach : Reach) (c : Clause) : Except Failure Bool := do
  let b ← c.test.eval reach
  return if c.negated then !b else b

/-- whether a condition holds, given whether the clauses of the current conjunction before the rest do -/
def evalRest (reach : Reach) (b : Bool) : List (Connective × Clause) → Except Failure Bool
  | [] => .ok b
  | (.and, c) :: rest =>
    if b then do
      let b' ← c.eval reach
      evalRest reach b' rest
    else evalRest reach false rest
  | (.or, c) :: rest =>
    if b then .ok true
    else do
      let b' ← c.eval reach
      evalRest reach b' rest

/-- whether a condition holds -/
def Condition.eval (reach : Reach) (c : Condition) : Except Failure Bool := do
  let b ← c.first.eval reach
  evalRest reach b c.rest

end Stencil
