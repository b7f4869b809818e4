/-
COMPARISON. The six comparison operators on all values. Numbers are ordered by their exact values, texts and
bytes character by character, lists and tuples by the first items that are not alike, or by length if there are
none. Everything else has no order, and an ordering comparison without an order is false.
-/
import Stencil.Text.Half
import Stencil.Value.Equality

namespace Stencil

/-- a comparison operator -/
inductive Comparison where
  | eq | ne | lt | gt | le | ge
  deriving DecidableEq, Repr

namespace Comparison

/-- the operator as it is written -/
def text : Comparison → Text
  | eq => "=="
  | ne => "!="
  | lt => "<"
  | gt => ">"
  | le => "<="
  | ge => ">="

/-- every operator -/
def all : List Comparison := [eq, ne, lt, gt, le, ge]

/-- the operator that is written so -/
def ofText? (s : Text) : Option Comparison := all.find? fun c => c.text == s

/-- whether things that stand in an order satisfy the operator -/
def holds : Comparison → Ordering → Bool
  | eq, o => o == .eq
  | ne, o => o != .eq
  | lt, o => o == .lt
  | gt, o => o == .gt
  | le, o => o != .gt
  | ge, o => o != .lt

end Comparison

namespace Text

/-- the order of two lists of numbers at the first place where they differ -/
def orderCodes : List Nat → List Nat → Ordering
  | [], [] => .eq
  | [], _ :: _ => .lt
  | _ :: _, [] => .gt
  | a :: as, b :: bs => if a == b then orderCodes as bs else compare a b

/-- the order of texts by their characters' codes -/
def order (s t : Text) : Ordering := orderCodes (s.map code) (t.map code)

end Text

namespace Value

/-- an ordering comparison of values without parts; none if they have no order -/
def orderAtom (op : Comparison) (a b : Value) : Option Bool :=
  match a.chars?, b.chars? with
  | some s, some t => some (op.holds (Text.order s t))
  | _, _ =>
    match a, b with
    | .bytes x .., .bytes y .. => some (op.holds (Text.orderCodes (x.map UInt8.toNat) (y.map UInt8.toNat)))
    | _, _ =>
      match number? a, number? b with
      | some x, some y => some (op.holds (x.order y))
      | _, _ => Option.none

mutual

/-- an ordering comparison; none if the values have no order -/
def order? (op : Comparison) : Value → Value → Option Bool
  | .list xs .., b =>
    match b with
    | .list ys .. => orderItems op xs ys
    | _ => Option.none
  | .tuple xs .., b =>
    match b with
    | .tuple ys .. => orderItems op xs ys
    | _ => Option.none
  | a, b => orderAtom op a b

/-- the comparison of the first items that are not alike, else of the lengths -/
def orderItems (op : Comparison) : List Value → List Value → Option Bool
  | [], ys => some (op.holds (compare 0 ys.length))
  | _ :: _, [] => some (op.holds .gt)
  | x :: xs, y :: ys => if alike x y then orderItems op xs ys else order? op x y

end

end Value

/-- the operator applied to two values; without an order an ordering comparison is false -/
def Comparison.apply (op : Comparison) (a b : Value) : Bool :=
  match op with
  | eq => Value.eq a b
  | ne => !Value.eq a b
  | op => (Value.order? op a b).getD false

end Stencil
