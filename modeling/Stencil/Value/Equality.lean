/-
EQUALITY. Numbers are equal if their exact values are, truth values being 0 and 1; texts by their characters;
lists and tuples item by item, each with its own kind; mappings if they have the same keys with equal values, in
any order; ranges if they count the same numbers; objects, streams, loops and forms only to themselves. Methods are
equal if they have one name and belong to the same thing, or to the same kind if they are methods of a kind.

`alike` is equality or being the same value: it differs from equality only for the number that is none, and is
the relation by which items are compared and keys are found.
-/
import Stencil.Value.Basic

namespace Stencil.Value

/-- a number by its exact value -/
inductive Exact where
  | int (n : Int)
  | float (x : Binary64)

/-- the exact value of a number -/
def number? : Value → Option Exact
  | .int n .. => some (.int n)
  | .bool b => some (.int (if b then 1 else 0))
  | .float x .. => some (.float x)
  | _ => Option.none

/-- the order of two exact values -/
def Exact.order : Exact → Exact → Ordering
  | .int a, .int b => compare a b
  | .int a, .float y => Binary64.orderInt a y
  | .float x, .int b => (Binary64.orderInt b x).swap
  | .float x, .float y => Binary64.order x y

/-- the two are the same value that is no number -/
def sameNan : Value → Value → Bool
  | .nan i, .nan j => i == j
  | _, _ => false

/-- the ranges count the same numbers -/
def rangeEq (a b s a' b' s' : Int) : Bool :=
  let n := rangeLength a b s
  n == rangeLength a' b' s' && (n == 0 || (a == a' && (n == 1 || s == s')))

/-- there is one such thing only: truth values, small numbers, the shortest texts and bytes, and the empty tuple -/
def isSingle : Value → Bool
  | .bool _ => true
  | .int n .. => -5 ≤ n && n ≤ 256
  | .text s .. => s.length ≤ 1 && s.all fun c => c.toNat < 256
  | .bytes bs .. => bs.length ≤ 1
  | .tuple xs .. => xs.isEmpty
  | _ => false

/-- the two are one thing, given whether they are equal -/
def sameThing (equal : Bool) (a b : Value) : Bool :=
  match a.identity, b.identity with
  | .common, .common => equal && a.kind == b.kind
  | .own m, .own n => m == n || (equal && a.isSingle && b.isSingle)
  | .part m i, .part n j => (m == n && i == j) || (equal && a.isSingle && b.isSingle)
  | _, _ => equal && a.kind == b.kind && a.isSingle && b.isSingle

/-- the methods that belong to a kind and not to a thing -/
def kindMethods : List String := ["from_bytes", "fromhex", "maketrans"]

/-- a method belongs to both, given whether they are equal -/
def sameOwner (equal : Bool) (name : Text) (a b : Value) : Bool :=
  if kindMethods.any fun m => m.toList == name then a.kind == b.kind else sameThing equal a b

/-- equality of values without parts -/
def eqAtom : Value → Value → Bool
  | .none, .none => true
  | .missing, .missing => true
  | .text s .., .text t .. => s == t
  | .text s .., .markup t .. => s == t
  | .markup s .., .text t .. => s == t
  | .markup s .., .markup t .. => s == t
  | .bytes a .., .bytes b .. => a == b
  | .object i _ _, .object j _ _ => i == j
  | .stream i _, .stream j _ => i == j
  | .range a b s .., .range a' b' s' .. => rangeEq a b s a' b' s'
  | .loop d _ _ _, .loop d' _ _ _ => d == d'
  | .form d _ _ _ _ _ _ _, .form d' _ _ _ _ _ _ _ => d == d'
  | a, b =>
    match number? a, number? b with
    | some x, some y => x.order y == .eq
    | _, _ => false

mutual

/-- equality of values -/
def eq : Value → Value → Bool
  | .list xs .., b =>
    match b with
    | .list ys .. => eqItems xs ys
    | _ => false
  | .tuple xs .., b =>
    match b with
    | .tuple ys .. => eqItems xs ys
    | _ => false
  | .mapping es, b =>
    match b with
    | .mapping fs => es.length == fs.length && subEntries es fs
    | _ => false
  | .method owner name, b =>
    match b with
    | .method owner' name' => name == name' && sameOwner (eq owner owner') name owner owner'
    | _ => false
  | a, b => eqAtom a b

/-- equality item by item -/
def eqItems : List Value → List Value → Bool
  | [], [] => true
  | x :: xs, y :: ys => (sameNan x y || eq x y) && eqItems xs ys
  | _, _ => false

/-- every entry of the first has its like in the second -/
def subEntries : List (Value × Value) → List (Value × Value) → Bool
  | [], _ => true
  | (k, v) :: es, fs =>
    (fs.any fun f => (sameNan k f.1 || eq k f.1) && (sameNan v f.2 || eq v f.2)) && subEntries es fs

end

/-- equal, or the same value -/
def alike (a b : Value) : Bool := sameNan a b || eq a b

mutual

/-- a value that can be a key: no list, no mapping, and no tuple that holds one -/
def isKey : Value → Bool
  | .list _ .. => false
  | .mapping _ => false
  | .tuple xs .. => areKeys xs
  | _ => true

/-- all of them can be keys -/
def areKeys : List Value → Bool
  | [] => true
  | x :: xs => isKey x && areKeys xs

end

/-- the value that the entries hold under a key -/
def find? (key : Value) : Entries → Option Value
  | [] => Option.none
  | (k, v) :: es => if alike k key then some v else find? key es

/-- the entries with a value put under a key: a key that is there keeps its place -/
def put (key value : Value) : Entries → Entries
  | [] => [(key, value)]
  | (k, v) :: es => if alike k key then (k, value) :: es else (k, v) :: put key value es

/-- the entries with others put on top of them -/
def putAll (es : Entries) (more : Entries) : Entries := more.foldl (fun acc e => put e.1 e.2 acc) es

/-- the entries without a key -/
def erase (key : Value) (es : Entries) : Entries := es.filter fun e => !alike e.1 key

end Stencil.Value
