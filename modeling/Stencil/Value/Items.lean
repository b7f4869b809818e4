/-
ITEMS that a value gives. Texts give their characters, bytes their numbers, mappings their keys; a stream gives each
of its items once, so work that takes items keeps account of how often every stream was asked.

- `pairs` is what a loop goes through: the entries of a mapping, and the items of lists, tuples, ranges and streams
  with their indices; everything else, texts included, gives no pair.
- `entriesOf` reads a value as entries: a mapping has them, and of anything else every item must consist of two. A
  stream is asked item by item, so those behind an item that is no entry stay in it.
-/
import Stencil.Failure
import Stencil.Keyed
import Stencil.Value.Member

namespace Stencil

/-- how often streams were asked for an item; one that was asked after its last item has ended -/
abbrev Asked := List (Nat × Nat)

/-- work that can fail, and that can take items off streams -/
abbrev Work := ExceptT Failure (StateM Asked)

namespace Asked

/-- how often a stream was asked -/
def count (a : Asked) (id : Nat) : Nat := (getAt? id a).getD 0

/-- the stream asked for all of its items and once more -/
def finish (id size : Nat) (a : Asked) : Asked := putAt id (size + 1) a

/-- the stream asked for one item more -/
def next (id : Nat) (a : Asked) : Asked := putAt id (a.count id + 1) a

end Asked

namespace Value

/-- the items of a value that is no stream; none if it has no items -/
def plainItems? : Value → Option (List Value)
  | .text s .. => some (s.map fun c => .text [c])
  | .markup s .. => some (s.map fun c => .text [c])
  | .bytes bs .. => some (bs.map fun b => .int b.toNat)
  | .list xs .. => some xs
  | .tuple xs .. => some xs
  | .mapping es => some (es.map (·.1))
  | .range a b s .. => some (rangeItems a b s)
  | _ => Option.none

/-- the items of a value that are still to come, in order -/
def items (v : Value) : Work (List Value) :=
  match v with
  | .stream id xs => do
    let asked ← get
    set (asked.finish id xs.length)
    return xs.drop (asked.count id)
  | v =>
    match v.plainItems? with
    | some xs => pure xs
    | Option.none => throw .notIterable

/-- a value as it is now: a stream that has ended runs in nothing -/
def current (asked : Asked) (v : Value) : Value :=
  match v with
  | .method (.stream id xs) name => if name == frameName && xs.length < asked.count id then .none else v
  | v => v

/-- the items with their indices as keys -/
def numbered (xs : List Value) : Entries := xs.zipIdx.map fun p => (.int p.2, p.1)

/-- what a loop over a value goes through -/
def pairs (v : Value) : Work Entries :=
  match v with
  | .mapping es => pure es
  | .list xs .. => pure (numbered xs)
  | .tuple xs .. => pure (numbered xs)
  | .range a b s .. => pure (numbered (rangeItems a b s))
  | .stream _ _ => do
    let xs ← v.items
    return numbered xs
  | _ => pure []

/-- the key and the value that an item of two consists of -/
def pairOf (v : Value) : Work (Value × Value) := do
  match ← v.items with
  | [k, x] => return (k, x)
  | _ => throw .notPair

/-- one item more, as an entry -/
def addItem (es : Entries) (item : Value) : Work Entries := do
  let (k, x) ← item.pairOf
  if k.isKey then return put k x es else throw .notKey

/-- items more, as entries, taken off a stream one by one -/
def addAsked (id : Nat) (es : Entries) (item : Value) : Work Entries := do
  modify (Asked.next id)
  addItem es item

/-- the entries of a value -/
def entriesOf (v : Value) : Work Entries :=
  match v with
  | .mapping es => pure es
  | .stream id xs => do
    let asked ← get
    let es ← (xs.drop (asked.count id)).foldlM (addAsked id) []
    modify (Asked.finish id xs.length)
    return es
  | .range a b s .. => if rangeLength a b s == 0 then pure [] else throw .notIterable
  | v => do
    let xs ← v.items
    xs.foldlM addItem []

/-- the failure of calling a method that mappings and texts have on a value that is neither -/
def noMethod (v : Value) (name : Text) : Failure :=
  if (v.attribute? name).isSome then .notCallable else .noAttribute name

/-- the value that a mapping has under a key -/
def get? (v key : Value) : Except Failure (Option Value) :=
  match v with
  | .mapping es => if key.isKey then .ok (find? key es) else .error .notKey
  | v => .error (v.noMethod "get")

/-- the most numbers that a range can count and be asked for one of them -/
def sizeLimit : Nat := Nat.pow 2 63 - 1

/-- an index into a range that counts more numbers than that -/
def isBeyond (v key : Value) : Bool :=
  match v, key.int? with
  | .range a b s .., some n => 0 ≤ n && sizeLimit < rangeLength a b s
  | _, _ => false

/-- what a key reaches in a value; only what can be a key is looked for in a mapping -/
def reach (v key : Value) : Except Failure Value :=
  if v.isMapping && !key.isKey then .error .notKey
  else if v.isBeyond key then .error .tooLarge
  else .ok (v.member key)

/-- what keys reach one after the other; none if one of them reaches nothing -/
def reachAll : Value → List Value → Except Failure (Option Value)
  | v, [] => .ok (some v)
  | v, k :: rest => do
    let w ← v.reach k
    if w.isMissing then .ok Option.none else reachAll w rest

/-- the entries of a mapping, and of nothing else -/
def mappingEntries (v : Value) : Except Failure Entries :=
  match v with
  | .mapping es => .ok es
  | v => .error (v.noMethod "items")

/-- the entries of a mapping with those of another on top -/
def merge (v w : Value) : Except Failure Entries :=
  match v, w with
  | .mapping es, .mapping fs => .ok (putAll es fs)
  | _, _ => .error .notMapping

end Value

end Stencil
