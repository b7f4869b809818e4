/-
VALUES that templates read: the data of a render, what the catalog and the field mappings hold, and what a
template can reach from them.

Plain data are nothing, truth values, integers of any size, doubles, texts, markup (text that is safe as it
stands), bytes, lists, tuples and mappings. Mappings are lists of entries in the order of insertion. An object
has named fields and is equal to itself alone; a stream gives its items once; a range counts. `missing` stands
for what a path does not reach. `method` is a function that belongs to a value: it is there and true, but is
never called. `loop` and `form` show the open loop and the open form to the template; `depth` counts the
enclosing ones and tells those that are open at one moment apart.

Values that are equal can be different things: an `Identity` tells them apart. It shows only where methods are
compared, which are the same if they belong to the same thing.
-/
import Stencil.Number.Shortest

namespace Stencil

/-- what a loop tells of the current iteration -/
structure LoopFacts where
  index : Int
  count : Int
  first : Bool
  last : Bool
  even : Bool
  odd : Bool
  deriving DecidableEq, Repr

/-- which thing a value is -/
inductive Identity where
  /-- told from others by the value alone -/
  | common
  /-- the thing with a number -/
  | own (n : Nat)
  /-- a part of the thing with a number -/
  | part (n i : Nat)
  /-- made anew whenever it is reached -/
  | passing
  deriving DecidableEq, Repr

/-- a value; `nan`, `object` and `stream` carry the number by which one is told from another -/
inductive Value where
  | none
  | bool (b : Bool)
  | int (n : Int) (id : Identity := .common)
  | float (x : Binary64) (id : Identity := .common)
  | nan (id : Nat)
  | text (s : Text) (id : Identity := .common)
  | markup (s : Text) (id : Identity := .common)
  | bytes (bs : List UInt8) (id : Identity := .common)
  | list (items : List Value) (id : Identity := .common)
  | tuple (items : List Value) (id : Identity := .common)
  | mapping (entries : List (Value × Value))
  | object (id : Nat) (name : Text) (fields : List (Text × Value))
  | stream (id : Nat) (items : List Value)
  | range (start stop step : Int) (id : Identity := .common)
  | missing
  | method (owner : Value) (name : Text)
  | loop (depth : Nat) (facts : LoopFacts) (key parent : Value)
  | form (depth : Nat) (name : Text) (entity mapping attributes errors : Value) (escaping : Bool)
      (parent : Value)

/-- the entries of a mapping, in order of insertion -/
abbrev Entries := List (Value × Value)

/-- the identity of a part of a thing -/
def Identity.within (i : Nat) : Identity → Identity
  | own n => part n i
  | _ => common

/-- the kinds of values -/
inductive Kind where
  | nothing | bool | int | float | text | bytes | list | tuple | mapping | object | stream | range | missing | method
  | loop | form
  deriving DecidableEq, Repr

namespace Value

instance : Inhabited Value := ⟨.none⟩

/-- the kind of a value; markup is text -/
def kind : Value → Kind
  | .none => .nothing
  | .bool _ => .bool
  | .int _ _ => .int
  | .float _ _ => .float
  | .nan _ => .float
  | .text _ _ => .text
  | .markup _ _ => .text
  | .bytes _ _ => .bytes
  | .list _ _ => .list
  | .tuple _ _ => .tuple
  | .mapping _ => .mapping
  | .object _ _ _ => .object
  | .stream _ _ => .stream
  | .range _ _ _ _ => .range
  | .missing => .missing
  | .method _ _ => .method
  | .loop _ _ _ _ => .loop
  | .form _ _ _ _ _ _ _ _ => .form

/-- the identity of plain data -/
def identity : Value → Identity
  | .int _ id => id
  | .float _ id => id
  | .nan id => .own id
  | .text _ id => id
  | .markup _ id => id
  | .bytes _ id => id
  | .list _ id => id
  | .tuple _ id => id
  | .range _ _ _ id => id
  | _ => .common

/-- nothing -/
def isNone : Value → Bool
  | .none => true
  | _ => false

/-- the mark of what a path does not reach -/
def isMissing : Value → Bool
  | .missing => true
  | _ => false

/-- the entries of a mapping -/
def entries? : Value → Option Entries
  | .mapping es => some es
  | _ => Option.none

/-- a mapping -/
def isMapping (v : Value) : Bool := v.entries?.isSome

/-- the characters of a text, also of markup -/
def chars? : Value → Option Text
  | .text s .. => some s
  | .markup s .. => some s
  | _ => Option.none

/-- the value of an integer, of a truth value taken as 0 or 1 -/
def int? : Value → Option Int
  | .int n .. => some n
  | .bool b => some (if b then 1 else 0)
  | _ => Option.none

/-- how many numbers a range counts -/
def rangeLength (start stop step : Int) : Nat :=
  if 0 < step then ((stop - start + step - 1) / step).toNat
  else if step < 0 then ((start - stop - step - 1) / (-step)).toNat
  else 0

/-- the numbers of a range -/
def rangeItems (start stop step : Int) : List Value :=
  (List.range (rangeLength start stop step)).map fun (i : Nat) => .int (start + step * (i : Int))

/-- whether a value counts as true: all but nothing, false, zero, and what is empty or missing -/
def truthy : Value → Bool
  | .none => false
  | .bool b => b
  | .int n .. => n != 0
  | .float x .. => !x.isZero
  | .text s .. => !s.isEmpty
  | .markup s .. => !s.isEmpty
  | .bytes bs .. => !bs.isEmpty
  | .list xs .. => !xs.isEmpty
  | .tuple xs .. => !xs.isEmpty
  | .mapping es => !es.isEmpty
  | .range a b s .. => rangeLength a b s != 0
  | .missing => false
  | .nan _ => true
  | .object _ _ _ => true
  | .stream _ _ => true
  | .method _ _ => true
  | .loop _ _ _ _ => true
  | .form _ _ _ _ _ _ _ _ => true

/-- the value itself if it is true, else an empty mapping -/
def orEmpty (v : Value) : Value := if v.truthy then v else .mapping []

/-- a text as a value -/
def ofString (s : String) : Value := .text s.toList

end Value

end Stencil
