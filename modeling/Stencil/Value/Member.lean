/-
PATHS INTO VALUES. `member` is what one key, index or name of a path reaches: in a mapping the entry with that key,
an integer also trying its digits; in a list, tuple or range the item at an integer index, from 0 on; in anything
else the public attribute of that name. What is not there is `missing`.

Attributes of plain data are the numbers a number consists of, the bounds of a range, and methods.
-/
import Stencil.Value.Equality
import Stencil.Value.Display

namespace Stencil

/-- a segment of a path: the name of an attribute or key, or an index -/
inductive Segment where
  | name (s : Text)
  | index (n : Nat)
  deriving DecidableEq, Repr

namespace Value

/-- methods of integers and truth values -/
def intMethods : List String :=
  ["as_integer_ratio", "bit_count", "bit_length", "conjugate", "from_bytes", "to_bytes"]

/-- methods of doubles -/
def floatMethods : List String := ["as_integer_ratio", "conjugate", "fromhex", "hex", "is_integer"]

/-- methods of texts and of bytes alike -/
def sharedMethods : List String :=
  ["capitalize", "center", "count", "endswith", "expandtabs", "find", "index", "isalnum", "isalpha", "isascii",
   "isdigit", "islower", "isspace", "istitle", "isupper", "join", "ljust", "lower", "lstrip", "maketrans",
   "partition", "removeprefix", "removesuffix", "replace", "rfind", "rindex", "rjust", "rpartition", "rsplit",
   "rstrip", "split", "splitlines", "startswith", "strip", "swapcase", "title", "translate", "upper", "zfill"]

/-- methods of texts -/
def textMethods : List String :=
  sharedMethods ++
    ["casefold", "encode", "format", "format_map", "isdecimal", "isidentifier", "isnumeric", "isprintable"]

/-- methods of bytes -/
def bytesMethods : List String := sharedMethods ++ ["decode", "fromhex", "hex"]

/-- methods of lists -/
def listMethods : List String :=
  ["append", "clear", "copy", "count", "extend", "index", "insert", "pop", "remove", "reverse", "sort"]

/-- methods of tuples and ranges -/
def tupleMethods : List String := ["count", "index"]

/-- methods of streams -/
def streamMethods : List String := ["close", "send", "throw"]

/-- methods of loops -/
def loopMethods : List String := ["iteration_begin", "iteration_end", "snapshot"]

/-- methods of forms -/
def formMethods : List String :=
  ["open", "close", "fields_get", "generate", "field_config", "value_get", "input_for", "label_for", "label",
   "input", "submit", "button", "textarea", "select", "option", "error", "text_escape", "attributes_format"]

/-- the names of the methods of a value -/
def methods : Value → List String
  | .bool _ => intMethods
  | .int _ .. => intMethods
  | .float _ .. => floatMethods
  | .nan _ => floatMethods
  | .text _ .. => textMethods
  | .markup _ .. => textMethods
  | .bytes _ .. => bytesMethods
  | .list _ .. => listMethods
  | .tuple _ .. => tupleMethods
  | .range _ _ _ .. => tupleMethods
  | .stream _ _ => streamMethods
  | .loop _ _ _ _ => loopMethods
  | .form _ _ _ _ _ _ _ _ => formMethods
  | _ => []

/-- the name under which a stream shows what it runs in, as long as it has not ended -/
def frameName : Text := "gi_frame"

/-- the attributes of a value that are values themselves; what cannot be looked into is a method here -/
def fields : Value → List (Text × Value)
  | .int n id => [("real", .int n id), ("imag", .int 0), ("numerator", .int n id), ("denominator", .int 1)]
  | .bool b =>
    let n : Value := .int (if b then 1 else 0)
    [("real", n), ("imag", .int 0), ("numerator", n), ("denominator", .int 1)]
  | .float x id => [("real", .float x id), ("imag", .float (Binary64.zero false) .passing)]
  | .nan i => [("real", .nan i), ("imag", .float (Binary64.zero false) .passing)]
  | .range a b s id =>
    [("start", .int a (id.within 0)), ("stop", .int b (id.within 1)), ("step", .int s (id.within 2))]
  | .object _ _ fs => fs
  | .stream id xs =>
    [("gi_running", .bool false), ("gi_suspended", .bool false), ("gi_yieldfrom", .none),
     ("gi_code", .method .none "gi_code"), (frameName, .method (.stream id xs) frameName)]
  | .loop _ f key parent =>
    [("index", .int f.index), ("count", .int f.count), ("first", .bool f.first), ("last", .bool f.last),
     ("even", .bool f.even), ("odd", .bool f.odd), ("key", key), ("parent", parent)]
  | .form _ name entity config attributes errors escaping parent =>
    [("entity", entity), ("entity_name", .text name), ("mapping", config), ("attributes", attributes),
     ("errors", errors), ("parent", parent), ("autoescape", .bool escaping)]
  | _ => []

/-- the attribute of a value, private ones included -/
def attribute? (v : Value) (name : Text) : Option Value :=
  match v.fields.find? fun f => f.1 == name with
  | some f => some f.2
  | Option.none => if v.methods.any fun m => m.toList == name then some (.method v name) else Option.none

/-- the item of a list, tuple or range -/
def item? (v : Value) (i : Nat) : Option Value :=
  match v with
  | .list xs .. => xs[i]?
  | .tuple xs .. => xs[i]?
  | .range a b s .. => if i < rangeLength a b s then some (.int (a + s * i) .passing) else Option.none
  | _ => Option.none

/-- the item of a list, tuple or range, if the value is one of these: none inside for an index beyond the end -/
def plainItem? (v : Value) (i : Nat) : Option (Option Value) :=
  match v with
  | .list _ .. => some (v.item? i)
  | .tuple _ .. => some (v.item? i)
  | .range _ _ _ .. => some (v.item? i)
  | _ => Option.none

/-- the entry of a mapping under a key; a number is also looked for by its digits -/
def valueUnder? (es : Entries) (key : Value) : Option Value :=
  match find? key es with
  | some v => some v
  | Option.none => if key.int?.isSome then find? (.text key.display) es else Option.none

/-- a name that no path reaches as an attribute -/
def isPrivate (name : Text) : Bool := name.head? == some '_'

/-- what a key, index or attribute name reaches -/
def member (v key : Value) : Value :=
  match v with
  | .mapping es => (valueUnder? es key).getD .missing
  | v =>
    match key.int?, key.chars? with
    | some n, _ => if n < 0 then .missing else (v.item? n.toNat).getD .missing
    | _, some s => if isPrivate s then .missing else (v.attribute? s).getD .missing
    | _, _ => .missing

end Value

/-- a segment as a key -/
def Segment.toValue : Segment → Value
  | .name s => .text s
  | .index n => .int n

end Stencil
