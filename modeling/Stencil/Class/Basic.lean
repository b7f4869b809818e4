/-
CLASSES of the things that a phrase can look at: of values, of classes themselves, and of the members of classes.
A class has a name and stands in a line that begins with itself and ends with `object`, the ancestor of all.
Its figures are measures of the memory that its things take.

A member of a class has a role. Seen in its class it is a thing of its own; taken from a thing, a method or an
operation is bound to that thing, and what is neither is the thing's own answer.
-/
import Stencil.Value.Basic

namespace Stencil

/-- the classes -/
inductive Class where
  | object | type
  | nothing | bool | int | float | text | bytes | list | tuple | mapping | range | stream
  /-- of members in the roles of the same names -/
  | method | classMethod | operation | answer | store
  /-- of methods taken from a thing -/
  | boundMethod
  /-- of operations taken from a thing -/
  | boundOperation
  /-- of all that a class has for members -/
  | members
  deriving DecidableEq, Repr

/-- what a member is for -/
inductive Role where
  /-- bound to a thing of the class -/
  | method
  /-- bound to the class -/
  | classMethod
  /-- bound to the class that has it, whichever is asked -/
  | maker
  /-- as `maker`, but it does not say to what it is bound -/
  | static
  /-- behind the signs and marks of expressions -/
  | operation
  /-- an answer that is worked out -/
  | answer
  /-- an answer that is stored -/
  | store
  /-- taken away from the members of the ancestors -/
  | absent
  deriving DecidableEq, Repr

/-- measures of the memory that things of a class take, and the marks of the class in one number -/
structure Figures where
  size : Nat
  itemSize : Nat
  marks : Nat
  entries : Nat
  watchers : Nat
  deriving DecidableEq, Repr

namespace Class

/-- the name of a class -/
def name : Class → Text
  | object => "object"
  | type => "type"
  | nothing => "NoneType"
  | bool => "bool"
  | int => "int"
  | float => "float"
  | text => "str"
  | bytes => "bytes"
  | list => "list"
  | tuple => "tuple"
  | mapping => "dict"
  | range => "range"
  | stream => "generator"
  | method => "method_descriptor"
  | classMethod => "classmethod_descriptor"
  | operation => "wrapper_descriptor"
  | answer => "getset_descriptor"
  | store => "member_descriptor"
  | boundMethod => "builtin_function_or_method"
  | boundOperation => "method-wrapper"
  | members => "mappingproxy"

/-- the ancestors of a class, the nearest first -/
def ancestors : Class → List Class
  | object => []
  | bool => [int, object]
  | _ => [object]

/-- a class and its ancestors -/
def line (c : Class) : List Class := c :: c.ancestors

/-- the name of the module that all classes are in -/
def home : Text := "builtins"

/-- the figures of a class -/
def figures : Class → Figures
  | object => ⟨16, 0, 529664, 0, 0⟩
  | type => ⟨904, 40, 2148031744, 264, 368⟩
  | nothing => ⟨16, 0, 528640, 0, 0⟩
  | bool => ⟨32, 4, 21500160, 0, 0⟩
  | int => ⟨24, 4, 21501184, 0, 0⟩
  | float => ⟨24, 0, 4199680, 0, 0⟩
  | text => ⟨80, 0, 273159424, 0, 0⟩
  | bytes => ⟨33, 1, 138941696, 0, 0⟩
  | list => ⟨40, 0, 38294816, 0, 0⟩
  | tuple => ⟨24, 8, 71849248, 0, 0⟩
  | mapping => ⟨48, 0, 541611328, 0, 0⟩
  | range => ⟨48, 0, 4384, 0, 0⟩
  | stream => ⟨152, 8, 545152, 0, 24⟩
  | method => ⟨56, 0, 153984, 0, 0⟩
  | classMethod => ⟨56, 0, 20864, 0, 0⟩
  | operation => ⟨56, 0, 151936, 0, 0⟩
  | answer => ⟨48, 0, 545152, 0, 0⟩
  | store => ⟨48, 0, 545152, 0, 0⟩
  | boundMethod => ⟨56, 0, 547200, 0, 40⟩
  | boundOperation => ⟨32, 0, 20864, 0, 0⟩
  | members => ⟨24, 0, 545088, 0, 0⟩

/-- the parameters that the maker of a class says it takes, if it says so -/
def signature? : Class → Option Text
  | object => some "()"
  | float => some "(x=0, /)"
  | list => some "(iterable=(), /)"
  | tuple => some "(iterable=(), /)"
  | _ => none

/-- a class as it is written -/
def literal (c : Class) : Text := Text.cat ["<class '", c.name, "'>"]

/-- an index on these classes gives the class of things that hold others -/
def takesIndex : Class → Bool
  | list | tuple | mapping | type | members => true
  | _ => false

/-- the class of a value; the classes of objects, loops and forms are not among these -/
def ofValue? : Value → Option Class
  | .none => some nothing
  | .bool _ => some bool
  | .int _ _ => some int
  | .float _ _ => some float
  | .nan _ => some float
  | .text _ _ => some text
  | .markup _ _ => some text
  | .bytes _ _ => some bytes
  | .list _ _ => some list
  | .tuple _ _ => some tuple
  | .mapping _ => some mapping
  | .stream _ _ => some stream
  | .range _ _ _ _ => some range
  | .method _ _ => some boundMethod
  | _ => Option.none

end Class

end Stencil
