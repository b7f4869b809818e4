/-
MEMBERS of the classes, by their roles. `Class.find?` looks for a member in the line of a class, from the class up,
and tells whose it is.
-/
import Stencil.Class.Basic
import Stencil.Value.Member

namespace Stencil.Class

/-- the operations that compare -/
def comparisons : List String := ["__lt__", "__le__", "__eq__", "__ne__", "__gt__", "__ge__"]

/-- how a thing is written, and how its attributes are found -/
def basics : List String := ["__repr__", "__getattribute__"]

/-- the operations of whatever has items and can be joined and repeated -/
def sequences : List String :=
  ["__hash__", "__iter__", "__len__", "__getitem__", "__add__", "__mul__", "__rmul__", "__contains__"]

/-- the operations of all numbers -/
def arithmetic : List String :=
  ["__hash__", "__add__", "__radd__", "__sub__", "__rsub__", "__mul__", "__rmul__", "__mod__", "__rmod__",
   "__divmod__", "__rdivmod__", "__pow__", "__rpow__", "__neg__", "__pos__", "__abs__", "__bool__", "__int__",
   "__float__", "__floordiv__", "__rfloordiv__", "__truediv__", "__rtruediv__"]

/-- the operations on bits that truth values have, too -/
def bitwise : List String := ["__and__", "__rand__", "__xor__", "__rxor__", "__or__", "__ror__"]

/-- the methods that round numbers -/
def rounding : List String := ["__trunc__", "__floor__", "__ceil__", "__round__"]

/-- the members that a class has besides those of its ancestors; of two with one name the first counts -/
def own : Class → List (Role × List String)
  | object =>
    [(.maker, ["__new__"]), (.operation, basics ++ comparisons),
     (.operation, ["__hash__", "__str__", "__setattr__", "__delattr__", "__init__"]),
     (.method, ["__reduce_ex__", "__reduce__", "__getstate__", "__format__", "__sizeof__", "__dir__"]),
     (.classMethod, ["__subclasshook__", "__init_subclass__"]), (.answer, ["__class__"])]
  | type =>
    [(.maker, ["__new__"]), (.operation, basics),
     (.operation, ["__call__", "__setattr__", "__delattr__", "__init__", "__or__", "__ror__"]),
     (.method, ["mro", "__subclasses__", "__instancecheck__", "__subclasscheck__", "__dir__", "__sizeof__"]),
     (.classMethod, ["__prepare__"]),
     (.store, ["__basicsize__", "__itemsize__", "__flags__", "__weakrefoffset__", "__base__", "__dictoffset__",
       "__mro__"]),
     (.answer, ["__name__", "__qualname__", "__bases__", "__module__", "__abstractmethods__", "__dict__",
       "__doc__", "__text_signature__", "__annotations__"])]
  | nothing => [(.maker, ["__new__"]), (.operation, ["__repr__", "__bool__"])]
  | bool => [(.maker, ["__new__"]), (.operation, "__repr__" :: bitwise)]
  | int =>
    [(.maker, ["__new__"]), (.operation, basics ++ comparisons ++ arithmetic ++ bitwise),
     (.operation, ["__invert__", "__lshift__", "__rlshift__", "__rshift__", "__rrshift__", "__index__"]),
     (.classMethod, ["from_bytes"]), (.method, rounding ++ Value.intMethods),
     (.method, ["__getnewargs__", "__format__", "__sizeof__"]),
     (.answer, ["real", "imag", "numerator", "denominator"])]
  | float =>
    [(.maker, ["__new__"]), (.operation, basics ++ comparisons ++ arithmetic),
     (.classMethod, ["fromhex", "__getformat__"]), (.method, rounding ++ Value.floatMethods),
     (.method, ["__getnewargs__", "__format__"]), (.answer, ["real", "imag"])]
  | text =>
    [(.maker, ["__new__"]), (.operation, basics ++ comparisons ++ sequences),
     (.operation, ["__str__", "__mod__", "__rmod__"]), (.static, ["maketrans"]), (.method, Value.textMethods),
     (.method, ["__format__", "__sizeof__", "__getnewargs__"])]
  | bytes =>
    [(.maker, ["__new__"]), (.operation, basics ++ comparisons ++ sequences),
     (.operation, ["__str__", "__mod__", "__rmod__"]), (.static, ["maketrans"]), (.classMethod, ["fromhex"]),
     (.method, Value.bytesMethods), (.method, ["__getnewargs__", "__bytes__"])]
  | list =>
    [(.maker, ["__new__"]), (.absent, ["__hash__"]), (.method, ["__getitem__", "__reversed__", "__sizeof__"]),
     (.operation, basics ++ comparisons ++ sequences),
     (.operation, ["__init__", "__setitem__", "__delitem__", "__iadd__", "__imul__"]),
     (.method, Value.listMethods), (.classMethod, ["__class_getitem__"])]
  | tuple =>
    [(.maker, ["__new__"]), (.operation, basics ++ comparisons ++ sequences),
     (.method, "__getnewargs__" :: Value.tupleMethods), (.classMethod, ["__class_getitem__"])]
  | mapping =>
    [(.maker, ["__new__"]), (.absent, ["__hash__"]), (.operation, basics ++ comparisons),
     (.operation, ["__iter__", "__init__", "__or__", "__ror__", "__ior__", "__len__", "__setitem__",
       "__delitem__"]),
     (.method, ["__getitem__", "__contains__", "__sizeof__", "get", "setdefault", "pop", "popitem", "keys", "items",
       "values", "update", "clear", "copy", "__reversed__"]),
     (.classMethod, ["fromkeys", "__class_getitem__"])]
  | range =>
    [(.maker, ["__new__"]), (.operation, basics ++ comparisons),
     (.operation, ["__hash__", "__iter__", "__bool__", "__len__", "__getitem__", "__contains__"]),
     (.method, "__reversed__" :: "__reduce__" :: Value.tupleMethods), (.store, ["start", "stop", "step"])]
  | stream =>
    [(.operation, basics), (.operation, ["__iter__", "__next__", "__del__"]),
     (.method, "__sizeof__" :: Value.streamMethods), (.store, ["gi_code"]),
     (.answer, ["__name__", "__qualname__", "gi_yieldfrom", "gi_running", "gi_frame", "gi_suspended"])]
  | method =>
    [(.operation, basics), (.operation, ["__call__", "__get__"]), (.method, ["__reduce__"]),
     (.store, ["__objclass__", "__name__"]), (.answer, ["__doc__", "__qualname__", "__text_signature__"])]
  | operation =>
    [(.operation, basics), (.operation, ["__call__", "__get__"]), (.method, ["__reduce__"]),
     (.store, ["__objclass__", "__name__"]), (.answer, ["__doc__", "__qualname__", "__text_signature__"])]
  | classMethod =>
    [(.operation, basics), (.operation, ["__call__", "__get__"]), (.store, ["__objclass__", "__name__"]),
     (.answer, ["__doc__", "__qualname__", "__text_signature__"])]
  | answer =>
    [(.operation, basics), (.operation, ["__get__", "__set__", "__delete__"]),
     (.store, ["__objclass__", "__name__"]), (.answer, ["__doc__", "__qualname__"])]
  | store =>
    [(.operation, basics), (.operation, ["__get__", "__set__", "__delete__"]), (.method, ["__reduce__"]),
     (.store, ["__objclass__", "__name__"]), (.answer, ["__doc__", "__qualname__"])]
  | boundMethod =>
    [(.operation, basics ++ comparisons), (.operation, ["__hash__", "__call__"]), (.method, ["__reduce__"]),
     (.store, ["__module__"]),
     (.answer, ["__doc__", "__name__", "__qualname__", "__self__", "__text_signature__"])]
  | boundOperation =>
    [(.operation, basics ++ comparisons), (.operation, ["__hash__", "__call__"]), (.method, ["__reduce__"]),
     (.store, ["__self__"]),
     (.answer, ["__objclass__", "__name__", "__qualname__", "__doc__", "__text_signature__"])]
  | members =>
    [(.maker, ["__new__"]), (.absent, ["__hash__"]), (.operation, basics ++ comparisons),
     (.operation, ["__str__", "__iter__", "__or__", "__ror__", "__ior__", "__len__", "__getitem__",
       "__contains__"]),
     (.method, ["get", "keys", "values", "items", "copy", "__reversed__"]),
     (.classMethod, ["__class_getitem__"])]

/-- the role of a member that a class has besides those of its ancestors -/
def role? (c : Class) (name : Text) : Option Role :=
  (c.own.find? fun p => p.2.any fun m => m.toList == name).map Prod.fst

/-- the member of a class and its ancestors under a name: whose it is, and its role -/
def find? (c : Class) (name : Text) : Option (Class × Role) :=
  c.line.findSome? fun d => (d.role? name).map fun r => (d, r)

end Stencil.Class
