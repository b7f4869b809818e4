/-
THE MANUAL: what classes say of themselves.
-/
import Stencil.Class.Basic

namespace Stencil.Class

/-- lines as one text -/
def passage (lines : List String) : Text := Text.sep ['\n'] (lines.map String.toList)

/-- what a class says of itself -/
def manual? : Class → Option Text
  | object =>
    some (passage ["The base class of the class hierarchy.",
      "",
      "When called, it accepts no arguments and returns a new featureless",
      "instance that has no instance attributes and cannot be given any.",
      ""])
  | type =>
    some "type(object) -> the object's type\ntype(name, bases, dict, **kwds) -> a new type"
  | bool =>
    some (passage ["bool(x) -> bool",
      "",
      "Returns True when the argument x is true, False otherwise.",
      "The builtins True and False are the only two instances of the class bool.",
      "The class bool is a subclass of the class int, and cannot be subclassed."])
  | int =>
    some (passage ["int([x]) -> integer",
      "int(x, base=10) -> integer",
      "",
      "Convert a number or string to an integer, or return 0 if no arguments",
      "are given.  If x is a number, return x.__int__().  For floating point",
      "numbers, this truncates towards zero.",
      "",
      "If x is not a number or if base is given, then x must be a string,",
      "bytes, or bytearray instance representing an integer literal in the",
      "given base.  The literal can be preceded by '+' or '-' and be surrounded",
      "by whitespace.  The base defaults to 10.  Valid bases are 0 and 2-36.",
      "Base 0 means to interpret the base from the string as an integer literal.",
      ">>> int('0b100', base=0)",
      "4"])
  | float =>
    some "Convert a string or number to a floating point number, if possible."
  | text =>
    some (passage ["str(object='') -> str",
      "str(bytes_or_buffer[, encoding[, errors]]) -> str",
      "",
      "Create a new string object from the given object. If encoding or",
      "errors is specified, then the object must expose a data buffer",
      "that will be decoded using the given encoding and error handler.",
      "Otherwise, returns the result of object.__str__() (if defined)",
      "or repr(object).",
      "encoding defaults to sys.getdefaultencoding().",
      "errors defaults to 'strict'."])
  | bytes =>
    some (passage ["bytes(iterable_of_ints) -> bytes",
      "bytes(string, encoding[, errors]) -> bytes",
      "bytes(bytes_or_buffer) -> immutable copy of bytes_or_buffer",
      "bytes(int) -> bytes object of size given by the parameter initialized with null bytes",
      "bytes() -> empty bytes object",
      "",
      "Construct an immutable array of bytes from:",
      "  - an iterable yielding integers in range(256)",
      "  - a text string encoded using the specified encoding",
      "  - any object implementing the buffer API.",
      "  - an integer"])
  | list =>
    some (passage ["Built-in mutable sequence.",
      "",
      "If no argument is given, the constructor creates a new empty list.",
      "The argument must be an iterable if specified."])
  | tuple =>
    some (passage ["Built-in immutable sequence.",
      "",
      "If no argument is given, the constructor returns an empty tuple.",
      "If iterable is specified the tuple is initialized from iterable's items.",
      "",
      "If the argument is a tuple, the return value is the same object."])
  | mapping =>
    some (passage ["dict() -> new empty dictionary",
      "dict(mapping) -> new dictionary initialized from a mapping object's",
      "    (key, value) pairs",
      "dict(iterable) -> new dictionary initialized as if via:",
      "    d = \x7b\x7d",
      "    for k, v in iterable:",
      "        d[k] = v",
      "dict(**kwargs) -> new dictionary initialized with the name=value pairs",
      "    in the keyword argument list.  For example:  dict(one=1, two=2)"])
  | range =>
    some (passage ["range(stop) -> range object",
      "range(start, stop[, step]) -> range object",
      "",
      "Return an object that produces a sequence of integers from start (inclusive)",
      "to stop (exclusive) by step.  range(i, j) produces i, i+1, i+2, ..., j-1.",
      "start defaults to 0, and stop is omitted!  range(4) produces 0, 1, 2, 3.",
      "These are exactly the valid indices for a list of 4 elements.",
      "When step is given, it specifies the increment (or decrement)."])
  | _ => none

end Stencil.Class
