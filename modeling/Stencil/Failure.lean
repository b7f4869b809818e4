/-
FAILURES of a render, and of the functions a render consists of, by their causes.
-/
import Stencil.Text.Basic

namespace Stencil

/-- why a render stops -/
inductive Failure where
  /-- a strict reference reaches nothing -/
  | undefined (reference : Text)
  /-- a value stands where only a mapping can be used -/
  | notMapping
  /-- a value has no items -/
  | notIterable
  /-- a list, a mapping or a tuple that holds one stands where a key is needed -/
  | notKey
  /-- a field is called that cannot be -/
  | notCallable
  /-- an item is asked for by something that is no index -/
  | badIndex
  /-- a function gets too few or too many arguments, or one it has no place for -/
  | badArguments
  /-- a value is written with a format it has none of -/
  | badFormat
  /-- an entry is asked for by a key that is not there -/
  | unknownKey
  /-- an integer is too large for what it is taken as -/
  | tooLarge
  /-- a text is longer than any memory -/
  | noRoom
  /-- a function of texts gets something else -/
  | notText
  /-- an item that is to become an entry does not consist of two -/
  | notPair
  /-- a range cannot count in steps of zero -/
  | zeroStep
  /-- a value lacks an attribute that is used -/
  | noAttribute (name : Text)
  /-- a comparison operator that is none of the six -/
  | unknownOperator
  /-- the last one is taken off an empty stack -/
  | nothingOpen
  /-- a number literal beyond all doubles is evaluated, or a temporary before it is set -/
  | unknownName (name : Text)
  deriving DecidableEq, Repr

/-- the text of the failure that a template's author sees -/
def Failure.message : Failure → Text
  | undefined reference => "Undefined variable: ".toList ++ reference
  | notMapping => "not a mapping"
  | notIterable => "not iterable"
  | notKey => "not usable as a key"
  | notCallable => "not callable"
  | badIndex => "not an index"
  | badArguments => "wrong arguments"
  | badFormat => "no such format"
  | unknownKey => "no such key"
  | tooLarge => "too large"
  | noRoom => "no room"
  | notText => "not a text"
  | notPair => "not a pair"
  | zeroStep => "step is zero"
  | noAttribute name => "no attribute ".toList ++ name
  | unknownOperator => "unknown operator"
  | nothingOpen => "nothing is open"
  | unknownName name => "unknown name ".toList ++ name

end Stencil
