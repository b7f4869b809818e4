/-
FLAWS: why a phrase of the catalog cannot be filled in. A phrase with a flaw is used as it is written, and its flaw
is told in the log. What stops filling in without a flaw is a failure of the render.
-/
import Stencil.Failure
import Stencil.Text.Half

namespace Stencil

/-- what is wrong with a phrase, or with what is asked of its parameters -/
inductive Flaw where
  /-- a closing brace that nothing opens and that is not doubled -/
  | loneClosing
  /-- an opening brace at the end -/
  | loneOpening
  /-- an opening brace in the name of a field -/
  | braceInName
  /-- a field without an end -/
  | openField
  /-- a conversion mark at the end -/
  | noConversion
  /-- something else than a specification after a conversion -/
  | afterConversion
  /-- a specification without an end -/
  | openSpecification
  /-- a field without a name, or with a number for one -/
  | positional
  /-- a number beyond the greatest one -/
  | tooManyDigits
  /-- an accessor in brackets without an end -/
  | openBracket
  /-- something else than an accessor after a bracket -/
  | afterBracket
  /-- an accessor without a name -/
  | emptyAccessor
  /-- a conversion that is none of the three -/
  | unknownConversion (c : Char)
  /-- fields in the specification of a field in a specification -/
  | tooDeep
  /-- a specification that does not end after its type, for a value of a class -/
  | invalidSpecification (spec owner : Text)
  /-- a point without a precision -/
  | noPrecision
  /-- both marks that group digits -/
  | twoGroupings
  /-- a mark that groups digits, with a type that has none to group -/
  | grouping (mark type : Char)
  /-- a type that is none of the class of the value -/
  | unknownType (type : Char) (owner : Text)
  /-- a sign, for a text -/
  | sign (mark : Char)
  /-- the coercion of negative zeros, for a text -/
  | zeroCoercion
  /-- the alternate form, for a text -/
  | alternate
  /-- padding after the sign, for a text -/
  | afterSign
  /-- a precision, for an integer -/
  | integerPrecision
  /-- the coercion of negative zeros, for an integer -/
  | integerCoercion
  /-- a sign, for a character by its code -/
  | characterSign
  /-- the alternate form, for a character by its code -/
  | characterAlternate
  /-- a precision beyond the greatest one -/
  | precisionTooBig
  /-- an index beyond the end of something -/
  | badIndex (place : Text)
  /-- an attribute that something has not -/
  | noAttribute (subject name : Text)
  /-- parameters that are no entries -/
  | badParameters
  deriving DecidableEq, Repr

/-- a character between apostrophes -/
def Flaw.mark (c : Char) : Text := ['\'', c, '\'']

/-- a character by its code -/
def Flaw.code (c : Char) : Text := '\\' :: 'x' :: Nat.toDigits 16 (Text.code c)

/-- a type between apostrophes, one outside ASCII by its code -/
def Flaw.type (c : Char) : Text := if 32 < c.toNat && c.toNat < 128 then mark c else ['\''] ++ code c ++ ['\'']

/-- what the log tells of a flaw -/
def Flaw.message : Flaw → Text
  | loneClosing => "Single '\x7d' encountered in format string"
  | loneOpening => "Single '\x7b' encountered in format string"
  | braceInName => "unexpected '\x7b' in field name"
  | openField => "expected '\x7d' before end of string"
  | noConversion => "end of string while looking for conversion specifier"
  | afterConversion => "expected ':' after conversion specifier"
  | openSpecification => "unmatched '\x7b' in format spec"
  | positional => "Format string contains positional fields"
  | tooManyDigits => "Too many decimal digits in format string"
  | openBracket => "Missing ']' in format string"
  | afterBracket => "Only '.' or '[' may follow ']' in format field specifier"
  | emptyAccessor => "Empty attribute in format string"
  | unknownConversion c =>
    if 32 < c.toNat && c.toNat < 127 then "Unknown conversion specifier ".toList ++ mark c
    else "Unknown conversion specifier ".toList ++ code c
  | tooDeep => "Max string recursion exceeded"
  | invalidSpecification spec owner =>
    Text.cat ["Invalid format specifier '", spec, "' for object of type '", owner, "'"]
  | noPrecision => "Format specifier missing precision"
  | twoGroupings => "Cannot specify both ',' and '_'."
  | grouping m t => Text.cat ["Cannot specify ", mark m, " with ", type t, "."]
  | unknownType t owner => Text.cat ["Unknown format code ", type t, " for object of type '", owner, "'"]
  | sign m =>
    if m == ' ' then "Space not allowed in string format specifier"
    else "Sign not allowed in string format specifier"
  | zeroCoercion => "Negative zero coercion (z) not allowed in string format specifier"
  | alternate => "Alternate form (#) not allowed in string format specifier"
  | afterSign => "'=' alignment not allowed in string format specifier"
  | integerPrecision => "Precision not allowed in integer format specifier"
  | integerCoercion => "Negative zero coercion (z) not allowed in integer format specifier"
  | characterSign => "Sign not allowed with integer format specifier 'c'"
  | characterAlternate => "Alternate form (#) not allowed with integer format specifier 'c'"
  | precisionTooBig => "precision too big"
  | badIndex place => Text.cat [place, "index out of range"]
  | noAttribute subject name => Text.cat [subject, " has no attribute '", name, "'"]
  | badParameters => "parameters are not entries of two"

/-- why filling in stops: a flaw of the phrase, or a failure of the render -/
inductive Stop where
  | flaw (f : Flaw)
  | failure (f : Failure)
  deriving DecidableEq, Repr

end Stencil
