/-
TEXT OF A VALUE. `literal` is how a value stands inside a list, a tuple or a mapping: texts are quoted there,
lists are in brackets, tuples in parentheses (with a comma after a single item), mappings in braces with a colon
between key and value. `display` is how a value stands alone: texts as they are, all else as its literal.
-/
import Stencil.Value.Basic
import Stencil.Text.Quoted

namespace Stencil.Value

/-- a truth value as text -/
def boolText (b : Bool) : Text := if b then "True" else "False"

/-- a loop by where it stands -/
def loopText (facts : LoopFacts) : Text :=
  Text.cat ["<LoopContext ", Text.ofInt facts.index, "/", Text.ofInt facts.count, ">"]

/-- a form by its entity's name -/
def formText (name : Text) : Text := Text.cat ["<Form ", name, ">"]

/-- a range by its bounds; the step is left out if it is one -/
def rangeText (start stop step : Int) : Text :=
  Text.cat ["range(", Text.ofInt start, ", ", Text.ofInt stop,
    if step == 1 then [] else ", ".toList ++ Text.ofInt step, ")"]

/-- a method by its name and owner -/
def methodText (owner : Value) (name : Text) : Text :=
  match owner with
  | .loop _ facts _ _ => Text.cat ["<bound method LoopContext.", name, " of ", loopText facts, ">"]
  | .form _ entity _ _ _ _ _ _ => Text.cat ["<bound method Form.", name, " of ", formText entity, ">"]
  | _ => Text.cat ["<method ", name, ">"]

mutual

/-- a value as it stands inside another -/
def literal : Value → Text
  | .none => "None"
  | .bool b => boolText b
  | .int n .. => Text.ofInt n
  | .float x .. => x.text
  | .nan _ => "nan"
  | .text s .. => Text.Quoted.encode s
  | .markup s .. => Text.Quoted.encode s
  | .bytes bs .. => Text.Quoted.encodeBytes bs
  | .list xs .. => '[' :: Text.sep ", ".toList (literals xs) ++ [']']
  | .tuple xs .. =>
    match xs with
    | [x] => '(' :: literal x ++ [',', ')']
    | xs => '(' :: Text.sep ", ".toList (literals xs) ++ [')']
  | .mapping es => '\x7b' :: Text.sep ", ".toList (entryLiterals es) ++ ['\x7d']
  | .object _ name _ => '<' :: name ++ ['>']
  | .stream _ _ => "<stream>"
  | .range a b s .. => rangeText a b s
  | .missing => "<missing>"
  | .method owner name => methodText owner name
  | .loop _ facts _ _ => loopText facts
  | .form _ name _ _ _ _ _ _ => formText name

/-- every item as it stands inside another value -/
def literals : List Value → List Text
  | [] => []
  | x :: xs => literal x :: literals xs

/-- every entry as key, colon and value -/
def entryLiterals : List (Value × Value) → List Text
  | [] => []
  | (k, v) :: es => (literal k ++ ':' :: ' ' :: literal v) :: entryLiterals es

end

/-- a value as it stands alone -/
def display (v : Value) : Text :=
  match v.chars? with
  | some s => s
  | Option.none => v.literal

end Stencil.Value
