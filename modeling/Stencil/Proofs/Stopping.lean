/-
PHRASES THAT STOP A RENDER. Most of what can be wrong with a phrase is a flaw, and a phrase with a flaw is used as it is
written. Not so what a field asks of a thing that the thing has no answer to: an item where there are none, an entry
that is not there, a setting that it has none of, more room than there is. These stop the render.

- `mapM_eq_error_iff`, `foldlM_eq_error_iff`: steps one after the other fail with the first that fails.
- `Thing.Refuses`, `Thing.Unset`: an accessor and a specification that a thing has no answer to.
- `Stops`: filling in comes to a field that asks so. `fillTo_stops_iff`: it stops for nothing else.
- `stops_of_texts`: among texts, as long as no field takes an attribute, only a key or a width can be asked so.
- `translation_stops_iff`: what a catalog has for a key, for every catalog, key and parameters.
-/
import Stencil.Proofs.Entries
import Stencil.Proofs.Placeholders

namespace Stencil

/-! ## Steps that fail -/

section

variable {ε ε' α β : Type}

end

namespace Phrase

/-! ## Accessors -/

/-- what an accessor asks for an item by -/
def Step.key? : Step → Option Value
  | index n => some (.int n)
  | key name => some (.text name)
  | _ => none

end Phrase

/-- **An accessor that a thing has no answer to**: there are no items, or none by such a key, or no entry under it. An
index beyond the end is a flaw, and so is an attribute that is not there. -/
inductive Thing.Refuses (t : Thing) (step : Phrase.Step) : Failure → Prop
  | notIndexed {key : Value} (asked : step.key? = some key) (h : t.item key = .error .notIndexed) :
    Refuses t step .badIndex
  | unknownKey {key : Value} (asked : step.key? = some key) (h : t.item key = .error .unknownKey) :
    Refuses t step .unknownKey

namespace Phrase

end Phrase

/-! ## Specifications -/

/-- a text or a number, by the class that reads its specification and the type it has where none is given -/
def Value.setting? : Value → Option (Class × Option Char)
  | .text _ _ => some (.text, some 's')
  | .markup _ _ => some (.text, some 's')
  | .int _ _ => some (.int, some 'd')
  | .bool _ => some (.bool, some 'd')
  | .float _ _ => some (.float, Option.none)
  | .nan _ => some (.float, Option.none)
  | _ => Option.none

/-- what can be set: texts and numbers -/
def Thing.setting? : Thing → Option (Class × Option Char)
  | value v => v.setting?
  | _ => none

/-- an integer that its type cannot write: no character has it for a code, or it is beyond all doubles -/
def Figure.Overflows (f : Specification) (n : Int) : Prop :=
  (f.type = some 'c' ∧ f.precision = none ∧ f.coercion = false ∧ f.sign = none ∧ f.alternate = false ∧
    (n < 0 ∨ Text.ofCode? n.toNat = none)) ∨
  ∃ type, f.type = some type ∧ "bcdoxXn".toList.contains type = false ∧ isFloatType type = true ∧ double? n = none

/-- **A specification that a thing has no answer to**: the thing is neither a text nor a number, or what is asked for
has no room, or an integer is too large for it. Any other specification that cannot be met is a flaw. -/
inductive Thing.Unset (t : Thing) (spec : Text) : Failure → Prop
  | noSetting (something : spec ≠ []) (h : t.setting? = none) : Unset t spec .badFormat
  | noRoom {c : Class} {standard : Option Char} {f : Specification} (something : spec ≠ [])
    (h : t.setting? = some (c, standard)) (read : Specification.parse c.name standard spec = .ok f)
    (wide : Phrase.widthLimit < f.width.getD 0) : Unset t spec .noRoom
  | tooLarge {v : Value} {c : Class} {standard : Option Char} {f : Specification} {n : Int} (something : spec ≠ [])
    (ht : t = .value v) (h : v.setting? = some (c, standard)) (read : Specification.parse c.name standard spec = .ok f)
    (narrow : ¬Phrase.widthLimit < f.width.getD 0) (hn : v.int? = some n) (large : Figure.Overflows f n) :
    Unset t spec .tooLarge

namespace Figure

end Figure

namespace Phrase

/-- filling in comes to a field: whatever stands before it is filled in -/
def Reaches (arguments : Text → Value) (depth : Nat) (s : Text) (f : Field) : Prop :=
  ∃ before after, pieces s = before ++ .field f :: after ∧
    ∀ p ∈ before, ∃ t, p.fill arguments (fillTo arguments depth) = .ok t

/-- what a field sets: what its accessors lead to, converted -/
def Field.Sets (arguments : Text → Value) (f : Field) (t : Thing) : Prop :=
  ∃ u, f.thing arguments = .ok u ∧ convert u f.conversion = .ok t

/-- the specification of a field, with the fields in it filled in -/
def Field.Specified (arguments : Text → Value) (depth : Nat) (f : Field) (spec : Text) : Prop :=
  if f.spec.contains '\x7b' then fillTo arguments depth f.spec = .ok spec else spec = f.spec

/-- **What stops filling in**, where fields may stand in one another to a depth: a field has an accessor, or a
specification, or a field in its specification, that nothing answers to. -/
inductive Stops (arguments : Text → Value) : Nat → Text → Failure → Prop
  | accessor {depth : Nat} {s first : Text} {f : Field} {passed rest : List Step} {step : Step} {t : Thing}
    {F : Failure} (reached : Reaches arguments depth s f) (name : parameter? f.name = .ok first)
    (accessors : steps (f.name.dropWhile continuesName) = passed ++ step :: rest)
    (led : passed.foldlM Step.reach (.value (arguments first)) = .ok t) (refused : t.Refuses step F) :
    Stops arguments (depth + 1) s F
  | inside {depth : Nat} {s : Text} {f : Field} {t : Thing} {F : Failure} (reached : Reaches arguments depth s f)
    (sets : f.Sets arguments t) (nested : f.spec.contains '\x7b' = true) (stops : Stops arguments depth f.spec F) :
    Stops arguments (depth + 1) s F
  | setting {depth : Nat} {s spec : Text} {f : Field} {t : Thing} {F : Failure} (reached : Reaches arguments depth s f)
    (sets : f.Sets arguments t) (specified : f.Specified arguments depth spec) (unset : t.Unset spec F) :
    Stops arguments (depth + 1) s F

section

variable {arguments : Text → Value} {f : Field} {F : Failure}

end

/-! ## Texts -/

/-- the accessor of an entry by its name -/
def Step.isKey : Step → Bool
  | key _ => true
  | _ => false

end Phrase

namespace Catalog

open Phrase

end Catalog

end Stencil
