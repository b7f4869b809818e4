/-
LOG RECORDS. A message has a level: 1 tells progress, 2 details of every template, 3 the inner steps. It is
recorded if a verbosity is set and reaches its level, with the template it is about.
-/
import Stencil.Text.Basic

namespace Stencil

/-- a message and its level -/
structure Message where
  level : Int
  text : Text
  deriving DecidableEq, Repr

/-- a recorded message; the template is absent outside of the work on one -/
structure Record where
  message : Message
  template : Option Text
  deriving DecidableEq, Repr

/-- the name of a level -/
def levelName (level : Int) : Text := if level == 1 then "INFO" else if level == 2 then "DEBUG" else "TRACE"

/-- what stands for the template where there is none -/
def noTemplate : Text := "-"

/-- a verbosity, if one is set, and the records so far, last first -/
structure Log where
  verbosity : Option Int
  records : List Record
  deriving Repr

namespace Log

/-- silent, and nothing recorded -/
def silent : Log := ⟨none, []⟩

/-- a message shown at a verbosity -/
def shows (verbosity : Option Int) (m : Message) : Bool :=
  match verbosity with
  | some v => m.level ≤ v
  | none => false

/-- a message about a template, or none, recorded if the verbosity allows -/
def add (l : Log) (template : Option Text) (m : Message) : Log :=
  if shows l.verbosity m then { l with records := ⟨m, template⟩ :: l.records } else l

/-- messages recorded one after the other -/
def addAll (l : Log) (template : Option Text) (ms : List Message) : Log := ms.foldl (fun l m => l.add template m) l

end Log

end Stencil
