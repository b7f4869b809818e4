/-
OPEN LOOPS. A loop counts its iterations from one and tells where it stands; loops that enclose one another are a
list, the innermost first, and a template sees the innermost as `loop` with the others as its parents.
-/
import Stencil.Value.Display

namespace Stencil

/-- an open loop: where it stands, and the key of the current entry -/
structure Loop where
  facts : LoopFacts
  key : Value

namespace Loop

/-- a loop of a number of iterations, before the first -/
def start (count : Int) : Loop := ⟨⟨1, count, true, false, false, true⟩, .none⟩

/-- the loop at the beginning of an iteration -/
def enter (key : Value) (l : Loop) : Loop :=
  let even := l.facts.index % 2 == 0
  ⟨{ l.facts with last := l.facts.index == l.facts.count, even := even, odd := !even }, key⟩

/-- the loop at the end of an iteration -/
def advance (l : Loop) : Loop := { l with facts := { l.facts with index := l.facts.index + 1, first := false } }

/-- the innermost of open loops as a template sees it; nothing if none is open -/
def value : List Loop → Value
  | [] => .none
  | l :: outer => .loop outer.length l.facts l.key (value outer)

/-- the loop as text -/
def text (l : Loop) : Text := Value.loopText l.facts

/-- all that the loop tells -/
def snapshot (l : Loop) : Value :=
  .tuple [.int l.facts.index, .int l.facts.count, .bool l.facts.first, .bool l.facts.last, .bool l.facts.even,
    .bool l.facts.odd, l.key]

end Loop

end Stencil
