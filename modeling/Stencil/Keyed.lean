/-
KEYED LISTS: entries of a key and a value, in the order in which the keys were first put.
-/

namespace Stencil

variable {α β : Type} [BEq α]

/-- the entries with a value put under a key: a key that is there keeps its place -/
def putAt (key : α) (value : β) : List (α × β) → List (α × β)
  | [] => [(key, value)]
  | e :: es => if e.1 == key then (e.1, value) :: es else e :: putAt key value es

/-- the value under a key -/
def getAt? (key : α) (es : List (α × β)) : Option β := (es.find? fun e => e.1 == key).map (·.2)

end Stencil
