/-
THINGS that a phrase can look at: values, classes, the members of classes, and members bound to a thing.
`attribute?` is what stands behind a name, `item` what stands at an index or under a key, and `literal` and
`display` are the texts of a thing.

An attribute of a class is a fact about the class, or one of its members, or a member of the class of classes
bound to it. An attribute of any other thing is one that its class has for a member. Classes say something of
themselves, their members do not. A bound member is written without the place where the thing is kept.
-/
import Stencil.Class.Manual
import Stencil.Class.Member
import Stencil.Failure

namespace Stencil

/-- what a phrase can look at -/
inductive Thing where
  | value (v : Value)
  | kind (c : Class)
  /-- classes in a row -/
  | kinds (cs : List Class)
  /-- a member seen in its class -/
  | member (c : Class) (role : Role) (name : Text)
  /-- a member of a class, taken from a thing -/
  | bound (owner : Thing) (c : Class) (role : Role) (name : Text)
  /-- all members of a class by their names -/
  | members (c : Class)
  /-- a class of things that hold others, for one kind of those -/
  | holding (c : Class) (key : Value)

/-- the class of the members in a role -/
def Role.kind : Role → Class
  | .method => .method
  | .classMethod => .classMethod
  | .maker | .static => .boundMethod
  | .operation => .operation
  | .answer => .answer
  | .store => .store
  | .absent => .nothing

namespace Thing

/-- a text as a thing -/
def text (s : Text) : Thing := .value (.text s)

/-- a number as a thing -/
def number (n : Nat) : Thing := .value (.int n)

/-- a text, or nothing -/
def text? (s : Option Text) : Thing := (s.map text).getD (.value .none)

/-- the class of a thing, if it is one of the known ones -/
def kind? : Thing → Option Class
  | value v => Class.ofValue? v
  | kind _ => some .type
  | kinds _ => some .tuple
  | member _ role _ => some role.kind
  | bound _ _ .operation _ => some .boundOperation
  | bound _ _ _ _ => some .boundMethod
  | members _ => some .members
  | holding _ _ => none

end Thing

namespace Class

/-- the facts about a class, by name -/
def facts (c : Class) : List (String × Thing) :=
  [("__name__", .text c.name), ("__qualname__", .text c.name), ("__module__", .text home),
   ("__class__", .kind .type), ("__dict__", .members c), ("__mro__", .kinds c.line),
   ("__bases__", .kinds (c.ancestors.take 1)),
   ("__base__", (c.ancestors.head?.map Thing.kind).getD (.value .none)),
   ("__doc__", match c.manual?, c.role? "__doc__".toList with
     | none, some role => .member c role "__doc__"
     | s, _ => .text? s),
   ("__text_signature__", .text? c.signature?),
   ("__basicsize__", .number c.figures.size), ("__itemsize__", .number c.figures.itemSize),
   ("__flags__", .number c.figures.marks), ("__dictoffset__", .number c.figures.entries),
   ("__weakrefoffset__", .number c.figures.watchers)]

/-- names of facts that none of the classes has -/
def withheld : List String := ["__abstractmethods__", "__annotations__"]

/-- a member as it is seen in the class `c`, which `d` in its line has it -/
def seen (c d : Class) (name : Text) : Role → Thing
  | .classMethod => .bound (.kind c) d .classMethod name
  | .maker => .bound (.kind d) d .maker name
  | .static => .bound (.kind d) d .static name
  | .absent => .value .none
  | role => .member d role name

/-- an attribute of a class -/
def attribute? (c : Class) (name : Text) : Option Thing :=
  match c.facts.find? fun f => f.1.toList == name with
  | some f => some f.2
  | none =>
    if withheld.any fun m => m.toList == name then none
    else
      match c.find? name with
      | some (d, role) => some (c.seen d name role)
      | none => (type.find? name).map fun p => .bound (.kind c) p.1 p.2 name

/-- the member of a class under its own name there -/
def entry? (c : Class) (name : Text) : Option Thing :=
  if name == "__doc__".toList && (c.role? name).isNone then some (.text? c.manual?)
  else
    (c.role? name).map fun
      | .maker => .bound (.kind c) c .maker name
      | .static => .bound (.kind c) c .static name
      | .absent => .value .none
      | role => .member c role name

end Class

namespace Thing

/-- the class by which a member bound to a thing is known -/
def home (owner : Thing) (c : Class) : Role → Class
  | .operation => c
  | _ =>
    match owner with
    | kind d => d
    | t => t.kind?.getD c

/-- what a thing other than a class answers itself to the names of its answers -/
def answer? : Thing → Text → Option Thing
  | value v, name => (v.attribute? name).map value
  | member c _ m, name =>
    if name == "__name__".toList then some (text m)
    else if name == "__qualname__".toList then some (text (c.name ++ '.' :: m))
    else if name == "__objclass__".toList then some (kind c)
    else none
  | bound owner c role m, name =>
    if name == "__name__".toList then some (text m)
    else if name == "__qualname__".toList then some (text ((home owner c role).name ++ '.' :: m))
    else if name == "__objclass__".toList then some (kind c)
    else if name == "__self__".toList then some (if role == .static then value .none else owner)
    else if name == "__module__".toList then some (value .none)
    else none
  | _, _ => none

/-- the attribute of a thing that is no class, `c` being its class -/
def instanceAttribute? (t : Thing) (c : Class) (name : Text) : Option Thing :=
  if name == "__class__".toList then some (kind c)
  else
    match c.find? name with
    | some (_, .answer) => t.answer? name
    | some (_, .store) => t.answer? name
    | some (d, .method) => some (bound t d .method name)
    | some (d, .operation) => some (bound t d .operation name)
    | some (d, role) => some (c.seen d name role)
    | none => if name == "__doc__".toList then some (text? c.manual?) else none

/-- what stands behind a name -/
def attribute? (t : Thing) (name : Text) : Option Thing :=
  match t with
  | kind c => c.attribute? name
  | holding c key =>
    if name == "__origin__".toList then some (kind c)
    else if name == "__args__".toList then some (value (.tuple [key]))
    else if name == "__class__".toList then none
    else c.attribute? name
  | t =>
    match t.kind? with
    | some c => t.instanceAttribute? c name
    | none => t.answer? name

/-- the name of the class of a thing -/
def className (t : Thing) : Text := (t.kind?.map Class.name).getD "object"

/-- how members in a role are called -/
def memberWord : Role → Text
  | .operation => "slot wrapper"
  | .answer => "attribute"
  | .store => "member"
  | _ => "method"

/-- a thing as it stands inside another -/
def literal : Thing → Text
  | value v => v.literal
  | kind c => c.literal
  | kinds [c] => '(' :: c.literal ++ [',', ')']
  | kinds cs => '(' :: Text.sep ", ".toList (cs.map Class.literal) ++ [')']
  | member c role m => Text.cat ["<", memberWord role, " '", m, "' of '", c.name, "' objects>"]
  | bound owner _ .operation m => Text.cat ["<method-wrapper '", m, "' of ", owner.className, " object>"]
  | bound owner _ _ m => Text.cat ["<built-in method ", m, " of ", owner.className, " object>"]
  | members c => Text.cat ["mappingproxy(", c.name, ")"]
  | holding c key => Text.cat [c.name, "[", key.literal, "]"]

/-- a thing as it stands alone -/
def display : Thing → Text
  | value v => v.display
  | t => t.literal

/-- a thing as the one that lacks something -/
def subject : Thing → Text
  | kind c => Text.cat ["type object '", c.name, "'"]
  | t => Text.cat ["'", t.className, "' object"]

end Thing

/-- why nothing stands at an index or under a key -/
inductive NoItem where
  /-- the end of what has a name comes before the index -/
  | beyond (name : Text)
  | unknownKey
  /-- there are no items, or none at such an index -/
  | notIndexed
  deriving DecidableEq, Repr

namespace Thing

/-- the item of what has its items in a row -/
def itemIn {α : Type} (name : String) (make : α → Thing) (xs : List α) (key : Value) : Except NoItem Thing :=
  match key with
  | .int n .. => (xs[n.toNat]?.map make).elim (.error (.beyond name.toList)) .ok
  | _ => .error .notIndexed

/-- what stands at an index or under a key -/
def item (t : Thing) (key : Value) : Except NoItem Thing :=
  match t with
  | value (.text s ..) => itemIn "string " (fun c => text [c]) s key
  | value (.markup s ..) => itemIn "string " (fun c => text [c]) s key
  | value (.list xs ..) => itemIn "list " value xs key
  | value (.tuple xs ..) => itemIn "tuple " value xs key
  | value (.bytes bs ..) => itemIn "" (fun b => number b.toNat) bs key
  | value (.range a b s ..) =>
    match key with
    | .int n .. =>
      match (Value.range a b s).item? n.toNat with
      | some w => .ok (value w)
      | none => .error (.beyond "range object ")
    | _ => .error .notIndexed
  | value (.mapping es) => ((Value.find? key es).map value).elim (.error .unknownKey) .ok
  | kinds cs => itemIn "tuple " kind cs key
  | members c => ((key.chars?.bind c.entry?)).elim (.error .unknownKey) .ok
  | kind c => if c.takesIndex then .ok (holding c key) else .error .notIndexed
  | _ => .error .notIndexed

end Thing

end Stencil
