/-
PHRASES: texts of the catalog with fields in braces. A doubled brace stands for itself. A field is the name of a
parameter, accessors (a point and an attribute, or an index or key in brackets), a conversion after an exclamation
mark (r for the literal, a for the literal in ASCII, s for the text) and a specification after a colon, which may
hold fields itself. A parameter that is not given stands for its field. Accessors lead from the parameter's value
to a `Thing`; only texts and numbers can be set by a specification that is not empty.

`pieces` divides a phrase; what cannot be read is a piece, too, so that a phrase is filled in from left to right
and the first thing that is wrong decides. `fill` gives the text.
-/
import Stencil.Catalog.Alignment
import Stencil.Catalog.Figure
import Stencil.Class.Thing

namespace Stencil.Phrase

/-- a field: all that stands before the conversion and the specification, and these -/
structure Field where
  name : Text
  conversion : Option Char
  spec : Text
  deriving DecidableEq, Repr

/-- a part of a phrase -/
inductive Piece where
  | char (c : Char)
  | field (f : Field)
  | broken (flaw : Flaw)
  deriving DecidableEq, Repr

/-- the name of a field, the mark after it and the rest; between brackets no mark ends the name -/
def takeName (bracket : Bool) : Text → Except Flaw (Text × Char × Text)
  | [] => .error .openField
  | c :: cs =>
    if bracket then (takeName (c != ']') cs).map fun p => (c :: p.1, p.2)
    else if c == '\x7b' then .error .braceInName
    else if c == '\x7d' || c == ':' || c == '!' then .ok ([], c, cs)
    else (takeName (c == '[') cs).map fun p => (c :: p.1, p.2)

/-- the specification up to the brace that closes the field, with `depth` fields open inside it, and the rest -/
def takeSpec (depth : Nat) : Text → Except Flaw (Text × Text)
  | [] => .error .openSpecification
  | c :: cs =>
    if c == '\x7d' then
      match depth with
      | 0 => .ok ([], cs)
      | d + 1 => (takeSpec d cs).map fun p => (c :: p.1, p.2)
    else (takeSpec (if c == '\x7b' then depth + 1 else depth) cs).map fun p => (c :: p.1, p.2)

/-- the conversion and the specification after an exclamation mark, and the rest -/
def takeConversion : Text → Except Flaw (Char × Text × Text)
  | [] => .error .noConversion
  | [_] => .error .openSpecification
  | v :: c :: cs =>
    if c == '\x7d' then .ok (v, [], cs)
    else if c == ':' then (takeSpec 0 cs).map fun p => (v, p.1, p.2)
    else .error .afterConversion

/-- the field after an opening brace, and the rest -/
def takeField (s : Text) : Except Flaw (Field × Text) := do
  let (name, mark, rest) ← takeName false s
  if mark == '!' then
    let (v, spec, rest) ← takeConversion rest
    return (⟨name, some v, spec⟩, rest)
  else if mark == ':' then
    let (spec, rest) ← takeSpec 0 rest
    return (⟨name, none, spec⟩, rest)
  else return (⟨name, none, []⟩, rest)

theorem takeName_length {b : Bool} {s name rest : Text} {c : Char}
    (h : takeName b s = .ok (name, c, rest)) : rest.length < s.length := by
  induction s generalizing b name with
  | nil => simp [takeName] at h
  | cons a as ih =>
    simp only [takeName] at h
    have step : ∀ {b'}, (takeName b' as).map (fun p => (a :: p.1, p.2)) = .ok (name, c, rest) →
        rest.length < (a :: as).length := by
      intro b' h'
      cases hr : takeName b' as with
      | error e => simp [hr, Except.map] at h'
      | ok p =>
        obtain ⟨n, m, r⟩ := p
        simp only [hr, Except.map, Except.ok.injEq, Prod.mk.injEq] at h'
        obtain ⟨-, rfl, rfl⟩ := h'
        have := ih hr
        simp only [List.length_cons]
        omega
    split at h
    · exact step h
    · split at h
      · simp at h
      · split at h
        · simp only [Except.ok.injEq, Prod.mk.injEq] at h
          simp [h.2.2]
        · exact step h

theorem takeSpec_length {d : Nat} {s spec rest : Text} (h : takeSpec d s = .ok (spec, rest)) :
    rest.length < s.length := by
  induction s generalizing d spec with
  | nil => simp [takeSpec] at h
  | cons a as ih =>
    simp only [takeSpec] at h
    have step : ∀ {d'}, (takeSpec d' as).map (fun p => (a :: p.1, p.2)) = .ok (spec, rest) →
        rest.length < (a :: as).length := by
      intro d' h'
      cases hr : takeSpec d' as with
      | error e => simp [hr, Except.map] at h'
      | ok p =>
        simp only [hr, Except.map, Except.ok.injEq, Prod.mk.injEq] at h'
        obtain ⟨-, rfl⟩ := h'
        have hp : takeSpec d' as = .ok (p.1, p.2) := by rw [hr]
        have := ih hp
        simp only [List.length_cons]
        omega
    split at h
    · split at h
      · simp only [Except.ok.injEq, Prod.mk.injEq] at h
        simp [h.2]
      · exact step h
    · exact step h

theorem takeConversion_length {s spec rest : Text} {v : Char}
    (h : takeConversion s = .ok (v, spec, rest)) : rest.length < s.length := by
  match s with
  | [] => simp [takeConversion] at h
  | [_] => simp [takeConversion] at h
  | a :: c :: cs =>
    simp only [takeConversion] at h
    split at h
    · simp only [Except.ok.injEq, Prod.mk.injEq] at h
      simp only [List.length_cons, h.2.2]
      omega
    · split at h
      · cases hr : takeSpec 0 cs with
        | error e => simp [hr, Except.map] at h
        | ok p =>
          simp only [hr, Except.map, Except.ok.injEq, Prod.mk.injEq] at h
          obtain ⟨-, -, rfl⟩ := h
          have hp : takeSpec 0 cs = .ok (p.1, p.2) := by rw [hr]
          have := takeSpec_length hp
          simp only [List.length_cons]
          omega
      · simp at h

/-- a field is followed by less than what it was read from -/
theorem takeField_length {s rest : Text} {f : Field} (h : takeField s = .ok (f, rest)) :
    rest.length < s.length := by
  simp only [takeField, bind, Except.bind] at h
  split at h
  · simp at h
  · rename_i p hp
    obtain ⟨name, mark, r⟩ := p
    have hn := takeName_length hp
    simp only at h
    split at h
    · split at h
      · simp at h
      · rename_i q hq
        have := takeConversion_length hq
        simp only [pure, Except.pure, Except.ok.injEq, Prod.mk.injEq] at h
        rw [← h.2]
        omega
    · split at h
      · split at h
        · simp at h
        · rename_i q hq
          have := takeSpec_length hq
          simp only [pure, Except.pure, Except.ok.injEq, Prod.mk.injEq] at h
          rw [← h.2]
          omega
      · simp only [pure, Except.pure, Except.ok.injEq, Prod.mk.injEq] at h
        rw [← h.2]
        omega

/-- the pieces of a phrase; nothing follows a broken one -/
def pieces (s : Text) : List Piece :=
  match s with
  | [] => []
  | ['\x7b'] => [.broken .loneOpening]
  | '\x7b' :: '\x7b' :: rest => .char '\x7b' :: pieces rest
  | '\x7d' :: '\x7d' :: rest => .char '\x7d' :: pieces rest
  | '\x7d' :: _ => [.broken .loneClosing]
  | '\x7b' :: rest =>
    match _h : takeField rest with
    | .ok (f, rest') => .field f :: pieces rest'
    | .error flaw => [.broken flaw]
  | c :: rest => .char c :: pieces rest
termination_by s.length
decreasing_by
  · simp only [List.length_cons]; omega
  · simp only [List.length_cons]; omega
  · have := takeField_length _h
    simp only [List.length_cons]
    omega
  · simp

/-- an accessor -/
inductive Step where
  | member (name : Text)
  | index (n : Nat)
  | key (name : Text)
  | broken (flaw : Flaw)
  deriving DecidableEq, Repr

/-- no accessor begins here -/
def continuesName (c : Char) : Bool := c != '.' && c != '['

/-- the number that a text of digits is; none for an empty text or anything else -/
def index? (s : Text) : Except Flaw (Option Nat) := do
  let (n, rest) ← takeNumber? s
  return if rest.isEmpty then n else none

/-- the accessor between brackets -/
def bracketStep (inside : Text) : Step :=
  match index? inside with
  | .error flaw => .broken flaw
  | .ok (some n) => .index n
  | .ok none => if inside.isEmpty then .broken .emptyAccessor else .key inside

/-- the accessors of a text; nothing follows a broken one -/
def steps (s : Text) : List Step :=
  match s with
  | [] => []
  | '.' :: cs =>
    let name := cs.takeWhile continuesName
    if name.isEmpty then [.broken .emptyAccessor] else .member name :: steps (cs.dropWhile continuesName)
  | '[' :: cs =>
    match _h : cs.dropWhile (· != ']') with
    | [] => [.broken .openBracket]
    | _ :: rest => bracketStep (cs.takeWhile (· != ']')) :: steps rest
  | _ => [.broken .afterBracket]
termination_by s.length
decreasing_by
  · have := (List.dropWhile_sublist continuesName (l := cs)).length_le
    simp only [List.length_cons]
    omega
  · have := (List.dropWhile_sublist (· != ']') (l := cs)).length_le
    rw [_h] at this
    simp only [List.length_cons] at this ⊢
    omega

/-- why an item is not reached -/
def stopOf : NoItem → Stop
  | .beyond place => .flaw (.badIndex place)
  | .unknownKey => .failure .unknownKey
  | .notIndexed => .failure .badIndex

/-- what an accessor reaches -/
def Step.reach (t : Thing) : Step → Except Stop Thing
  | member name => (t.attribute? name).elim (.error (.flaw (.noAttribute t.subject name))) .ok
  | index n => (t.item (.int n)).mapError stopOf
  | key name => (t.item (.text name)).mapError stopOf
  | broken flaw => .error (.flaw flaw)

/-- the name of the parameter that a field begins with, if it is one -/
def parameter? (name : Text) : Except Flaw Text := do
  let first := name.takeWhile continuesName
  let n ← index? first
  if n.isSome || first.isEmpty then throw .positional
  return first

/-- what a field looks at -/
def Field.thing (arguments : Text → Value) (f : Field) : Except Stop Thing := do
  let first ← (parameter? f.name).mapError .flaw
  (steps (f.name.dropWhile continuesName)).foldlM Step.reach (.value (arguments first))

/-- a text with every character outside ASCII given by its code -/
def toAscii (s : Text) : Text := s.flatMap fun c => if c.toNat < 128 then [c] else Text.Quoted.code (Text.code c)

/-- a thing converted -/
def convert (t : Thing) : Option Char → Except Stop Thing
  | none => .ok t
  | some 'r' => .ok (.text t.literal)
  | some 's' => .ok (.text t.display)
  | some 'a' => .ok (.text (toAscii t.literal))
  | some c => .error (.flaw (.unknownConversion c))

/-- a width that no memory holds -/
def widthLimit : Nat := Nat.pow 2 36

/-- a specification read for a thing of a class -/
def specification (c : Class) (standard : Option Char) (spec : Text) : Except Stop Specification := do
  let f ← (Specification.parse c.name standard spec).mapError .flaw
  if widthLimit < f.width.getD 0 then throw (.failure .noRoom)
  return f

/-- a value set by a specification that is not empty; only texts and numbers can be -/
def setValue (v : Value) (spec : Text) : Except Stop Text :=
  match v with
  | .text s .. | .markup s .. => do
    let f ← specification .text (some 's') spec
    return (← (Alignment.ofSpecification Class.text.name f).mapError .flaw).apply s
  | .int n .. => do Figure.formatInt Class.int.name (← specification .int (some 'd') spec) n
  | .bool b => do Figure.formatInt Class.bool.name (← specification .bool (some 'd') spec) (if b then 1 else 0)
  | .float x .. => do Figure.formatFloat Class.float.name (← specification .float none spec) (some x)
  | .nan _ => do Figure.formatFloat Class.float.name (← specification .float none spec) none
  | _ => .error (.failure .badFormat)

/-- a thing set by a specification -/
def format (t : Thing) (spec : Text) : Except Stop Text :=
  if spec.isEmpty then .ok t.display
  else
    match t with
    | .value v => setValue v spec
    | _ => .error (.failure .badFormat)

/-- a piece with its parameter, its specification filled in by `inner` -/
def Piece.fill (arguments : Text → Value) (inner : Text → Except Stop Text) : Piece → Except Stop Text
  | char c => .ok [c]
  | broken flaw => .error (.flaw flaw)
  | field f => do
    let t ← f.thing arguments
    let t ← convert t f.conversion
    let spec ← if f.spec.contains '\x7b' then inner f.spec else .ok f.spec
    format t spec

/-- a phrase with its parameters, where fields may stand in one another to a depth -/
def fillTo (arguments : Text → Value) : Nat → Text → Except Stop Text
  | 0 => fun _ => .error (.flaw .tooDeep)
  | depth + 1 => fun s => do
    let texts ← (pieces s).mapM (Piece.fill arguments (fillTo arguments depth))
    return Text.cat texts

/-- what stands for a parameter: its value, or the name in braces -/
def argument (es : Entries) (name : Text) : Value :=
  (Value.find? (.text name) es).getD (.text ('\x7b' :: name ++ ['\x7d']))

/-- a phrase with its parameters -/
def fill (es : Entries) (s : Text) : Except Stop Text := fillTo (argument es) 2 s

end Stencil.Phrase
