/-
REFERENCES: a name, then segments that go into its value, then maybe a fallback.

    user                   a name
    user.address.city      attributes or keys
    items.0  items[0]      indexes
    row['first name']      a key in quotes, without its quote and without a closing bracket
    user.name ?? "Guest"   a literal for when the path reaches nothing

`segment?` reads one segment, `segmentTexts` as many as follow one another, `parse` a whole reference.
-/
import Stencil.Reference.Literal
import Stencil.Value.Member

namespace Stencil

/-- a segment as it is written -/
inductive SegmentText where
  | name (s : Text)
  | dotIndex (digits : Text)
  | index (digits : Text)
  | key (mark : Char) (s : Text)
  deriving DecidableEq, Repr

/-- a parsed reference -/
structure Reference where
  root : Text
  segments : List Segment
  /-- the source text of the fallback -/
  fallback : Option Text
  raw : Text
  deriving DecidableEq, Repr

namespace Reference

/-- a name that a text begins with, and the rest -/
def name? (s : Text) : Option (Text × Text) :=
  match s with
  | c :: cs =>
    if Text.isNameStart c then some (c :: cs.takeWhile Text.isNameChar, cs.dropWhile Text.isNameChar) else none
  | [] => none

/-- digits that a text begins with, and the rest -/
def digits? (s : Text) : Option (Text × Text) :=
  match s with
  | c :: cs =>
    if Text.isDigit c then some (c :: cs.takeWhile Text.isDigit, cs.dropWhile Text.isDigit) else none
  | [] => none

/-- the rest after a closing bracket -/
def afterBracket? (s : Text) : Option Text := Text.after? [']'] s

/-- a key up to its mark and a closing bracket, and the rest -/
def key? (mark : Char) (s : Text) : Option (SegmentText × Text) :=
  let inKey := fun c => c != mark && c != ']'
  match s.dropWhile inKey with
  | c :: rest => if c == mark then (afterBracket? rest).map fun r => (.key mark (s.takeWhile inKey), r) else none
  | [] => none

/-- the segment that a text begins with, and the rest -/
def segment? (s : Text) : Option (SegmentText × Text) :=
  match s with
  | '.' :: cs =>
    match name? cs with
    | some (n, rest) => some (.name n, rest)
    | none => (digits? cs).map fun p => (.dotIndex p.1, p.2)
  | '[' :: '\'' :: cs => key? '\'' cs
  | '[' :: '"' :: cs => key? '"' cs
  | '[' :: cs => (digits? cs).bind fun p => (afterBracket? p.2).map fun rest => (.index p.1, rest)
  | _ => none

theorem length_dropWhile_le (p : Char → Bool) (s : Text) : (s.dropWhile p).length ≤ s.length := by
  induction s with
  | nil => simp
  | cons c cs ih =>
    rw [List.dropWhile_cons]
    split
    · simp
      omega
    · simp

theorem length_name? {s n rest : Text} (h : name? s = some (n, rest)) : rest.length < s.length := by
  cases s with
  | nil => simp [name?] at h
  | cons c cs =>
    simp only [name?] at h
    split at h
    · simp only [Option.some.injEq, Prod.mk.injEq] at h
      have := length_dropWhile_le Text.isNameChar cs
      rw [← h.2]
      simp
      omega
    · simp at h

theorem length_digits? {s n rest : Text} (h : digits? s = some (n, rest)) : rest.length < s.length := by
  cases s with
  | nil => simp [digits?] at h
  | cons c cs =>
    simp only [digits?] at h
    split at h
    · simp only [Option.some.injEq, Prod.mk.injEq] at h
      have := length_dropWhile_le Text.isDigit cs
      rw [← h.2]
      simp
      omega
    · simp at h

theorem length_afterBracket? {s rest : Text} (h : afterBracket? s = some rest) : rest.length < s.length := by
  have := Text.eq_of_after? h
  rw [this]
  simp

theorem length_key? {mark : Char} {s rest : Text} {p : SegmentText} (h : key? mark s = some (p, rest)) :
    rest.length < s.length := by
  simp only [key?] at h
  split at h
  · rename_i c r hr
    split at h
    · simp only [Option.map_eq_some_iff, Prod.mk.injEq] at h
      obtain ⟨r', hr', _, rfl⟩ := h
      have h₁ := length_afterBracket? hr'
      have h₂ := length_dropWhile_le (fun c => c != mark && c != ']') s
      rw [hr] at h₂
      simp at h₂
      omega
    · simp at h
  · simp at h

/-- a segment is not empty -/
theorem length_segment? {s rest : Text} {p : SegmentText} (h : segment? s = some (p, rest)) :
    rest.length < s.length := by
  simp only [segment?] at h
  split at h
  · split at h
    · rename_i n r hn
      simp only [Option.some.injEq, Prod.mk.injEq] at h
      have := length_name? hn
      rw [← h.2]
      simp
      omega
    · simp only [Option.map_eq_some_iff, Prod.mk.injEq] at h
      obtain ⟨⟨d, r⟩, hd, _, rfl⟩ := h
      have := length_digits? hd
      simp
      omega
  · have := length_key? h
    simp
    omega
  · have := length_key? h
    simp
    omega
  · simp only [Option.bind_eq_some_iff, Option.map_eq_some_iff, Prod.mk.injEq] at h
    obtain ⟨⟨d, r⟩, hd, r', hr', _, rfl⟩ := h
    have := length_digits? hd
    have := length_afterBracket? hr'
    simp at *
    omega
  · simp at h

/-- the segments that a text begins with, and the rest -/
def segmentTexts (s : Text) : List SegmentText × Text :=
  match _h : segment? s with
  | none => ([], s)
  | some (p, rest) =>
    let (ps, after) := segmentTexts rest
    (p :: ps, after)
termination_by s.length
decreasing_by exact length_segment? _h

/-- a path: its name and segments, and the rest -/
def path? (s : Text) : Option (Text × List SegmentText × Text) :=
  (name? s).map fun (root, rest) =>
    let (ps, after) := segmentTexts rest
    (root, ps, after)

/-- the source text of the path that a text begins with, and the rest -/
def takePath? (s : Text) : Option (Text × Text) :=
  (path? s).map fun (_, _, rest) => (s.take (s.length - rest.length), rest)

/-- the source text of a fallback: blanks, two question marks, blanks, a literal -/
def fallback? (s : Text) : Option (Text × Text) :=
  (Text.after? ['?', '?'] (s.dropWhile Text.isBlank)).bind fun rest => Literal.take? (rest.dropWhile Text.isBlank)

/-- an index, unless it has too many digits -/
def indexOf (digits : Text) : Except Refusal Segment :=
  if digitLimit < digits.length then .error .digitLimit else .ok (.index (Literal.numberOf digits))

/-- the segment that is written so -/
def segmentOf : SegmentText → Except Refusal Segment
  | .name s => .ok (.name s)
  | .key _ s => .ok (.name s)
  | .dotIndex d => indexOf d
  | .index d => indexOf d

/-- a reference with nothing around it: its name, its segments and its fallback -/
def grammar? (s : Text) : Option (Text × List SegmentText × Option Text) :=
  (path? s).bind fun (root, ps, rest) =>
    if rest.isEmpty then some (root, ps, none)
    else (fallback? rest).bind fun (fallback, after) =>
      if after.isEmpty then some (root, ps, some fallback) else none

/-- a reference, blanks around it aside -/
def parse (source : Text) : Except Refusal Reference :=
  let s := Text.strip source
  match grammar? s with
  | none => .error (.fault (.of (.invalidReference s) s))
  | some (root, ps, fallback) =>
    match ps.mapM segmentOf with
    | .ok segments => .ok ⟨root, segments, fallback, s⟩
    | .error e => .error e

/-- the whole text is a path, with a fallback if one is allowed -/
def isReference (s : Text) (withFallback : Bool) : Bool :=
  match grammar? s with
  | some (_, _, none) => true
  | some (_, _, some _) => withFallback
  | none => false

/-- the name and the segments as one path -/
def path (r : Reference) : List Segment := .name r.root :: r.segments

/-- the name of a segment that has one -/
def nameOf? : Segment → Option Text
  | .name s => some s
  | .index _ => none

/-- the last name in the path -/
def lastName (r : Reference) : Text := (r.segments.reverse.findSome? nameOf?).getD r.root

/-- a character that a reference may have outside quoted keys -/
def isReferenceChar (c : Char) : Bool :=
  Text.isNameChar c || c == '.' || c == '[' || c == ']' || c == '\'' || c == '"'

end Reference

end Stencil
