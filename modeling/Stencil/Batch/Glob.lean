/-
PATTERNS OF PATHS. A pattern is a list of names divided by slashes. In a name a star stands for any characters, a
question mark for one, and brackets for one of the characters and ranges in them, or for any other after an
exclamation mark; a name of two stars stands for any number of folders. Names with a point at the beginning are
no exception. A name without such marks stands for itself, and two points lead back.
-/
import Stencil.Batch.Folder

namespace Stencil.Glob

/-- why a pattern is refused -/
inductive PatternFault where
  /-- no pattern at all -/
  | empty
  /-- a pattern that does not begin in the folder -/
  | absolute
  /-- a pattern without names -/
  | nameless
  /-- a pattern without names that stands for folders only -/
  | namelessFolder
  /-- two stars beside other characters -/
  | invalid
  /-- a name that no file can have, looked for in a folder -/
  | longName
  deriving DecidableEq, Repr

/-- what stands for one or more characters of a name -/
inductive Mark where
  | char (c : Char)
  | one
  | any
  | among (others : Bool) (ranges : List (Char × Char))
  deriving DecidableEq, Repr

/-- a name of a pattern -/
inductive Name where
  | folders
  | itself (s : Text)
  | marks (ms : List Mark)
  deriving DecidableEq, Repr

/-- the characters and ranges between brackets -/
def ranges : Text → List (Char × Char)
  | a :: '-' :: b :: rest => (a, b) :: ranges rest
  | a :: rest => (a, a) :: ranges rest
  | [] => []

/-- what stands between brackets up to the closing one, which may stand first, and the rest -/
def takeClass? (s : Text) : Option (Text × Text) :=
  let lead := if s.head? == some ']' then 1 else 0
  match (s.drop lead).dropWhile (· != ']') with
  | _ :: rest => some (s.take lead ++ (s.drop lead).takeWhile (· != ']'), rest)
  | [] => none

/-- the mark after an opening bracket, and the rest -/
def takeBrackets? (s : Text) : Option (Mark × Text) :=
  let (others, s) := match s with
    | '!' :: rest => (true, rest)
    | s => (false, s)
  (takeClass? s).map fun p => (.among others (ranges p.1), p.2)

theorem takeClass?_length {s inside rest : Text} (h : takeClass? s = some (inside, rest)) :
    rest.length < s.length := by
  simp only [takeClass?] at h
  split at h
  · rename_i x r hd
    simp only [Option.some.injEq, Prod.mk.injEq] at h
    have h1 := congrArg List.length hd
    have h2 := (List.dropWhile_sublist (· != ']') (l := s.drop (if s.head? == some ']' then 1 else 0))).length_le
    simp only [List.length_cons] at h1
    simp only [List.length_drop] at h2
    rw [← h.2]
    omega
  · simp at h

theorem takeBrackets?_length {s rest : Text} {m : Mark} (h : takeBrackets? s = some (m, rest)) :
    rest.length < s.length := by
  simp only [takeBrackets?, Option.map_eq_some_iff, Prod.mk.injEq] at h
  obtain ⟨⟨inside, r⟩, hp, -, rfl⟩ := h
  have := takeClass?_length hp
  split at this
  · simp only [List.length_cons]
    simp only at this
    omega
  · exact this

/-- the marks of a name -/
def marks (s : Text) : List Mark :=
  match s with
  | [] => []
  | '*' :: rest => .any :: marks rest
  | '?' :: rest => .one :: marks rest
  | '[' :: rest =>
    match _h : takeBrackets? rest with
    | some (m, rest') => m :: marks rest'
    | none => .char '[' :: marks rest
  | c :: rest => .char c :: marks rest
termination_by s.length
decreasing_by
  · simp
  · simp
  · have := takeBrackets?_length _h
    simp only [List.length_cons]
    omega
  · simp
  · simp

/-- a character that a mark for one character stands for -/
def Mark.matches (c : Char) : Mark → Bool
  | char d => c == d
  | one => true
  | any => false
  | among others rs => (rs.any fun r => r.1.toNat ≤ c.toNat && c.toNat ≤ r.2.toNat) != others

/-- a name that marks stand for -/
def matchesName : List Mark → Text → Bool
  | [], s => s.isEmpty
  | .any :: ms, [] => matchesName ms []
  | .any :: ms, c :: cs => matchesName ms (c :: cs) || matchesName (.any :: ms) cs
  | m :: ms, c :: cs => m.matches c && matchesName ms cs
  | _ :: _, [] => false
termination_by ms s => ms.length + s.length

/-- what a pattern reached: the path by which it did, and the place to which that leads -/
structure Reached where
  path : Path
  place : Path
  deriving DecidableEq, Repr

namespace Reached

/-- what a name reaches from here in a folder -/
def next? (f : Folder) (r : Reached) (name : Text) : Option Reached :=
  (f.next? r.place name).map fun q => ⟨r.path ++ [name], q⟩

/-- the folders at and below a place, to a depth -/
def folders (f : Folder) (r : Reached) : Nat → List Reached
  | 0 => [r]
  | depth + 1 =>
    r :: ((f.names r.place).filterMap (r.next? f)).flatMap fun q =>
      if f.isFolder q.place then q.folders f depth else []

end Reached

/-- what a name of a pattern reaches; `inner` says that only folders count -/
def step (f : Folder) (inner : Bool) (r : Reached) : Name → Except PatternFault (List Reached)
  | .folders => .ok (r.folders f ((f.files.map fun e => e.1.length).foldl max 0))
  | .itself s =>
    if isLongName s then .error .longName
    else .ok ((r.next? f s).toList.filter fun q => !inner || f.isFolder q.place)
  | .marks ms =>
    .ok ((((f.names r.place).filter (matchesName ms)).filterMap (r.next? f)).filter fun q =>
      !inner || f.isFolder q.place)

/-- what the names of a pattern reach; `closed` says that the pattern stands for folders only -/
def reach (f : Folder) (closed : Bool) : List Name → Reached → Except PatternFault (List Reached)
  | [], r => .ok [r]
  | n :: ns, r => do
    let found ← step f (closed || !ns.isEmpty) r n
    let ends ← found.mapM (reach f closed ns)
    return ends.flatten

/-- a character by which a name stands for others than itself -/
def isMark (c : Char) : Bool := c == '*' || c == '?' || c == '['

/-- a name of a pattern as it is written -/
def name (s : Text) : Except PatternFault Name :=
  if s == ['*', '*'] then .ok .folders
  else if Text.holds "**" s then .error .invalid
  else if s.any isMark then .ok (.marks (marks s))
  else .ok (.itself s)

/-- the files that a pattern reaches, in the order of their paths, each path once -/
def select (pattern : Text) (f : Folder) : Except PatternFault (List Reached) :=
  if pattern.isEmpty then .error .empty
  else if Path.isAbsolute pattern then .error .absolute
  else do
    let names ← (Path.ofText pattern).mapM name
    let closed := pattern.getLast? == some '/'
    if names.isEmpty then throw (if closed then .namelessFolder else .nameless)
    let found ← reach f closed names ⟨[], []⟩
    return (found.filter fun r => f.isFile r.place).eraseDups.mergeSort fun a b => Path.le a.path b.path

end Stencil.Glob
