/-
OPTIONS of form directives: attributes such as class="wide", and bare words. `attributes` collects the attributes
that stand anywhere in a text, the last value of a name at the place of its first; `flags` are the words that are
left when the attributes are taken out. `areOptions` says whether a text consists of blanks, attributes and one
allowed word, each option after a blank.
-/
import Stencil.Program.Basic
import Stencil.Directive.Registry

namespace Stencil.Directive

/-- a character that may continue an attribute's name -/
def isAttributeChar (c : Char) : Bool := Text.isWord c || c == '-'

/-- the attribute that a text begins with, and the rest -/
def attribute? (s : Text) : Option ((Text × Text) × Text) :=
  match s with
  | c :: cs =>
    if Text.isNameStart c then
      match cs.dropWhile isAttributeChar with
      | '=' :: '"' :: v =>
        match v.dropWhile (· != '"') with
        | _ :: rest => some ((c :: cs.takeWhile isAttributeChar, v.takeWhile (· != '"')), rest)
        | [] => none
      | _ => none
    else none
  | [] => none

theorem length_attribute? {s rest : Text} {a : Text × Text} (h : attribute? s = some (a, rest)) :
    rest.length < s.length := by
  cases s with
  | nil => simp [attribute?] at h
  | cons c cs =>
    simp only [attribute?] at h
    split at h
    · split at h
      · rename_i v hv
        split at h
        · rename_i q r hr
          simp only [Option.some.injEq, Prod.mk.injEq] at h
          have h₁ := Reference.length_dropWhile_le isAttributeChar cs
          have h₂ := Reference.length_dropWhile_le (· != '"') v
          rw [hv] at h₁
          rw [hr] at h₂
          rw [← h.2]
          simp at *
          omega
        · simp at h
      · simp at h
    · simp at h

/-- a piece of options: an attribute or any other character -/
inductive Piece where
  | char (c : Char)
  | pair (name value : Text)
  deriving DecidableEq, Repr

/-- the pieces of a text, attributes taken where they first begin -/
def pieces (s : Text) : List Piece :=
  match s with
  | [] => []
  | c :: cs =>
    match _h : attribute? (c :: cs) with
    | some ((n, v), rest) => .pair n v :: pieces rest
    | none => .char c :: pieces cs
termination_by s.length
decreasing_by
  · exact length_attribute? _h
  · simp

/-- the name and value of a piece that is an attribute -/
def Piece.pair? : Piece → Option (Text × Text)
  | char _ => none
  | pair n v => some (n, v)

/-- the attributes of a text -/
def attributes (s : Text) : Attributes :=
  ((pieces s).filterMap Piece.pair?).foldl (fun acc a => putAt a.1 a.2 acc) []

/-- a piece with a blank for an attribute -/
def Piece.blanked : Piece → Char
  | char c => c
  | pair _ _ => ' '

/-- the words beside the attributes -/
def flags (s : Text) : List Text := Text.words ((pieces s).map Piece.blanked)

/-- a blank or the end -/
def atBlank (s : Text) : Bool :=
  match s with
  | c :: _ => Text.isBlank c
  | [] => true

/-- the rest after one option that ends at a blank or the end; `word` is the bare word that is allowed -/
def afterOption? (word : Option Text) (s : Text) : Option Text :=
  match (word.bind fun w => Text.after? w s).filter atBlank with
  | some rest => some rest
  | none => ((attribute? s).map (·.2)).filter atBlank

/-- a text of options, each after blanks; at most `n` of them -/
def areOptionsUpTo (word : Option Text) : Nat → Text → Bool
  | _, [] => true
  | 0, _ => false
  | n + 1, c :: cs =>
    Text.isBlank c &&
      match afterOption? word (cs.dropWhile Text.isBlank) with
      | some rest => areOptionsUpTo word n rest
      | none => false

/-- a text of options, each after blanks -/
def areOptions (word : Option Text) (s : Text) : Bool := areOptionsUpTo word s.length s

end Stencil.Directive
