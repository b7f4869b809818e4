/-
TEXT. A text is a list of characters; positions and lengths count characters.

- Character classes: `isBlank`, `digitValue?`, `isWord`, `isPrintable` follow the character properties of
  `Stencil.Text.Table`; `isNameStart` and `isNameChar` are the ASCII letters, digits and the low line.
- Cutting: `after?` takes a leading mark off a text, `cut?` divides a text at the first place a mark stands,
  `strip` drops the blanks at both ends, `words` are the maximal runs of characters that are not blank.
-/
import Stencil.Text.Table

namespace Stencil

/-- a text, character by character -/
abbrev Text := List Char

instance : Coe String Text := ⟨String.toList⟩

namespace Text

/-- the texts one after the other -/
def cat (parts : List Text) : Text := parts.flatten

/-- the texts with `between` standing between each two -/
def sep (between : Text) : List Text → Text
  | [] => []
  | [t] => t
  | t :: u :: rest => t ++ between ++ sep between (u :: rest)

/-- a whole number in decimal digits -/
def ofNat (n : Nat) : Text := Nat.toDigits 10 n

/-- an integer in decimal digits, a minus sign in front of a negative one -/
def ofInt : Int → Text
  | .ofNat n => ofNat n
  | .negSucc n => '-' :: ofNat (n + 1)

/-- white space: tabulators, line and page ends, the four separators, and every space and line separator -/
def isBlank (c : Char) : Bool :=
  let n := c.toNat
  (9 ≤ n && n ≤ 13) || (28 ≤ n && n ≤ 32) || n == 0x85 || n == 0xA0 || n == 0x1680 ||
    (0x2000 ≤ n && n ≤ 0x200A) || n == 0x2028 || n == 0x2029 || n == 0x202F || n == 0x205F || n == 0x3000

/-- the value of a decimal digit of any script -/
def digitValue? (c : Char) : Option Nat :=
  let n := c.toNat
  if n < 128 then
    if 48 ≤ n && n ≤ 57 then some (n - 48) else none
  else
    (digitZeros.find? fun z => z ≤ n && n ≤ z + 9).map (n - ·)

/-- a decimal digit of any script -/
def isDigit (c : Char) : Bool := (digitValue? c).isSome

/-- a letter A to Z or a to z, or the low line -/
def isNameStart (c : Char) : Bool := c.isAlpha || c == '_'

/-- a character that may continue a name -/
def isNameChar (c : Char) : Bool := c.isAlphanum || c == '_'

/-- a letter or numeral of any script, or the low line -/
def isWord (c : Char) : Bool :=
  if c.toNat < 128 then isNameChar c else inside wordChanges c.toNat

/-- a character that is written as it is inside quotes -/
def isPrintable (c : Char) : Bool :=
  let n := c.toNat
  if n < 128 then 32 ≤ n && n ≤ 126 else inside printableChanges n

/-- the lower-case form of a character: one character, but for the dotted capital I -/
def lower (c : Char) : Text :=
  let n := c.toNat
  if n < 128 then [c.toLower]
  else if n == 0x130 then ['i', Char.ofNat 0x307]
  else match caseRuns.find? fun r => r.first ≤ n && n ≤ r.last && (n - r.first) % r.step == 0 with
    | some r => [Char.ofNat (n + r.shift).toNat]
    | none => [c]

/-- what follows a leading mark; nothing if the text does not begin with it -/
def after? : Text → Text → Option Text
  | [], s => some s
  | _ :: _, [] => none
  | p :: ps, c :: cs => if p == c then after? ps cs else none

/-- the text begins with the mark -/
def startsWith (s mark : Text) : Bool := (after? mark s).isSome

/-- the text divided at the first place where the mark stands: what precedes it and what follows it -/
def cut? (mark : Text) : Text → Option (Text × Text)
  | [] => (after? mark []).map fun rest => ([], rest)
  | c :: cs =>
    match after? mark (c :: cs) with
    | some rest => some ([], rest)
    | none => (cut? mark cs).map fun p => (c :: p.1, p.2)

/-- the mark stands somewhere in the text -/
def holds (mark s : Text) : Bool := (cut? mark s).isSome

/-- the text without the blanks at its end -/
def stripEnd (s : Text) : Text := (s.reverse.dropWhile isBlank).reverse

/-- the text without the blanks at its two ends -/
def strip (s : Text) : Text := stripEnd (s.dropWhile isBlank)

/-- the words of a text whose first characters, last first, are given -/
def wordsFrom (word : Text) : Text → List Text
  | [] => if word.isEmpty then [] else [word.reverse]
  | c :: cs =>
    if isBlank c then
      if word.isEmpty then wordsFrom [] cs else word.reverse :: wordsFrom [] cs
    else wordsFrom (c :: word) cs

/-- the maximal runs of characters that are not blank -/
def words (s : Text) : List Text := wordsFrom [] s

/-- the first word, empty if there is none -/
def firstWord (s : Text) : Text := (s.dropWhile isBlank).takeWhile (!isBlank ·)

/-- the parts of a text between the places where a character stands -/
def parts (mark : Char) : Text → List Text
  | [] => [[]]
  | c :: cs =>
    match parts mark cs with
    | [] => [[c]]
    | p :: ps => if c == mark then [] :: p :: ps else (c :: p) :: ps

/-- the number of line feeds -/
def lineFeeds (s : Text) : Nat := s.count '\n'

/-- every ending of a line as a line feed: carriage returns, alone or before a line feed, become line feeds -/
def unixLines : Text → Text
  | [] => []
  | '\r' :: '\n' :: cs => '\n' :: unixLines cs
  | c :: cs => (if c == '\r' then '\n' else c) :: unixLines cs

/-- the characters after which a line ends -/
def isLineEnd (c : Char) : Bool :=
  let n := c.toNat
  (10 ≤ n && n ≤ 13) || (28 ≤ n && n ≤ 30) || n == 0x85 || n == 0x2028 || n == 0x2029

/-- the lines of a text after its first characters, last first; every line keeps its ending -/
def linesFrom (line : Text) : Text → List Text
  | [] => if line.isEmpty then [] else [line.reverse]
  | '\r' :: '\n' :: cs => ('\n' :: '\r' :: line).reverse :: linesFrom [] cs
  | c :: cs => if isLineEnd c then (c :: line).reverse :: linesFrom [] cs else linesFrom (c :: line) cs

/-- the lines of a text, every one with its ending -/
def lines (s : Text) : List Text := linesFrom [] s

/-- what is taken off stood in front -/
theorem eq_of_after? {mark s rest : Text} (h : after? mark s = some rest) :
    s = mark ++ rest := by
  induction mark generalizing s with
  | nil => simpa [after?] using h
  | cons p ps ih =>
    cases s with
    | nil => simp [after?] at h
    | cons c cs =>
      simp only [after?] at h
      split at h
      · rename_i hc
        rw [ih h, beq_iff_eq.mp hc]
        rfl
      · simp at h

/-- the two parts lie around the mark -/
theorem eq_of_cut? {mark s before rest : Text} (h : cut? mark s = some (before, rest)) :
    s = before ++ mark ++ rest := by
  induction s generalizing before with
  | nil =>
    simp only [cut?, Option.map_eq_some_iff, Prod.mk.injEq] at h
    obtain ⟨r, hr, rfl, rfl⟩ := h
    simpa using eq_of_after? hr
  | cons c cs ih =>
    simp only [cut?] at h
    split at h
    · rename_i r hr
      simp only [Option.some.injEq, Prod.mk.injEq] at h
      obtain ⟨rfl, rfl⟩ := h
      simpa using eq_of_after? hr
    · simp only [Option.map_eq_some_iff, Prod.mk.injEq] at h
      obtain ⟨⟨b, r⟩, hr, rfl, rfl⟩ := h
      rw [ih hr]
      simp

end Text

end Stencil
