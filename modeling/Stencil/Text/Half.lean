/-
HALVES. A document can name each half of a surrogate pair by its code. A half is no character, but a text can hold
it and be worked with; only written it cannot be. It is kept as the character with `halfShift` more, of which no
writing makes use, and `code` gives back its own code.
-/
import Stencil.Text.Basic

namespace Stencil.Text

/-- by how much the character that is kept for a half lies above its code -/
def halfShift : Nat := 0xD0000

/-- the code of a half -/
def isHalfCode (n : Nat) : Bool := 0xD800 ≤ n && n ≤ 0xDFFF

/-- the character stands for a half -/
def isHalf (c : Char) : Bool := halfShift ≤ c.toNat && isHalfCode (c.toNat - halfShift)

/-- the code of a character or half -/
def code (c : Char) : Nat := if isHalf c then c.toNat - halfShift else c.toNat

/-- the character or half of a code -/
def ofCode? (n : Nat) : Option Char :=
  if n.isValidChar then some (Char.ofNat n)
  else if isHalfCode n then some (Char.ofNat (n + halfShift))
  else none

/-- the text holds no half, so that it can be written -/
def isWritable (s : Text) : Bool := s.all fun c => !isHalf c

/-- the character of a pair of halves, if they are a high and a low one -/
def pair? (high low : Char) : Option Char :=
  let h := code high
  let l := code low
  if isHalf high && isHalf low && h < 0xDC00 && 0xDC00 ≤ l then
    some (Char.ofNat (0x10000 + (h - 0xD800) * 0x400 + (l - 0xDC00)))
  else none

/-- the text with every pair of halves as its character -/
def joined : Text → Text
  | high :: low :: rest =>
    match pair? high low with
    | some c => c :: joined rest
    | none => high :: joined (low :: rest)
  | s => s

end Stencil.Text
