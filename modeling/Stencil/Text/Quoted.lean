/-
QUOTED LITERALS. A text literal stands between apostrophes, or between quotation marks if the text holds an
apostrophe and no quotation mark. Inside, the enclosing mark and the backslash follow a backslash; line feed,
carriage return and tabulator are \n, \r and \t; every other character that is not printable is given by its
code in two, four or eight hexadecimal digits after \x, \u or \U; printable characters stand as they are.

Bytes are written the same way after a letter b, and there everything outside ASCII is given by its code.
-/
import Stencil.Text.Half

namespace Stencil.Text.Quoted

/-- the number in `width` lower-case hexadecimal digits -/
def hex (width n : Nat) : Text :=
  let digits := Nat.toDigits 16 n
  List.replicate (width - digits.length) '0' ++ digits

/-- a character by its code -/
def code (n : Nat) : Text :=
  if n < 0x100 then '\\' :: 'x' :: hex 2 n
  else if n < 0x10000 then '\\' :: 'u' :: hex 4 n
  else '\\' :: 'U' :: hex 8 n

/-- the mark that encloses the text -/
def markFor (s : Text) : Char := if s.contains '\'' && !s.contains '"' then '"' else '\''

/-- a character inside a literal enclosed by `mark`; `plain` says which characters stand as they are -/
def encodeChar (plain : Char → Bool) (mark c : Char) : Text :=
  if c == mark || c == '\\' then ['\\', c]
  else if c == '\n' then ['\\', 'n']
  else if c == '\r' then ['\\', 'r']
  else if c == '\t' then ['\\', 't']
  else if plain c then [c]
  else code (Text.code c)

/-- the literal of a text, with the characters of `plain` as they are -/
def encodeWith (plain : Char → Bool) (s : Text) : Text :=
  let mark := markFor s
  mark :: (s.flatMap (encodeChar plain mark) ++ [mark])

/-- the literal of a text -/
def encode (s : Text) : Text := encodeWith isPrintable s

/-- the literal of a text in ASCII characters only -/
def encodeAscii (s : Text) : Text := encodeWith (fun c => c.toNat < 128 && isPrintable c) s

/-- the literal of a string of bytes -/
def encodeBytes (bytes : List UInt8) : Text :=
  'b' :: encodeAscii (bytes.map fun b => Char.ofNat b.toNat)

end Stencil.Text.Quoted
