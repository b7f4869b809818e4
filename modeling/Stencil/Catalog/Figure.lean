/-
FIGURES: numbers set in a field. A number has a sign, a lead that shows its base, digits that can be grouped, and
a rest that cannot: the point and what follows it. Zeros that fill stand between the sign and the digits and are
grouped with them; any other padding stands on the side that the specification gives, by default on the left.

Integers have the types b, o, d, x, X, c and n and take no precision. Doubles have the types e, f, g (in capitals,
too), n and %, and so have integers, which are then taken as doubles. A double without a type is written shortest,
and if a precision is given as by g, but always with a fraction or an exponent.
-/
import Stencil.Catalog.Specification
import Stencil.Number.Rounded
import Stencil.Text.Half

namespace Stencil

/-- a number in parts -/
structure Figure where
  negative : Bool
  lead : Text
  digits : Text
  rest : Text
  deriving DecidableEq, Repr

namespace Figure

/-- digits in groups of a size, counted from the last one -/
def grouped (mark : Char) (size : Nat) : Text → Text
  | [] => []
  | d :: ds =>
    let rest := grouped mark size ds
    if ds.length % size == 0 && !ds.isEmpty then d :: mark :: rest else d :: rest

/-- the fewest digits whose groups are at least so wide -/
def digitsFor (size width : Nat) : Nat :=
  let marks := width / (size + 1)
  if width % (size + 1) == 0 then width - marks + 1 else width - marks

/-- digits in groups, with zeros before them up to a width -/
def spread (grouping : Option Char) (size width : Nat) (digits : Text) : Text :=
  if digits.isEmpty then []
  else
    match grouping with
    | none => List.replicate (width - digits.length) '0' ++ digits
    | some mark => grouped mark size (List.replicate (digitsFor size width - digits.length) '0' ++ digits)

/-- the sign of a number -/
def signText (f : Specification) (negative : Bool) : Text :=
  if negative then ['-']
  else
    match f.sign with
    | some '+' => ['+']
    | some ' ' => [' ']
    | _ => []

/-- a number set in its field, its digits in groups of a size -/
def set (f : Specification) (size : Nat) (n : Figure) : Text :=
  let fill := f.fill.getD (if f.zero then '0' else ' ')
  let side := f.side.getD (if f.zero then .afterSign else .right)
  let width := f.width.getD 0
  let sign := signText f n.negative
  let others := sign.length + n.lead.length + n.rest.length
  let digits := spread f.grouping size (if fill == '0' && side == .afterSign then width - others else 0) n.digits
  let space := width - (others + digits.length)
  let (before, inside, after) := match side with
    | .left => (0, 0, space)
    | .right => (space, 0, 0)
    | .center => (space / 2, 0, space - space / 2)
    | .afterSign => (0, space, 0)
  let pad := fun (n : Nat) => List.replicate n fill
  Text.cat [pad before, sign, n.lead, pad inside, digits, n.rest, pad after]

/-- the base of a type of integers, and the letter that shows it -/
def base (type : Char) : Nat × Option Char :=
  match type with
  | 'b' => (2, some 'b')
  | 'o' => (8, some 'o')
  | 'x' => (16, some 'x')
  | 'X' => (16, some 'X')
  | _ => (10, none)

/-- an integer in a base -/
def ofInt (type : Char) (alternate : Bool) (n : Int) : Figure :=
  let (b, letter) := base type
  let digits := Nat.toDigits b n.natAbs
  let lead := if alternate then (letter.map fun l => ['0', l]).getD [] else []
  ⟨n < 0, lead, if type == 'X' then digits.map Char.toUpper else digits, []⟩

/-- the character that an integer is the code of -/
def ofCode (f : Specification) (n : Int) : Except Stop Figure :=
  if f.sign.isSome then .error (.flaw .characterSign)
  else if f.alternate then .error (.flaw .characterAlternate)
  else
    match if n < 0 then none else Text.ofCode? n.toNat with
    | some c => .ok ⟨false, [], [], [c]⟩
    | none => .error (.failure .tooLarge)

/-- an integer set by one of the types of integers -/
def setInt (f : Specification) (type : Char) (n : Int) : Except Stop Text := do
  if f.precision.isSome then throw (.flaw .integerPrecision)
  if f.coercion then throw (.flaw .integerCoercion)
  let figure ← if type == 'c' then ofCode f n else .ok (ofInt type f.alternate n)
  return figure.set f (if type == 'd' || type == 'n' then 3 else 4)

/-- the point and the places after it; without places the point stands only in the alternate form -/
def fraction (alternate : Bool) (places : Text) : Text :=
  if places.isEmpty && !alternate then [] else '.' :: places

/-- significant digits with an exponent -/
def scientific (alternate : Bool) (digits : Text) (point : Int) : Text × Text :=
  (digits.take 1, fraction alternate (digits.drop 1) ++ Binary64.exponentText (point - 1))

/-- significant digits without an exponent; `whole` says that a fraction stands in any case -/
def positional (alternate whole : Bool) (digits : Text) (point : Int) : Text × Text :=
  let places :=
    if point ≤ 0 then List.replicate (-point).toNat '0' ++ digits else digits.drop point.toNat
  let lead :=
    if point ≤ 0 then ['0'] else digits.take point.toNat ++ List.replicate (point.toNat - digits.length) '0'
  (lead, if places.isEmpty && whole then ['.', '0'] else fraction alternate places)

/-- the digits of a ratio and the rest, with so many significant digits; `whole` as in `positional`, and then the
exponent begins one digit earlier -/
def general (alternate whole : Bool) (size num den : Nat) : Text × Text :=
  let size := max size 1
  let (digits, point) := Binary64.significant size num den
  let kept := if alternate then digits else Binary64.trimZeros digits
  let kept := if kept.isEmpty then ['0'] else kept
  if -4 < point && point ≤ (if whole then (size : Int) - 1 else size) then positional alternate whole kept point
  else scientific alternate kept point

/-- the digits of the finite double m·2^e and the rest, by a type in lower case -/
def ofFinite (f : Specification) (type : Option Char) (m : Nat) (e : Int) : Text × Text :=
  let (num, den) := Binary64.ratio m e
  match type, f.precision with
  | some 'e', p =>
    let (digits, point) := Binary64.significant (p.getD 6 + 1) num den
    scientific f.alternate digits point
  | some 'f', p =>
    let (lead, places) := Binary64.placed (p.getD 6) num den
    (lead, fraction f.alternate places)
  | some _, p => general f.alternate false (p.getD 6) num den
  | none, some p => general f.alternate true p num den
  | none, none =>
    if m == 0 then (['0'], ['.', '0'])
    else
      let (digits, k) := Binary64.shortest false m e
      let all := Text.ofNat digits
      let point := k + all.length
      if -4 < point && point ≤ 16 then positional f.alternate true (Binary64.trimZeros all) point
      else scientific f.alternate (Binary64.trimZeros all) point

/-- a text of digits other than zero -/
def isNonzero (s : Text) : Bool := (s.takeWhile fun c => c != 'e').any fun c => c != '0' && c != '.'

/-- a double in parts; none stands for what is no number -/
def ofFloat (f : Specification) (type : Option Char) : Option Binary64 → Figure
  | none => ⟨false, [], [], "nan"⟩
  | some (.infinite s) => ⟨s, [], [], "inf"⟩
  | some (.finite s m e) =>
    let (digits, rest) := ofFinite f type m e
    ⟨s && !(f.coercion && !isNonzero (digits ++ rest)), [], digits, rest⟩

/-- the types of doubles -/
def isFloatType (type : Char) : Bool := "eEfFgGn%".toList.contains type

/-- the greatest precision of doubles -/
def precisionLimit : Nat := Nat.pow 2 31 - 1

/-- a double set by one of its types, or by none -/
def setFloat (f : Specification) (x : Option Binary64) : Except Stop Text := do
  if precisionLimit < f.precision.getD 0 then throw (.flaw .precisionTooBig)
  let kind := f.type.map fun t => if t == '%' then 'f' else if t == 'n' then 'g' else t.toLower
  let n := ofFloat f kind (if f.type == some '%' then x.map Binary64.percent else x)
  let n := if (f.type.map Char.isUpper).getD false then { n with rest := n.rest.map Char.toUpper } else n
  let n := if f.type == some '%' then { n with rest := n.rest ++ ['%'] } else n
  return n.set f 3

/-- the double that an integer is taken as; none is beyond all doubles -/
def double? (n : Int) : Option Binary64 :=
  match Binary64.ofRatio (n < 0) n.natAbs 1 with
  | .infinite _ => none
  | x => some x

/-- an integer of a class set by a specification -/
def formatInt (owner : Text) (f : Specification) (n : Int) : Except Stop Text :=
  let type := f.type.getD 'd'
  if "bcdoxXn".toList.contains type then setInt f type n
  else if isFloatType type then
    match double? n with
    | some x => setFloat f (some x)
    | none => .error (.failure .tooLarge)
  else .error (.flaw (.unknownType type owner))

/-- a double of a class set by a specification -/
def formatFloat (owner : Text) (f : Specification) (x : Option Binary64) : Except Stop Text :=
  match f.type with
  | some t => if isFloatType t then setFloat f x else .error (.flaw (.unknownType t owner))
  | none => setFloat f x

end Figure

end Stencil
