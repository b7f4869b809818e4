/-
DOUBLE PRECISION. A binary floating-point number of 64 bits is a sign, a significand below 2^53 and the
exponent of its unit, which is never below -1074; beside these there are the two infinities.

- `ofRatio` rounds an exact ratio of whole numbers to the nearest double, a tie to the even significand.
- `ofDecimal` is the same for a whole number times a power of ten, however many digits it has.
- `order` and `orderInt` compare doubles and integers by their exact values.
-/
import Stencil.Text.Basic

namespace Stencil

/-- a double: `finite s m e` is m·2^e, below zero if `s` -/
inductive Binary64 where
  | finite (negative : Bool) (significand : Nat) (exponent : Int)
  | infinite (negative : Bool)
  deriving DecidableEq, Repr

namespace Binary64

/-- the least exponent of a unit -/
def leastExponent : Int := -1074

/-- the greatest exponent of a unit -/
def greatestExponent : Int := 971

/-- the form every double is stored in: the significand fills 53 bits unless the unit is the least one -/
def Canonical : Binary64 → Prop
  | finite _ m e =>
    m < Nat.pow 2 53 ∧ leastExponent ≤ e ∧ e ≤ greatestExponent ∧ (Nat.pow 2 52 ≤ m ∨ e = leastExponent)
  | _ => True

/-- zero with a sign -/
def zero (negative : Bool) : Binary64 := finite negative 0 leastExponent

/-- the quotient rounded to the nearest whole number, a half to the even one -/
def roundDiv (num den : Nat) : Nat :=
  let q := num / den
  let r := num % den
  if den < 2 * r || (2 * r == den && q % 2 == 1) then q + 1 else q

/-- the quotient of a ratio by 2^e, as a ratio -/
def scaleDown (num den : Nat) (e : Int) : Nat × Nat :=
  if 0 ≤ e then (num, den * Nat.pow 2 e.toNat) else (num * Nat.pow 2 (-e).toNat, den)

/-- the exponent of the unit to which a positive ratio is rounded -/
def unitOf (num den : Nat) : Int :=
  let e : Int := (Nat.log2 num : Int) - (Nat.log2 den : Int) - 52
  let (n, d) := scaleDown num den e
  max leastExponent (if n < d * Nat.pow 2 52 then e - 1 else e)

/-- the double nearest to a ratio; `den` is positive -/
def ofRatio (negative : Bool) (num den : Nat) : Binary64 :=
  if num == 0 then zero negative
  else
    let e := unitOf num den
    let (n, d) := scaleDown num den e
    let m := roundDiv n d
    let (m, e) := if m == Nat.pow 2 53 then (Nat.pow 2 52, e + 1) else (m, e)
    if greatestExponent < e then infinite negative else finite negative m e

/-- the double nearest to digits·10^k -/
def ofDecimal (negative : Bool) (digits : Nat) (k : Int) : Binary64 :=
  if 0 ≤ k then ofRatio negative (digits * Nat.pow 10 k.toNat) 1 else ofRatio negative digits (Nat.pow 10 (-k).toNat)

/-- as `ofDecimal`, for exponents of any size: a number of that magnitude is beyond all doubles or below half
the least one -/
def ofScientific (negative : Bool) (digits : Nat) (k : Int) : Binary64 :=
  let top := k + (Text.ofNat digits).length
  if digits == 0 || top < -330 then zero negative
  else if 310 < top then infinite negative
  else ofDecimal negative digits k

/-- zero, of either sign -/
def isZero : Binary64 → Bool
  | finite _ m _ => m == 0
  | _ => false

/-- m·2^e with a signed m -/
def signed (negative : Bool) (m : Nat) : Int := if negative then -(m : Int) else m

/-- the order of a·2^e and b·2^f -/
def orderDyadic (a : Int) (e : Int) (b : Int) (f : Int) : Ordering :=
  let low := min e f
  compare (a * Int.pow 2 (e - low).toNat) (b * Int.pow 2 (f - low).toNat)

/-- the exact order of two doubles -/
def order : Binary64 → Binary64 → Ordering
  | finite s m e, finite t n f => orderDyadic (signed s m) e (signed t n) f
  | infinite s, infinite t => if s == t then .eq else if s then .lt else .gt
  | infinite s, finite _ _ _ => if s then .lt else .gt
  | finite _ _ _, infinite t => if t then .gt else .lt

/-- the exact order of an integer and a double -/
def orderInt (n : Int) : Binary64 → Ordering
  | finite t m f => orderDyadic n 0 (signed t m) f
  | infinite t => if t then .gt else .lt

end Binary64

end Stencil
