/-
ROUNDED DECIMALS. A ratio of whole numbers written with a number of places, or with a number of significant digits,
always the nearest such decimal and of two the even one.
-/
import Stencil.Number.Shortest

namespace Stencil.Binary64

/-- the size of a finite double as a ratio -/
def ratio (significand : Nat) (exponent : Int) : Nat × Nat :=
  if 0 ≤ exponent then (significand * Nat.pow 2 exponent.toNat, 1) else (significand, Nat.pow 2 (-exponent).toNat)

/-- the digits of a ratio with so many places, before the point and after it -/
def placed (places num den : Nat) : Text × Text :=
  let digits := Text.ofNat (roundDiv (num * Nat.pow 10 places) den)
  let all := List.replicate (places + 1 - digits.length) '0' ++ digits
  (all.take (all.length - places), all.drop (all.length - places))

/-- so many significant digits of a ratio, and the position p of the point: the digits stand for 0.digits·10^p -/
def significant (size num den : Nat) : Text × Int :=
  if num == 0 then (List.replicate size '0', 1)
  else
    let point := pointOf num den
    let (n, d) := scaleDecimal num den (point - size)
    let digits := Text.ofNat (roundDiv n d)
    if size < digits.length then (digits.take size, point + 1) else (digits, point)

/-- a hundred times a double -/
def percent : Binary64 → Binary64
  | infinite s => infinite s
  | finite s m e =>
    let (n, d) := ratio m e
    ofRatio s (n * 100) d

end Stencil.Binary64
