/-
SHORTEST DECIMALS. A double is written with the fewest significant digits that read back as the same double,
and of those with the digits nearest to it, a tie going to the even digit. `digits?` finds them; `text` lays
them out: positional from 10^-4 up to 10^16, always with a fraction, and otherwise with an exponent that has a
sign and at least two digits.
-/
import Stencil.Number.Binary64

namespace Stencil.Binary64

/-- the position p of the point: the positive ratio lies from 10^(p-1) up to 10^p -/
def pointOf (num den : Nat) : Int :=
  if den ≤ num then (Text.ofNat (num / den)).length
  else 1 - ((Text.ofNat ((den - 1) / num)).length : Int)

/-- the ratio divided by 10^k, as a ratio -/
def scaleDecimal (num den : Nat) (k : Int) : Nat × Nat :=
  if 0 ≤ k then (num, den * Nat.pow 10 k.toNat) else (num * Nat.pow 10 (-k).toNat, den)

/-- of the two neighbours of a double on the grid of 10^k, the nearest that reads back as the double -/
def neighbour? (x : Binary64) (negative : Bool) (num den : Nat) (k : Int) : Option Nat :=
  let (n, d) := scaleDecimal num den k
  let low := n / d
  let r := n % d
  let readsBack := fun (digits : Nat) => ofDecimal negative digits k == x
  let lowFirst := 2 * r < d || (2 * r == d && low % 2 == 0)
  let near := if lowFirst then low else low + 1
  let far := if lowFirst then low + 1 else low
  if readsBack near then some near else if readsBack far then some far else none

/-- the first grid, of those with at most `count` more digits from `size` digits on, that has such a neighbour -/
def search (x : Binary64) (negative : Bool) (num den : Nat) (point : Int) (size : Nat) : Nat → Option (Nat × Int)
  | 0 => none
  | count + 1 =>
    let k := point - size
    match neighbour? x negative num den k with
    | some digits => some (digits, k)
    | none => search x negative num den point (size + 1) count

/-- the digits and the power of ten by which a positive finite double is written -/
def shortest (negative : Bool) (m : Nat) (e : Int) : Nat × Int :=
  let num := if 0 ≤ e then m * Nat.pow 2 e.toNat else m
  let den := if 0 ≤ e then 1 else Nat.pow 2 (-e).toNat
  match search (finite negative m e) negative num den (pointOf num den) 1 17 with
  | some found => found
  | none => if 0 ≤ e then (num, 0) else (m * Nat.pow 5 (-e).toNat, e)

/-- digits without the zeros at their end -/
def trimZeros (digits : Text) : Text := (digits.reverse.dropWhile (· == '0')).reverse

/-- the exponent mark: a sign and at least two digits -/
def exponentText (x : Int) : Text :=
  let digits := Text.ofNat x.natAbs
  (if x < 0 then ['e', '-'] else ['e', '+']) ++ List.replicate (2 - digits.length) '0' ++ digits

/-- the number 0.digits·10^point -/
def layout (digits : Text) (point : Int) : Text :=
  if -4 < point && point ≤ 16 then
    if point ≤ 0 then '0' :: '.' :: (List.replicate (-point).toNat '0' ++ digits)
    else if (digits.length : Int) ≤ point then
      digits ++ List.replicate (point.toNat - digits.length) '0' ++ ['.', '0']
    else digits.take point.toNat ++ '.' :: digits.drop point.toNat
  else
    let lead := digits.take 1
    let rest := digits.drop 1
    lead ++ (if rest.isEmpty then [] else '.' :: rest) ++ exponentText (point - 1)

/-- a double as text -/
def text : Binary64 → Text
  | infinite false => "inf"
  | infinite true => "-inf"
  | finite s m e =>
    let sign : Text := if s then ['-'] else []
    if m == 0 then sign ++ ['0', '.', '0']
    else
      let (digits, k) := shortest s m e
      let all := Text.ofNat digits
      sign ++ layout (trimZeros all) (k + all.length)

end Stencil.Binary64
