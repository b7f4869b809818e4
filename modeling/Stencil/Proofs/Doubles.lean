/-
DOUBLES FROM DECIMALS. The double nearest to a ratio depends on the value of the ratio only, however it is written. It
has the form in which every double is stored, and a double in this form is the one nearest to its own value. So the
decimal by which a double is written gives it back.

- `ofRatio_congr`, `ofDecimal_shift`: zeros at the end of the digits are as good as a power of ten.
- `canonical_ofDecimal`: a decimal gives a double in stored form.
- `ofRatio_of_value`: a stored double is the one nearest to its value.
- `ofDecimal_shortest`: the digits and the power of ten that are written read back as the double.
- `ofRatio_infinite_iff`, `ofDecimal_infinite_iff`: which numbers are rounded to no double.
-/
import Mathlib.Data.Int.Log
import Mathlib.Tactic
import Stencil.Number.Shortest

namespace Stencil.Binary64

/-! ## Ratios over a power of two -/

section Ratio

variable {num den num' den' : Nat}

theorem scaleDown_pos (num : Nat) (hden : 0 < den) (e : Int) : 0 < (scaleDown num den e).2 := by
  unfold scaleDown
  split
  · exact Nat.mul_pos hden (Nat.pow_pos (by decide))
  · exact hden

theorem value_scaleDown (num den : Nat) (e : Int) :
    ((scaleDown num den e).1 : ℚ) / (scaleDown num den e).2 = (num / den : ℚ) / 2 ^ e := by
  unfold scaleDown
  split
  · rename_i he
    obtain ⟨k, rfl⟩ := Int.eq_ofNat_of_zero_le he
    simp [div_div]
  · rename_i he
    obtain ⟨k, rfl⟩ := Int.exists_eq_neg_ofNat (show e ≤ 0 by omega)
    simp [div_mul_eq_mul_div]

/-- a scaled ratio is compared with a power of two as the ratio is with a greater one -/
theorem scaleDown_lt_iff (num : Nat) (hden : 0 < den) (e : Int) (k : Nat) :
    (scaleDown num den e).1 < (scaleDown num den e).2 * Nat.pow 2 k ↔ (num / den : ℚ) < 2 ^ (e + k) := by
  have hpos : (0 : ℚ) < (scaleDown num den e).2 := by exact_mod_cast scaleDown_pos num hden e
  have hscale : (0 : ℚ) < 2 ^ e := by positivity
  rw [zpow_add₀ (by norm_num), ← div_lt_iff₀' hscale, ← value_scaleDown, div_lt_iff₀' hpos]
  exact_mod_cast Iff.rfl

/-- the power of two below a number and the one above it -/
theorem log2_bounds {n : Nat} (hn : 0 < n) :
    (2 : ℚ) ^ (Nat.log2 n : Int) ≤ n ∧ (n : ℚ) < 2 ^ ((Nat.log2 n : Int) + 1) := by
  constructor
  · exact_mod_cast Nat.log2_self_le hn.ne'
  · exact_mod_cast Nat.lt_log2_self (n := n)

/-- the first bit of a ratio is known, but for one place, from those of its terms -/
theorem log_ratio_bounds (hnum : 0 < num) (hden : 0 < den) :
    (Nat.log2 num : Int) - Nat.log2 den - 1 ≤ Int.log 2 (num / den : ℚ) ∧
      Int.log 2 (num / den : ℚ) ≤ (Nat.log2 num : Int) - Nat.log2 den := by
  obtain ⟨hnum₁, hnum₂⟩ := log2_bounds hnum
  obtain ⟨hden₁, hden₂⟩ := log2_bounds hden
  have hpos : (0 : ℚ) < den := by exact_mod_cast hden
  have hq : (0 : ℚ) < num / den := by positivity
  constructor
  · rw [← Int.zpow_le_iff_le_log (by decide) hq, le_div_iff₀ hpos]
    calc ((2 : Nat) : ℚ) ^ ((Nat.log2 num : Int) - Nat.log2 den - 1) * den
        ≤ 2 ^ ((Nat.log2 num : Int) - Nat.log2 den - 1) * 2 ^ ((Nat.log2 den : Int) + 1) := by
          push_cast
          gcongr
      _ = 2 ^ (Nat.log2 num : Int) := by
          rw [← zpow_add₀ (by norm_num)]
          congr 1
          ring
      _ ≤ num := hnum₁
  · rw [← Int.lt_add_one_iff, ← Int.lt_zpow_iff_log_lt (by decide) hq, div_lt_iff₀ hpos]
    calc (num : ℚ) < 2 ^ ((Nat.log2 num : Int) + 1) := hnum₂
      _ = 2 ^ ((Nat.log2 num : Int) - Nat.log2 den + 1) * 2 ^ (Nat.log2 den : Int) := by
          rw [← zpow_add₀ (by norm_num)]
          congr 1
          ring
      _ ≤ ((2 : Nat) : ℚ) ^ ((Nat.log2 num : Int) - Nat.log2 den + 1) * den := by
          push_cast
          gcongr

/-- **The unit of a ratio** is 52 places below its first bit, unless a unit cannot be so small. -/
theorem unitOf_eq (hnum : 0 < num) (hden : 0 < den) :
    unitOf num den = max leastExponent (Int.log 2 (num / den : ℚ) - 52) := by
  have hq : (0 : ℚ) < num / den := by positivity
  obtain ⟨hlow, hhigh⟩ := log_ratio_bounds hnum hden
  -- whether the scaled ratio is below 2^52 tells which of the two places it is
  have hplace := scaleDown_lt_iff num hden ((Nat.log2 num : Int) - Nat.log2 den - 52) 52
  have htwo : (2 : ℚ) = ((2 : Nat) : ℚ) := rfl
  rw [htwo, Int.lt_zpow_iff_log_lt (by decide) hq] at hplace
  unfold unitOf
  simp only [hplace]
  split <;> congr 1 <;> omega

/-! ## Rounding -/

theorem roundDiv_mul (n d : Nat) {c : Nat} (hc : 0 < c) : roundDiv (n * c) (d * c) = roundDiv n d := by
  have hless (a b : Nat) : a * c < b * c ↔ a < b := Nat.mul_lt_mul_right hc
  have hsame (a b : Nat) : (a * c == b * c) = (a == b) := by
    rw [Bool.eq_iff_iff, beq_iff_eq, beq_iff_eq, Nat.mul_left_inj hc.ne']
  simp only [roundDiv, Nat.mul_div_mul_right _ _ hc, Nat.mul_mod_mul_right, ← Nat.mul_assoc, hless, hsame]

/-- **Rounding a quotient** depends on its value only. -/
theorem roundDiv_congr (hden : 0 < den) (hden' : 0 < den') (h : num * den' = num' * den) :
    roundDiv num den = roundDiv num' den' := by
  calc roundDiv num den = roundDiv (num * den') (den * den') := (roundDiv_mul num den hden').symm
    _ = roundDiv (num' * den) (den' * den) := by rw [h, Nat.mul_comm den den']
    _ = roundDiv num' den' := roundDiv_mul num' den' hden

/-- a whole quotient is not rounded -/
theorem roundDiv_whole (m : Nat) {d : Nat} (hd : 0 < d) : roundDiv (m * d) d = m := by
  simp [roundDiv, Nat.mul_div_cancel m hd, hd.ne]

theorem le_roundDiv {n d m : Nat} (hd : 0 < d) (h : m * d ≤ n) : m ≤ roundDiv n d := by
  have hquotient : m ≤ n / d := (Nat.le_div_iff_mul_le hd).2 h
  simp only [roundDiv]
  split <;> omega

theorem roundDiv_le {n d m : Nat} (hd : 0 < d) (h : n < m * d) : roundDiv n d ≤ m := by
  have hquotient : n / d < m := (Nat.div_lt_iff_lt_mul hd).2 h
  simp only [roundDiv]
  split <;> omega

theorem scaleDown_congr (h : num * den' = num' * den) (e : Int) :
    (scaleDown num den e).1 * (scaleDown num' den' e).2 = (scaleDown num' den' e).1 * (scaleDown num den e).2 := by
  unfold scaleDown
  split
  · rw [← Nat.mul_assoc, h, Nat.mul_assoc]
  · rw [Nat.mul_right_comm, h, Nat.mul_right_comm]

end Ratio

/-- the double of a significand that was rounded, maybe up to one bit more than it has place for -/
def ofRounded (negative : Bool) (m : Nat) (e : Int) : Binary64 :=
  if m = Nat.pow 2 53 then
    if greatestExponent < e + 1 then infinite negative else finite negative (Nat.pow 2 52) (e + 1)
  else if greatestExponent < e then infinite negative else finite negative m e

section Nearest

variable {num den num' den' : Nat}

theorem ofRatio_zero (negative : Bool) (den : Nat) : ofRatio negative 0 den = zero negative := by
  rw [ofRatio, if_pos (by decide)]

/-- a positive ratio is scaled by its unit and rounded; the three steps are named, since unfolding the unit of a
ratio that is not known does not end -/
theorem ofRatio_eq (negative : Bool) {n d m : Nat} {e : Int} (hnum : 0 < num) (he : unitOf num den = e)
    (hs : scaleDown num den e = (n, d)) (hm : roundDiv n d = m) :
    ofRatio negative num den = ofRounded negative m e := by
  have hzero : ¬(num == 0) = true := by simp [hnum.ne']
  unfold ofRatio
  rw [if_neg hzero, he]
  conv_lhs =>
    zeta
    rw [hs]
    simp only [hm]
  by_cases h : m = Nat.pow 2 53
  · rw [ofRounded, if_pos h, if_pos (beq_iff_eq.2 h)]
  · rw [ofRounded, if_neg h, if_neg (mt beq_iff_eq.1 h)]

/-- **The double nearest to a ratio** depends on the value of the ratio only. -/
theorem ofRatio_congr (negative : Bool) (hden : 0 < den) (hden' : 0 < den')
    (hvalue : (num / den : ℚ) = num' / den') : ofRatio negative num den = ofRatio negative num' den' := by
  have h : num * den' = num' * den := by
    rw [div_eq_div_iff (by exact_mod_cast hden.ne') (by exact_mod_cast hden'.ne')] at hvalue
    exact_mod_cast hvalue
  rcases Nat.eq_zero_or_pos num with rfl | hnum
  · obtain rfl : num' = 0 := by simpa [hden.ne'] using h.symm
    rw [ofRatio_zero, ofRatio_zero]
  · have hnum' : 0 < num' := by
      refine Nat.pos_of_ne_zero ?_
      rintro rfl
      simp [hnum.ne', hden'.ne'] at h
    have hround (e : Int) :=
      roundDiv_congr (scaleDown_pos num hden e) (scaleDown_pos num' hden' e) (scaleDown_congr h e)
    rw [ofRatio_eq negative hnum rfl Prod.mk.eta.symm rfl, ofRatio_eq negative hnum' rfl Prod.mk.eta.symm rfl,
      unitOf_eq hnum hden, unitOf_eq hnum' hden', hvalue, hround]

/-! ## Stored doubles -/

theorem canonical_ofRounded (negative : Bool) {m : Nat} {e : Int} (hm : m ≤ Nat.pow 2 53) (he : leastExponent ≤ e)
    (hleast : Nat.pow 2 52 ≤ m ∨ e = leastExponent) : (ofRounded negative m e).Canonical := by
  unfold ofRounded
  split
  · split
    · trivial
    · exact ⟨by decide, by omega, by omega, .inl (Nat.le_refl _)⟩
  · split
    · trivial
    · exact ⟨by omega, he, by omega, hleast⟩

/-- **The double nearest to a ratio** is in stored form. -/
theorem canonical_ofRatio (negative : Bool) (hden : 0 < den) : (ofRatio negative num den).Canonical := by
  rcases Nat.eq_zero_or_pos num with rfl | hnum
  · rw [ofRatio_zero]
    exact ⟨by decide, Int.le_refl _, by decide, .inr rfl⟩
  · have hq : (0 : ℚ) < num / den := by positivity
    have htwo : (2 : ℚ) = ((2 : Nat) : ℚ) := rfl
    have hpos := scaleDown_pos num hden (unitOf num den)
    have hplace (k : Nat) := scaleDown_lt_iff num hden (unitOf num den) k
    have hunit := unitOf_eq hnum hden
    rw [ofRatio_eq negative hnum rfl Prod.mk.eta.symm rfl]
    simp only [htwo, Int.lt_zpow_iff_log_lt (R := ℚ) (by decide : 1 < 2) hq] at hplace
    refine canonical_ofRounded negative (roundDiv_le hpos ?_) (by omega) ?_
    · rw [Nat.mul_comm, hplace]
      omega
    · rcases le_total (Int.log 2 (num / den : ℚ) - 52) leastExponent with hsmall | hlarge
      · exact .inr (by omega)
      · refine .inl (le_roundDiv hpos ?_)
        rw [← Nat.not_lt, Nat.mul_comm, hplace]
        omega

/-- **A stored double** is the one nearest to any ratio of its value. -/
theorem ofRatio_of_value (negative : Bool) {m : Nat} {e : Int} (hc : (finite negative m e).Canonical) (hm : 0 < m)
    (hden : 0 < den) (hvalue : (num / den : ℚ) = m * 2 ^ e) : ofRatio negative num den = finite negative m e := by
  obtain ⟨hroom, hleast, hgreatest, hfull⟩ := hc
  have htwo : (2 : ℚ) = ((2 : Nat) : ℚ) := rfl
  have hq : (0 : ℚ) < num / den := by
    rw [hvalue]
    positivity
  have hnum : 0 < num := by
    refine Nat.pos_of_ne_zero ?_
    rintro rfl
    simp at hq
  have hbelow (k : Nat) : m < Nat.pow 2 k ↔ Int.log 2 (num / den : ℚ) < e + k := by
    have hscale : (0 : ℚ) < 2 ^ e := by positivity
    rw [← Int.lt_zpow_iff_log_lt (R := ℚ) (by decide : 1 < 2) hq, hvalue, ← htwo, zpow_add₀ (by norm_num), mul_comm,
      mul_lt_mul_iff_right₀ hscale]
    exact_mod_cast Iff.rfl
  have hlog₁ := (hbelow 53).1 hroom
  have hlog₂ := (not_congr (hbelow 52)).1
  have hunit : unitOf num den = e := by
    rw [unitOf_eq hnum hden]
    omega
  have hpos := scaleDown_pos num hden e
  have hscaled : (scaleDown num den e).1 = m * (scaleDown num den e).2 := by
    have := value_scaleDown num den e
    rw [hvalue, mul_div_cancel_right₀ _ (by positivity), div_eq_iff (by exact_mod_cast hpos.ne')] at this
    exact_mod_cast this
  rw [ofRatio_eq negative hnum hunit Prod.mk.eta.symm (by rw [hscaled, roundDiv_whole m hpos]), ofRounded,
    if_neg hroom.ne, if_neg (by omega)]

/-! ## Decimals -/

/-- **A decimal** gives the double nearest to any ratio of its value. -/
theorem ofDecimal_eq (negative : Bool) {digits : Nat} {k : Int} (hden : 0 < den)
    (hvalue : (digits * 10 ^ k : ℚ) = num / den) : ofDecimal negative digits k = ofRatio negative num den := by
  unfold ofDecimal
  split
  · rename_i hk
    obtain ⟨j, rfl⟩ := Int.eq_ofNat_of_zero_le hk
    exact ofRatio_congr negative (by decide) hden (by simpa using hvalue)
  · rename_i hk
    obtain ⟨j, rfl⟩ := Int.exists_eq_neg_ofNat (show k ≤ 0 by omega)
    exact ofRatio_congr negative (Nat.pow_pos (by decide)) hden (by simpa [div_eq_mul_inv] using hvalue)

theorem exists_ratio (digits : Nat) (k : Int) : ∃ num den : Nat, 0 < den ∧ (digits * 10 ^ k : ℚ) = num / den := by
  rcases Int.le_total 0 k with hk | hk
  · obtain ⟨j, rfl⟩ := Int.eq_ofNat_of_zero_le hk
    exact ⟨digits * 10 ^ j, 1, by decide, by simp⟩
  · obtain ⟨j, rfl⟩ := Int.exists_eq_neg_ofNat hk
    exact ⟨digits, 10 ^ j, Nat.pow_pos (by decide), by simp [div_eq_mul_inv]⟩

/-- **Zeros at the end** of the digits are as good as a power of ten. -/
theorem ofDecimal_shift (negative : Bool) (digits j : Nat) (k : Int) :
    ofDecimal negative (digits * 10 ^ j) k = ofDecimal negative digits (k + j) := by
  obtain ⟨num, den, hden, hvalue⟩ := exists_ratio digits (k + j)
  have hshift : ((digits * 10 ^ j : Nat) * 10 ^ k : ℚ) = num / den := by
    rw [← hvalue, zpow_add₀ (by norm_num), zpow_natCast]
    push_cast
    ring
  rw [ofDecimal_eq negative hden hvalue, ofDecimal_eq negative hden hshift]

/-- **A decimal** gives a double in stored form. -/
theorem canonical_ofDecimal (negative : Bool) (digits : Nat) (k : Int) : (ofDecimal negative digits k).Canonical := by
  unfold ofDecimal
  split
  · exact canonical_ofRatio negative (by decide)
  · exact canonical_ofRatio negative (Nat.pow_pos (by decide))

end Nearest

/-! ## Shortest decimals -/

section Shortest

variable {x : Binary64} {negative : Bool} {num den : Nat}

theorem ofDecimal_of_neighbour? {k : Int} {digits : Nat} (h : neighbour? x negative num den k = some digits) :
    ofDecimal negative digits k = x := by
  have htried (near far : Nat)
      (h : (if ofDecimal negative near k == x then some near
        else if ofDecimal negative far k == x then some far else none) = some digits) :
      ofDecimal negative digits k = x := by
    grind
  exact htried _ _ h

/-- what is found reads back as the double, since this is tried -/
theorem ofDecimal_of_search {point : Int} {size count : Nat} {found : Nat × Int}
    (h : search x negative num den point size count = some found) : ofDecimal negative found.1 found.2 = x := by
  induction count generalizing size with
  | zero => simp [search] at h
  | succ count ih =>
    simp only [search] at h
    split at h
    · rename_i digits hdigits
      cases h
      exact ofDecimal_of_neighbour? hdigits
    · exact ih h

/-- **The decimal by which a double is written** reads back as the double. -/
theorem ofDecimal_shortest {m : Nat} {e : Int} (hc : (finite negative m e).Canonical) (hm : 0 < m) :
    ofDecimal negative (shortest negative m e).1 (shortest negative m e).2 = finite negative m e := by
  simp only [shortest]
  split
  · rename_i found hfound
    exact ofDecimal_of_search hfound
  -- if nothing is found, the double is written in full
  · split
    · rename_i he
      obtain ⟨k, rfl⟩ := Int.eq_ofNat_of_zero_le he
      have hvalue : ((m * Nat.pow 2 k : Nat) * 10 ^ (0 : Int) : ℚ) = (m * Nat.pow 2 k : Nat) / (1 : Nat) := by simp
      rw [Int.toNat_natCast, ofDecimal_eq negative (by decide) hvalue]
      exact ofRatio_of_value negative hc hm (by decide) (by simp)
    · rename_i he
      obtain ⟨k, rfl⟩ := Int.exists_eq_neg_ofNat (show e ≤ 0 by omega)
      have hvalue : ((m * Nat.pow 5 k : Nat) * 10 ^ (-(k : Int)) : ℚ) = m / (Nat.pow 2 k : Nat) := by
        have hten : (10 : ℚ) = 5 * 2 := by norm_num
        rw [hten, zpow_neg, zpow_natCast, mul_pow]
        push_cast [Nat.pow_eq]
        field_simp
      rw [neg_neg, Int.toNat_natCast, ofDecimal_eq negative (Nat.pow_pos (by decide)) hvalue]
      exact ofRatio_of_value negative hc hm (Nat.pow_pos (by decide)) (by simp [div_eq_mul_inv])

end Shortest

/-! ## Beyond all doubles -/

/-- the least number that is rounded to no double: half a unit above the greatest one -/
def limit : Nat := (2 ^ 54 - 1) * 2 ^ 970

section Beyond

variable {num den : Nat}

theorem scaleDown_natCast (num den k : Nat) : scaleDown num den k = (num, den * 2 ^ k) :=
  if_pos (Int.natCast_nonneg k)

/-- below the next whole number, a quotient is rounded up to it from the half on, if it is even -/
theorem roundDiv_eq_succ_iff {n d m : Nat} (hodd : m % 2 = 1) (hbelow : n < (m + 1) * d) :
    roundDiv n d = m + 1 ↔ (2 * m + 1) * d ≤ 2 * n := by
  have hd : 0 < d := Nat.pos_of_ne_zero fun h => by simp [h] at hbelow
  have hquotient : n / d ≤ m := Nat.le_of_lt_succ ((Nat.div_lt_iff_lt_mul hd).2 hbelow)
  have hdivision := Nat.div_add_mod n d
  have hmod := Nat.mod_lt n hd
  simp only [roundDiv]
  rcases Nat.lt_or_eq_of_le hquotient with hless | heq
  · have hfar : d * (n / d) + d ≤ d * m := by
      rw [← Nat.mul_succ]
      exact Nat.mul_le_mul_left d hless
    have hnot : ¬(2 * m + 1) * d ≤ 2 * n := by
      rw [Nat.add_mul, Nat.one_mul, Nat.mul_assoc, Nat.mul_comm m d]
      omega
    refine iff_of_false ?_ hnot
    split <;> omega
  · rw [heq] at hdivision
    have hhalf : (2 * m + 1) * d ≤ 2 * n ↔ d ≤ 2 * (n % d) := by
      rw [Nat.add_mul, Nat.one_mul, Nat.mul_assoc, Nat.mul_comm m d]
      omega
    rw [hhalf, heq, hodd]
    split
    · rename_i h
      simp at h
      omega
    · rename_i h
      simp at h
      omega

theorem ofRounded_infinite_iff {negative : Bool} {m : Nat} {e : Int} :
    (∃ s, ofRounded negative m e = infinite s) ↔ greatestExponent < e ∨ m = 2 ^ 53 ∧ e = greatestExponent := by
  unfold ofRounded
  have hpow : Nat.pow 2 53 = 2 ^ 53 := rfl
  rw [hpow]
  constructor
  · rintro ⟨s, h⟩
    split at h
    · split at h
      · rename_i hm he
        by_cases hlast : greatestExponent < e
        · exact .inl hlast
        · exact .inr ⟨hm, by omega⟩
      · cases h
    · split at h
      · rename_i he
        exact .inl he
      · cases h
  · rintro (he | ⟨hm, he⟩)
    · split
      · exact ⟨negative, if_pos (by omega)⟩
      · exact ⟨negative, rfl⟩
    · rw [if_pos hm]
      exact ⟨negative, if_pos (by omega)⟩

/-- **A ratio is beyond all doubles** from half a unit above the greatest one on. -/
theorem ofRatio_infinite_iff (negative : Bool) (hden : 0 < den) :
    (∃ s, ofRatio negative num den = infinite s) ↔ limit * den ≤ num := by
  rcases Nat.eq_zero_or_pos num with rfl | hnum
  · rw [ofRatio_zero]
    refine iff_of_false ?_ ?_
    · rintro ⟨s, h⟩
      cases h
    · have hlimit : 0 < limit := by
        unfold limit
        positivity
      exact Nat.not_le.2 (Nat.mul_pos hlimit hden)
  · have hq : (0 : ℚ) < num / den := by positivity
    have hunit := unitOf_eq hnum hden
    have hpos := scaleDown_pos num hden (unitOf num den)
    have hplace (k : Nat) : num < 2 ^ k * den ↔ Int.log 2 (num / den : ℚ) < k := by
      rw [← Int.lt_zpow_iff_log_lt (R := ℚ) (by decide : 1 < 2) hq, div_lt_iff₀ (by exact_mod_cast hden)]
      exact_mod_cast Iff.rfl
    have hlow : 2 ^ 1023 * den ≤ limit * den := by
      refine Nat.mul_le_mul_right den ?_
      rw [show 1023 = 53 + 970 from rfl, pow_add]
      exact Nat.mul_le_mul_right _ (by decide)
    have hhigh : limit * den ≤ 2 ^ 1024 * den := by
      refine Nat.mul_le_mul_right den ?_
      rw [show 1024 = 54 + 970 from rfl, pow_add]
      exact Nat.mul_le_mul_right _ (by decide)
    rw [ofRatio_eq negative hnum rfl Prod.mk.eta.symm rfl, ofRounded_infinite_iff]
    rcases lt_trichotomy (Int.log 2 (num / den : ℚ)) 1023 with hless | hlast | hmore
    · refine iff_of_false ?_ ?_
      · rw [hunit, greatestExponent, leastExponent]
        omega
      · exact Nat.not_le.2 (((hplace 1023).2 hless).trans_le hlow)
    · -- the last place of units: the significand can be rounded up beyond it
      have hlast' : unitOf num den = greatestExponent := by
        rw [hunit, hlast]
        rfl
      have hplaces : greatestExponent = ((971 : Nat) : Int) := rfl
      have hbelow : num < (2 ^ 53 - 1 + 1) * (den * 2 ^ 971) := by
        have := (hplace 1024).2 (by omega)
        rwa [show 1024 = 53 + 971 from rfl, pow_add, Nat.mul_assoc, Nat.mul_comm _ den] at this
      rw [hlast', hplaces, scaleDown_natCast, show (2 : Nat) ^ 53 = 2 ^ 53 - 1 + 1 from rfl,
        roundDiv_eq_succ_iff rfl hbelow]
      have hdouble : (2 * (2 ^ 53 - 1) + 1) * (den * 2 ^ 971) = 2 * (limit * den) := by
        have hodd : 2 * (2 ^ 53 - 1) + 1 = 2 ^ 54 - 1 := rfl
        rw [hodd, show 971 = 970 + 1 from rfl, pow_succ 2 970, limit]
        generalize 2 ^ 970 = unit
        ring
      rw [hdouble]
      simp
    · refine iff_of_true ?_ ?_
      · rw [hunit, greatestExponent, leastExponent]
        omega
      · exact hhigh.trans (Nat.not_lt.1 (mt (hplace 1024).1 (by omega)))

theorem ofDecimal_infinite_iff (negative : Bool) (digits places : Nat) :
    (∃ s, ofDecimal negative digits (-(places : Int)) = infinite s) ↔ limit * 10 ^ places ≤ digits := by
  have hvalue : (digits * 10 ^ (-(places : Int)) : ℚ) = digits / (10 ^ places : Nat) := by
    push_cast
    rw [zpow_neg, zpow_natCast, div_eq_mul_inv]
  have hden : 0 < 10 ^ places := Nat.pow_pos (by decide)
  rw [ofDecimal_eq negative hden hvalue, ofRatio_infinite_iff negative hden]

end Beyond

end Stencil.Binary64
