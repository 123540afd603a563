import ChronosMatch.Base.Binary64
import Mathlib.Algebra.Order.Field.Power
import Mathlib.Data.Rat.Lemmas
import Mathlib.Tactic.FieldSimp
import Mathlib.Tactic.Linarith
import Mathlib.Tactic.Positivity
import Mathlib.Tactic.Ring

/-!
# Rounding is monotone

The value of a finite double as a rational number, and where the rounding of a ratio lies: a double that is
not below the ratio is not below its rounding, and one that is not above the ratio is not above it. Two
doubles that enclose an exact result therefore enclose the computed one, and a result that is a double
is computed exactly.
-/

namespace Binary64

/-! ### Values -/

/-- The absolute value of a finite double. -/
def absRat (x : Binary64) : ℚ := x.significand * 2 ^ x.unit

def toRat (x : Binary64) : ℚ := if x.negative then -x.absRat else x.absRat

/-- The exponent field counted from the subnormal numbers. -/
def binade (x : Binary64) : Nat := max (x.magnitude / 2 ^ 52) 1 - 1

theorem unit_eq (x : Binary64) : x.unit = (x.binade : Int) - 1074 := by
  rw [unit, binade]
  omega

theorem magnitude_eq (x : Binary64) : x.magnitude = x.binade * 2 ^ 52 + x.significand := by
  rw [significand, binade]
  split <;> omega

theorem significand_lt (x : Binary64) : x.significand < 2 ^ 53 := by
  rw [significand]
  split <;> omega

theorem le_significand {x : Binary64} (h : 0 < x.binade) : 2 ^ 52 ≤ x.significand := by
  rw [binade] at h
  rw [significand]
  split <;> omega

theorem absRat_eq (x : Binary64) : x.absRat = x.significand * 2 ^ ((x.binade : Int) - 1074) := by
  rw [absRat, unit_eq]

theorem absRat_nonneg (x : Binary64) : 0 ≤ x.absRat := by
  rw [absRat]
  positivity

/-! ### Rounding to an integer -/

/-- `n / d` rounded to the nearest integer, ties to even. -/
def nearest (n d : Nat) : Nat := n / d + if d < 2 * (n % d) ∨ (d = 2 * (n % d) ∧ n / d % 2 = 1) then 1 else 0

theorem nearest_le {n d s : Nat} (hd : 0 < d) (h : n ≤ s * d) : nearest n d ≤ s := by
  have hdiv := Nat.div_add_mod n d
  have hmod := Nat.mod_lt n hd
  rw [nearest]
  by_cases hexact : n % d = 0
  · rw [hexact, if_neg (by omega), Nat.add_zero]
    exact Nat.div_le_of_le_mul (by rwa [Nat.mul_comm])
  · have hlt : n / d < s := by
      rw [Nat.div_lt_iff_lt_mul hd]
      refine lt_of_le_of_ne h fun heq => hexact ?_
      rw [heq, Nat.mul_mod_left]
    split <;> omega

theorem le_nearest {n d s : Nat} (hd : 0 < d) (h : s * d ≤ n) : s ≤ nearest n d := by
  rw [nearest]
  exact ((Nat.le_div_iff_mul_le hd).mpr h).trans (Nat.le_add_right _ _)

/-! ### The leading bit of a ratio -/

/-- The power of two of the leading bit of `num / den`. -/
def leadingExponent (num den : Nat) : Int :=
  let lead : Int := (Nat.log2 num : Int) - Nat.log2 den
  if den * 2 ^ lead.toNat ≤ num * 2 ^ (-lead).toNat then lead else lead - 1

theorem two_pow_le_iff {num den : Nat} (hden : 0 < den) (lead : Int) :
    den * 2 ^ lead.toNat ≤ num * 2 ^ (-lead).toNat ↔ (2 : ℚ) ^ lead ≤ num / den := by
  have hden' : (0 : ℚ) < den := by exact_mod_cast hden
  rw [le_div_iff₀ hden']
  rcases le_total 0 lead with hpos | hneg
  · obtain ⟨k, rfl⟩ := Int.eq_ofNat_of_zero_le hpos
    rw [Int.toNat_natCast, show (-(k : Int)).toNat = 0 by omega, pow_zero, Nat.mul_one, zpow_natCast]
    rw [mul_comm]
    exact_mod_cast Iff.rfl
  · obtain ⟨k, hk⟩ := Int.eq_ofNat_of_zero_le (Int.neg_nonneg.mpr hneg)
    obtain rfl : lead = -(k : Int) := by omega
    rw [show (-(k : Int)).toNat = 0 by omega, neg_neg, Int.toNat_natCast, pow_zero, Nat.mul_one, zpow_neg,
      zpow_natCast, inv_mul_le_iff₀ (by positivity), mul_comm]
    exact_mod_cast Iff.rfl

theorem leadingExponent_spec {num den : Nat} (hnum : num ≠ 0) (hden : 0 < den) :
    (2 : ℚ) ^ leadingExponent num den ≤ num / den ∧ (num : ℚ) / den < 2 ^ (leadingExponent num den + 1) := by
  have hden' : (0 : ℚ) < den := by exact_mod_cast hden
  have hnumLow : (2 : ℚ) ^ (Nat.log2 num : Int) ≤ num := by
    rw [zpow_natCast]
    exact_mod_cast Nat.log2_self_le hnum
  have hnumHigh : (num : ℚ) < 2 ^ ((Nat.log2 num : Int) + 1) := by
    rw [← Int.natCast_succ, zpow_natCast]
    exact_mod_cast Nat.lt_log2_self
  have hdenLow : (2 : ℚ) ^ (Nat.log2 den : Int) ≤ den := by
    rw [zpow_natCast]
    exact_mod_cast Nat.log2_self_le hden.ne'
  have hdenHigh : (den : ℚ) < 2 ^ ((Nat.log2 den : Int) + 1) := by
    rw [← Int.natCast_succ, zpow_natCast]
    exact_mod_cast Nat.lt_log2_self
  have htwo : (2 : ℚ) ≠ 0 := by norm_num
  rw [leadingExponent]
  by_cases hle : den * 2 ^ ((Nat.log2 num : Int) - Nat.log2 den).toNat ≤
      num * 2 ^ (-((Nat.log2 num : Int) - Nat.log2 den)).toNat
  · rw [if_pos hle]
    refine ⟨(two_pow_le_iff hden _).mp hle, ?_⟩
    rw [div_lt_iff₀ hden']
    calc (num : ℚ) < 2 ^ ((Nat.log2 num : Int) + 1) := hnumHigh
      _ = 2 ^ ((Nat.log2 num : Int) - Nat.log2 den + 1) * 2 ^ (Nat.log2 den : Int) := by
          rw [← zpow_add₀ htwo]
          congr 1
          ring
      _ ≤ 2 ^ ((Nat.log2 num : Int) - Nat.log2 den + 1) * den := by gcongr
  · rw [if_neg hle, sub_add_cancel]
    refine ⟨?_, not_le.mp fun h => hle ((two_pow_le_iff hden _).mpr h)⟩
    rw [le_div_iff₀ hden']
    calc (2 : ℚ) ^ ((Nat.log2 num : Int) - Nat.log2 den - 1) * den ≤
          2 ^ ((Nat.log2 num : Int) - Nat.log2 den - 1) * 2 ^ ((Nat.log2 den : Int) + 1) := by gcongr
      _ = 2 ^ (Nat.log2 num : Int) := by
          rw [← zpow_add₀ htwo]
          congr 1
          ring
      _ ≤ num := hnumLow

theorem leadingExponent_one {n : Nat} (hn : n ≠ 0) : leadingExponent n 1 = Nat.log2 n := by
  rw [leadingExponent, show Nat.log2 1 = 0 by decide, if_pos]
  · omega
  · rw [show ((Nat.log2 n : Int) - (0 : Nat)).toNat = Nat.log2 n by omega,
      show (-((Nat.log2 n : Int) - (0 : Nat))).toNat = 0 by omega, Nat.one_mul, pow_zero, Nat.mul_one]
    exact Nat.log2_self_le hn

/-! ### The rounding of a ratio -/

/-- The exponent of the unit that a ratio is rounded to. -/
def ulpExponent (num den : Nat) (exp : Int) : Int := max (exp + leadingExponent num den - 52) (-1074)

def roundedMagnitude (num den : Nat) (exp : Int) : Nat :=
  let ulp := ulpExponent num den exp
  (ulp + 1074).toNat * 2 ^ 52 + nearest (num * 2 ^ (exp - ulp).toNat) (den * 2 ^ (ulp - exp).toNat)

theorem roundRatio_eq (neg : Bool) {num : Nat} (hnum : num ≠ 0) (den : Nat) (exp : Int) :
    roundRatio neg num den exp = ofMagnitude neg (min (roundedMagnitude num den exp) infMagnitude) := by
  rw [roundRatio, if_neg hnum]
  rfl

section Ratio

variable {num den : Nat} {exp : Int}

theorem scale_eq (num den : Nat) (exp ulp : Int) : ∃ c : ℚ, 0 < c ∧
    ((den * 2 ^ (ulp - exp).toNat : Nat) : ℚ) = 2 ^ ulp * den * c ∧
      ((num * 2 ^ (exp - ulp).toNat : Nat) : ℚ) = num * 2 ^ exp * c := by
  have hscale : ∀ a : Int, ((2 ^ a.toNat : Nat) : ℚ) = 2 ^ (max a 0) := by
    intro a
    rw [Nat.cast_pow, Nat.cast_ofNat, ← zpow_natCast, Int.toNat_eq_max]
  refine ⟨2 ^ (max (ulp - exp) 0 - ulp), by positivity, ?_, ?_⟩
  · rw [Nat.cast_mul, hscale, zpow_sub₀ (by norm_num)]
    field_simp
  · rw [Nat.cast_mul, hscale, mul_assoc, ← zpow_add₀ (by norm_num),
      show exp + (max (ulp - exp) 0 - ulp) = max (exp - ulp) 0 by omega]

theorem mul_le_iff (hden : 0 < den) (exp ulp : Int) (s : Nat) :
    s * (den * 2 ^ (ulp - exp).toNat) ≤ num * 2 ^ (exp - ulp).toNat ↔
      (s : ℚ) * 2 ^ ulp ≤ num / den * 2 ^ exp := by
  have hden' : (0 : ℚ) < den := by exact_mod_cast hden
  obtain ⟨c, hc, hleft, hright⟩ := scale_eq num den exp ulp
  have hfactor : (s : ℚ) * (2 ^ ulp * den * c) = s * 2 ^ ulp * den * c := by ring
  rw [← Nat.cast_le (α := ℚ), Nat.cast_mul s, hleft, hright, hfactor, mul_le_mul_iff_left₀ hc, div_mul_eq_mul_div,
    le_div_iff₀ hden']

theorem le_mul_iff (hden : 0 < den) (exp ulp : Int) (s : Nat) :
    num * 2 ^ (exp - ulp).toNat ≤ s * (den * 2 ^ (ulp - exp).toNat) ↔
      (num : ℚ) / den * 2 ^ exp ≤ s * 2 ^ ulp := by
  have hden' : (0 : ℚ) < den := by exact_mod_cast hden
  obtain ⟨c, hc, hleft, hright⟩ := scale_eq num den exp ulp
  have hfactor : (s : ℚ) * (2 ^ ulp * den * c) = s * 2 ^ ulp * den * c := by ring
  rw [← Nat.cast_le (α := ℚ), Nat.cast_mul s, hleft, hright, hfactor, mul_le_mul_iff_left₀ hc, div_mul_eq_mul_div,
    div_le_iff₀ hden']

theorem ratio_lt (hnum : num ≠ 0) (hden : 0 < den) (exp : Int) :
    (num : ℚ) / den * 2 ^ exp < 2 ^ (ulpExponent num den exp + 53) := by
  have hlt := (leadingExponent_spec hnum hden).2
  calc (num : ℚ) / den * 2 ^ exp < 2 ^ (leadingExponent num den + 1) * 2 ^ exp := by gcongr
    _ = 2 ^ (leadingExponent num den + 1 + exp) := (zpow_add₀ (by norm_num) _ _).symm
    _ ≤ 2 ^ (ulpExponent num den exp + 53) := by
        apply zpow_le_zpow_right₀ (by norm_num)
        rw [ulpExponent]
        omega

theorem le_ratio (hnum : num ≠ 0) (hden : 0 < den) {exp : Int} (hulp : -1074 < ulpExponent num den exp) :
    2 ^ (ulpExponent num den exp + 52) ≤ (num : ℚ) / den * 2 ^ exp := by
  have hle := (leadingExponent_spec hnum hden).1
  calc (2 : ℚ) ^ (ulpExponent num den exp + 52) = 2 ^ (leadingExponent num den + exp) := by
        congr 1
        rw [ulpExponent] at hulp ⊢
        omega
    _ = 2 ^ leadingExponent num den * 2 ^ exp := zpow_add₀ (by norm_num) _ _
    _ ≤ num / den * 2 ^ exp := by gcongr

theorem roundedMagnitude_le (hnum : num ≠ 0) (hden : 0 < den) {y : Binary64}
    (h : (num : ℚ) / den * 2 ^ exp ≤ y.absRat) : roundedMagnitude num den exp ≤ y.magnitude := by
  rw [y.magnitude_eq, roundedMagnitude]
  rw [y.absRat_eq] at h
  have hlow : -1074 ≤ ulpExponent num den exp := le_max_right _ _
  have hd : 0 < den * 2 ^ (ulpExponent num den exp - exp).toNat := Nat.mul_pos hden (Nat.two_pow_pos _)
  have hsignificand := y.significand_lt
  have hcap : nearest (num * 2 ^ (exp - ulpExponent num den exp).toNat)
      (den * 2 ^ (ulpExponent num den exp - exp).toNat) ≤ 2 ^ 53 := by
    apply nearest_le hd
    rw [le_mul_iff hden]
    refine (ratio_lt hnum hden exp).le.trans (le_of_eq ?_)
    rw [zpow_add₀ (by norm_num), mul_comm]
    norm_num
  obtain hlt | heq | hgt := lt_trichotomy ((ulpExponent num den exp + 1074).toNat) y.binade
  · have := le_significand (Nat.zero_lt_of_lt hlt)
    omega
  · rw [heq]
    have hulp : (y.binade : Int) - 1074 = ulpExponent num den exp := by omega
    rw [hulp, ← le_mul_iff hden] at h
    exact Nat.add_le_add_left (nearest_le hd h) _
  · -- the ratio would fill a significand of a larger unit
    exfalso
    have hulp : -1074 < ulpExponent num den exp := by omega
    have hle := le_ratio hnum hden hulp
    have hy : (y.significand : ℚ) * 2 ^ ((y.binade : Int) - 1074) < 2 ^ (ulpExponent num den exp + 52) := by
      calc (y.significand : ℚ) * 2 ^ ((y.binade : Int) - 1074) < 2 ^ (53 : Int) * 2 ^ ((y.binade : Int) - 1074) := by
            gcongr
            exact_mod_cast hsignificand
        _ = 2 ^ (53 + ((y.binade : Int) - 1074)) := (zpow_add₀ (by norm_num) _ _).symm
        _ ≤ 2 ^ (ulpExponent num den exp + 52) := zpow_le_zpow_right₀ (by norm_num) (by omega)
    exact absurd (hle.trans h) (not_le.mpr hy)

theorem le_roundedMagnitude (hnum : num ≠ 0) (hden : 0 < den) {y : Binary64}
    (h : y.absRat ≤ (num : ℚ) / den * 2 ^ exp) : y.magnitude ≤ roundedMagnitude num den exp := by
  rw [y.magnitude_eq, roundedMagnitude]
  rw [y.absRat_eq] at h
  have hlow : -1074 ≤ ulpExponent num den exp := le_max_right _ _
  have hd : 0 < den * 2 ^ (ulpExponent num den exp - exp).toNat := Nat.mul_pos hden (Nat.two_pow_pos _)
  have hsignificand := y.significand_lt
  obtain hlt | heq | hgt := lt_trichotomy ((ulpExponent num den exp + 1074).toNat) y.binade
  · exfalso
    have hlt' := ratio_lt hnum hden exp
    have hfull : (2 : ℚ) ^ 52 ≤ y.significand := by exact_mod_cast le_significand (Nat.zero_lt_of_lt hlt)
    have hy : (2 : ℚ) ^ (ulpExponent num den exp + 53) ≤ y.significand * 2 ^ ((y.binade : Int) - 1074) := by
      calc (2 : ℚ) ^ (ulpExponent num den exp + 53) ≤ 2 ^ (52 + ((y.binade : Int) - 1074)) :=
            zpow_le_zpow_right₀ (by norm_num) (by omega)
        _ = 2 ^ (52 : Int) * 2 ^ ((y.binade : Int) - 1074) := zpow_add₀ (by norm_num) _ _
        _ ≤ y.significand * 2 ^ ((y.binade : Int) - 1074) := by
            gcongr
            exact_mod_cast hfull
    exact absurd (hy.trans h) (not_le.mpr hlt')
  · rw [heq]
    have hulp : (y.binade : Int) - 1074 = ulpExponent num den exp := by omega
    rw [hulp, ← mul_le_iff hden] at h
    exact Nat.add_le_add_left (le_nearest hd h) _
  · have hfull : 2 ^ 52 ≤ nearest (num * 2 ^ (exp - ulpExponent num den exp).toNat)
        (den * 2 ^ (ulpExponent num den exp - exp).toNat) := by
      apply le_nearest hd
      rw [mul_le_iff hden]
      refine le_trans (le_of_eq ?_) (le_ratio hnum hden (by omega))
      rw [zpow_add₀ (by norm_num), mul_comm]
      norm_num
    omega

end Ratio

theorem magnitude_roundRatio {num : Nat} (hnum : num ≠ 0) (neg : Bool) (den : Nat) (exp : Int) :
    (roundRatio neg num den exp).magnitude = min (roundedMagnitude num den exp) infMagnitude := by
  rw [roundRatio_eq neg hnum, magnitude_ofMagnitude]
  exact lt_of_le_of_lt (Nat.min_le_right _ _) (by decide)

theorem magnitude_roundRatio_zero (neg : Bool) (den : Nat) (exp : Int) :
    (roundRatio neg 0 den exp).magnitude = 0 := by
  rw [roundRatio, if_pos rfl, magnitude_ofMagnitude (by decide)]

theorem negative_roundRatio (neg : Bool) (num den : Nat) (exp : Int) :
    (roundRatio neg num den exp).negative = neg := by
  by_cases hnum : num = 0
  · rw [roundRatio, if_pos hnum, negative_ofMagnitude (by decide)]
  · rw [roundRatio_eq neg hnum, negative_ofMagnitude]
    exact lt_of_le_of_lt (Nat.min_le_right _ _) (by decide)

/-- A double that is not below a ratio is not below its rounding. -/
theorem roundRatio_le {num den : Nat} {exp : Int} (hden : 0 < den) {y : Binary64}
    (h : (num : ℚ) / den * 2 ^ exp ≤ y.absRat) (neg : Bool) :
    (roundRatio neg num den exp).magnitude ≤ y.magnitude := by
  by_cases hnum : num = 0
  · rw [hnum, magnitude_roundRatio_zero]
    exact Nat.zero_le _
  · rw [magnitude_roundRatio hnum]
    exact (Nat.min_le_left _ _).trans (roundedMagnitude_le hnum hden h)

theorem le_roundRatio {num den : Nat} {exp : Int} (hden : 0 < den) {y : Binary64} (hy : y.isNaN = false)
    (h : y.absRat ≤ (num : ℚ) / den * 2 ^ exp) (neg : Bool) :
    y.magnitude ≤ (roundRatio neg num den exp).magnitude := by
  have hinf : y.magnitude ≤ infMagnitude := by simpa [isNaN] using hy
  by_cases hnum : num = 0
  · rw [hnum, Nat.cast_zero, zero_div, zero_mul] at h
    have hzero : (y.significand : ℚ) = 0 := by
      rw [absRat] at h
      have hunit : (0 : ℚ) < 2 ^ y.unit := by positivity
      exact le_antisymm (nonpos_of_mul_nonpos_left h hunit) (Nat.cast_nonneg _)
    have hsignificand : y.significand = 0 := by exact_mod_cast hzero
    have hbinade : y.binade = 0 := by
      by_contra hpos
      have := le_significand (Nat.pos_of_ne_zero hpos)
      omega
    rw [y.magnitude_eq, hsignificand, hbinade]
    exact Nat.zero_le _
  · rw [magnitude_roundRatio hnum]
    exact Nat.le_min.mpr ⟨le_roundedMagnitude hnum hden h, hinf⟩

/-! ### The order of the values -/

theorem absRat_lt_of_magnitude_lt {x y : Binary64} (h : x.magnitude < y.magnitude) : x.absRat < y.absRat := by
  rw [x.magnitude_eq, y.magnitude_eq] at h
  have hx := x.significand_lt
  have hy := y.significand_lt
  rw [absRat_eq, absRat_eq]
  obtain hlt | heq | hgt := lt_trichotomy x.binade y.binade
  · have hfull : (2 : ℚ) ^ 52 ≤ y.significand := by exact_mod_cast le_significand (Nat.zero_lt_of_lt hlt)
    have hx' : (x.significand : ℚ) < 2 ^ (53 : Int) := by exact_mod_cast hx
    calc (x.significand : ℚ) * 2 ^ ((x.binade : Int) - 1074) < 2 ^ (53 : Int) * 2 ^ ((x.binade : Int) - 1074) := by
          gcongr
      _ = 2 ^ (53 + ((x.binade : Int) - 1074)) := (zpow_add₀ (by norm_num) _ _).symm
      _ ≤ 2 ^ (52 + ((y.binade : Int) - 1074)) := zpow_le_zpow_right₀ (by norm_num) (by omega)
      _ = 2 ^ (52 : Int) * 2 ^ ((y.binade : Int) - 1074) := zpow_add₀ (by norm_num) _ _
      _ ≤ y.significand * 2 ^ ((y.binade : Int) - 1074) := by
          gcongr
          exact_mod_cast hfull
  · rw [heq] at h ⊢
    have hlt : (x.significand : ℚ) < y.significand := by exact_mod_cast Nat.lt_of_add_lt_add_left h
    gcongr
  · have := le_significand (Nat.zero_lt_of_lt hgt)
    omega

theorem absRat_congr {x y : Binary64} (h : x.magnitude = y.magnitude) : x.absRat = y.absRat := by
  rw [absRat, absRat, significand, significand, unit, unit, h]

theorem absRat_le_of_magnitude_le {x y : Binary64} (h : x.magnitude ≤ y.magnitude) : x.absRat ≤ y.absRat := by
  rcases Nat.lt_or_eq_of_le h with hlt | heq
  · exact (absRat_lt_of_magnitude_lt hlt).le
  · exact (absRat_congr heq).le

theorem scaled_eq {x : Binary64} {exp : Int} (hexp : exp ≤ x.unit) : (x.scaled exp : ℚ) * 2 ^ exp = x.toRat := by
  have hpow : ((2 : ℚ) ^ (x.unit - exp).toNat) * 2 ^ exp = 2 ^ x.unit := by
    rw [← zpow_natCast, ← zpow_add₀ (by norm_num)]
    congr 1
    omega
  rw [scaled, toRat, absRat]
  split
  · push_cast
    rw [neg_mul, mul_assoc, hpow]
  · push_cast
    rw [mul_assoc, hpow]

/-! ### Comparing two roundings -/

theorem nearest_mono {n d n' d' : Nat} (hd : 0 < d) (hd' : 0 < d') (h : n * d' ≤ n' * d) :
    nearest n d ≤ nearest n' d' := by
  have hdiv := Nat.div_add_mod n d
  have hdiv' := Nat.div_add_mod n' d'
  have hquotient : n / d ≤ n' / d' := by
    rw [Nat.le_div_iff_mul_le hd']
    apply Nat.le_of_mul_le_mul_right _ hd
    calc n / d * d' * d = d * (n / d) * d' := by ring
      _ ≤ n * d' := Nat.mul_le_mul_right _ (Nat.mul_div_le n d)
      _ ≤ n' * d := h
  rw [nearest, nearest]
  rcases Nat.lt_or_eq_of_le hquotient with hlt | heq
  · split <;> split <;> omega
  · -- equal quotients: the fractions decide
    have hfraction : n % d * d' ≤ n' % d' * d := by
      have hleft : d * (n / d) * d' + n % d * d' = n * d' := by rw [← Nat.add_mul, hdiv]
      have hright : d' * (n' / d') * d + n' % d' * d = n' * d := by rw [← Nat.add_mul, hdiv']
      have hsame : d * (n / d) * d' = d' * (n' / d') * d := by
        rw [heq]
        ring
      omega
    have hup : d < 2 * (n % d) ∨ (d = 2 * (n % d) ∧ n / d % 2 = 1) →
        d' < 2 * (n' % d') ∨ (d' = 2 * (n' % d') ∧ n' / d' % 2 = 1) := by
      intro hup
      rw [heq] at hup
      by_contra hdown
      have hle : 2 * (n' % d') ≤ d' := by omega
      have hge : d ≤ 2 * (n % d) := by omega
      have hleft : d * d' ≤ 2 * (n % d) * d' := Nat.mul_le_mul_right _ hge
      have hright : 2 * (n' % d') * d ≤ d' * d := Nat.mul_le_mul_right _ hle
      have hboth : 2 * (n % d) * d' ≤ 2 * (n' % d') * d := by
        rw [Nat.mul_assoc, Nat.mul_assoc]
        exact Nat.mul_le_mul_left 2 hfraction
      have hcomm : d * d' = d' * d := Nat.mul_comm d d'
      have htie : 2 * (n' % d') = d' := Nat.eq_of_mul_eq_mul_right hd (by omega)
      have htie' : d = 2 * (n % d) := Nat.eq_of_mul_eq_mul_right hd' (by omega)
      omega
    rw [heq]
    by_cases hcase : d < 2 * (n % d) ∨ (d = 2 * (n % d) ∧ n / d % 2 = 1)
    · rw [heq] at hcase hup
      rw [if_pos hcase, if_pos (hup hcase)]
    · rw [heq] at hcase
      rw [if_neg hcase]
      omega

theorem roundedMagnitude_mono {num den num' den' : Nat} {exp exp' : Int} (hnum : num ≠ 0) (hden : 0 < den)
    (hnum' : num' ≠ 0) (hden' : 0 < den') (h : (num : ℚ) / den * 2 ^ exp ≤ num' / den' * 2 ^ exp') :
    roundedMagnitude num den exp ≤ roundedMagnitude num' den' exp' := by
  rw [roundedMagnitude, roundedMagnitude]
  have hlow : -1074 ≤ ulpExponent num den exp := le_max_right _ _
  have hlow' : -1074 ≤ ulpExponent num' den' exp' := le_max_right _ _
  have hlt := ratio_lt hnum hden exp
  have hlt' := ratio_lt hnum' hden' exp'
  have hd : 0 < den * 2 ^ (ulpExponent num den exp - exp).toNat := Nat.mul_pos hden (Nat.two_pow_pos _)
  have hd' : 0 < den' * 2 ^ (ulpExponent num' den' exp' - exp').toNat := Nat.mul_pos hden' (Nat.two_pow_pos _)
  obtain hless | heq | hgreater := lt_trichotomy (ulpExponent num den exp) (ulpExponent num' den' exp')
  · have hcap : nearest (num * 2 ^ (exp - ulpExponent num den exp).toNat)
        (den * 2 ^ (ulpExponent num den exp - exp).toNat) ≤ 2 ^ 53 := by
      apply nearest_le hd
      rw [le_mul_iff hden]
      refine hlt.le.trans (le_of_eq ?_)
      rw [zpow_add₀ (by norm_num), mul_comm]
      norm_num
    have hfull : 2 ^ 52 ≤ nearest (num' * 2 ^ (exp' - ulpExponent num' den' exp').toNat)
        (den' * 2 ^ (ulpExponent num' den' exp' - exp').toNat) := by
      apply le_nearest hd'
      rw [mul_le_iff hden']
      refine le_trans (le_of_eq ?_) (le_ratio hnum' hden' (by omega))
      rw [zpow_add₀ (by norm_num), mul_comm]
      norm_num
    omega
  · apply Nat.add_le_add
    · rw [heq]
    · apply nearest_mono hd hd'
      obtain ⟨c, hc, hleft, hright⟩ := scale_eq num den exp (ulpExponent num den exp)
      obtain ⟨c', hc', hleft', hright'⟩ := scale_eq num' den' exp' (ulpExponent num' den' exp')
      have hdenQ : (0 : ℚ) < den := by exact_mod_cast hden
      have hdenQ' : (0 : ℚ) < den' := by exact_mod_cast hden'
      generalize num * 2 ^ (exp - ulpExponent num den exp).toNat = n at hright ⊢
      generalize num' * 2 ^ (exp' - ulpExponent num' den' exp').toNat = n' at hright' ⊢
      rw [← Nat.cast_le (α := ℚ), Nat.cast_mul, Nat.cast_mul n', hleft', hright, hleft, hright', heq]
      rw [div_mul_eq_mul_div, div_mul_eq_mul_div, div_le_div_iff₀ hdenQ hdenQ'] at h
      calc (num : ℚ) * 2 ^ exp * c * (2 ^ ulpExponent num' den' exp' * den' * c') =
            num * 2 ^ exp * den' * (c * 2 ^ ulpExponent num' den' exp' * c') := by ring
        _ ≤ num' * 2 ^ exp' * den * (c * 2 ^ ulpExponent num' den' exp' * c') := by gcongr
        _ = num' * 2 ^ exp' * c' * (2 ^ ulpExponent num' den' exp' * den * c) := by ring
  · exfalso
    have hulp : -1074 < ulpExponent num den exp := by omega
    have hle := le_ratio hnum hden hulp
    have hbetween : (2 : ℚ) ^ (ulpExponent num' den' exp' + 53) ≤ 2 ^ (ulpExponent num den exp + 52) :=
      zpow_le_zpow_right₀ (by norm_num) (by omega)
    linarith

theorem absRat_half {x y : Binary64} (hmagnitude : y.magnitude + 2 ^ 52 = x.magnitude) (hnormal : 2 ^ 52 ≤ y.magnitude) :
    y.absRat = x.absRat / 2 := by
  have hbinade : x.binade = y.binade + 1 := by
    rw [binade, binade]
    omega
  have hsignificand : x.significand = y.significand := by
    rw [x.magnitude_eq, y.magnitude_eq, hbinade] at hmagnitude
    omega
  rw [absRat_eq, absRat_eq, hbinade, hsignificand, Nat.cast_succ,
    show ((y.binade : Int) + 1 - 1074) = (y.binade : Int) - 1074 + 1 by ring, zpow_add_one₀ (by norm_num)]
  ring

end Binary64
