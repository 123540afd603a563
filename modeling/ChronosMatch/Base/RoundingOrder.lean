import Mathlib.Algebra.Order.Floor.Semifield
import Mathlib.Data.Rat.Floor
import ChronosMatch.Base.RoundedArithmetic

/-!
# The order of rounded results

Rounding is monotone: of two numbers the smaller one is never rounded to the greater double. With it an order of the
operands carries over to the computed results, and on to the integers that they are truncated to.
-/

namespace Binary64

/-! ### Rounding is monotone -/

theorem key_roundRatio (neg : Bool) (num den : Nat) (exp : Int) : (roundRatio neg num den exp).key =
    if neg then -((roundRatio neg num den exp).magnitude : Int) else (roundRatio neg num den exp).magnitude := by
  rw [key_eq, negative_roundRatio]

theorem magnitude_roundRatio_of_nonpos {num den : Nat} {exp : Int} (hden : 0 < den)
    (h : (num : ℚ) / den * 2 ^ exp ≤ 0) (neg : Bool) : (roundRatio neg num den exp).magnitude = 0 := by
  have hzero := roundRatio_le hden (y := zero) (h.trans zero.absRat_nonneg) neg
  exact Nat.le_zero.mp (hzero.trans (by decide))

theorem magnitude_roundRatio_mono {num den num' den' : Nat} {exp exp' : Int} (hden : 0 < den) (hden' : 0 < den')
    (h : (num : ℚ) / den * 2 ^ exp ≤ num' / den' * 2 ^ exp') (neg neg' : Bool) :
    (roundRatio neg num den exp).magnitude ≤ (roundRatio neg' num' den' exp').magnitude := by
  by_cases hnum : num = 0
  · rw [hnum, magnitude_roundRatio_zero]
    exact Nat.zero_le _
  · have hpositive : (0 : ℚ) < num / den * 2 ^ exp := by positivity
    have hnum' : num' ≠ 0 := by
      rintro rfl
      rw [Nat.cast_zero, zero_div, zero_mul] at h
      exact absurd hpositive (not_lt.mpr h)
    have hmono := roundedMagnitude_mono hnum hden hnum' hden' h
    rw [magnitude_roundRatio hnum, magnitude_roundRatio hnum']
    omega

theorem key_roundRatio_mono {neg neg' : Bool} {num den num' den' : Nat} {exp exp' : Int} (hden : 0 < den)
    (hden' : 0 < den') (h : ratioValue neg num den exp ≤ ratioValue neg' num' den' exp') :
    (roundRatio neg num den exp).key ≤ (roundRatio neg' num' den' exp').key := by
  have hratio : (0 : ℚ) ≤ num / den * 2 ^ exp := by positivity
  have hratio' : (0 : ℚ) ≤ num' / den' * 2 ^ exp' := by positivity
  rw [key_roundRatio, key_roundRatio]
  rw [ratioValue, ratioValue] at h
  cases neg with
  | false =>
      rw [if_neg Bool.false_ne_true] at h ⊢
      cases neg' with
      | false =>
          rw [if_neg Bool.false_ne_true] at h ⊢
          exact_mod_cast magnitude_roundRatio_mono hden hden' h false false
      | true =>
          -- both numbers are zero
          rw [if_pos rfl] at h ⊢
          have hzero := magnitude_roundRatio_of_nonpos hden (h.trans (neg_nonpos.mpr hratio')) false
          have hzero' := magnitude_roundRatio_of_nonpos hden' (neg_nonneg.mp (hratio.trans h)) true
          omega
  | true =>
      rw [if_pos rfl] at h ⊢
      cases neg' with
      | false =>
          rw [if_neg Bool.false_ne_true]
          omega
      | true =>
          rw [if_pos rfl] at h ⊢
          have hmono := magnitude_roundRatio_mono hden' hden (neg_le_neg_iff.mp h) true true
          omega

theorem IsRounding.mono {q q' : ℚ} {r r' : Binary64} (h : IsRounding q r) (h' : IsRounding q' r') (hle : q ≤ q') :
    r ≤ r' := by
  obtain ⟨neg, num, den, exp, hden, rfl, hkey⟩ := h.ratio
  obtain ⟨neg', num', den', exp', hden', rfl, hkey'⟩ := h'.ratio
  refine ⟨h.isNaN, h'.isNaN, ?_⟩
  rw [hkey, hkey']
  exact key_roundRatio_mono hden hden' hle

/-! ### Bounds -/

theorem toRat_of_nonneg {x : Binary64} (h : zero ≤ x) : x.toRat = x.absRat := by
  have hnonneg := toRat_mono h
  have habs := x.absRat_nonneg
  rw [toRat_zero] at hnonneg
  rw [toRat] at hnonneg ⊢
  by_cases hneg : x.negative = true
  · rw [if_pos hneg] at hnonneg ⊢
    linarith
  · rw [if_neg hneg]

theorem isFinite_of_between {x y : Binary64} (hx : zero ≤ x) (h : x ≤ y) (hy : y.isFinite = true) :
    x.isFinite = true := by
  have hzero : zero.key = 0 := by decide
  have hlow := hx.2.2
  have hhigh := h.2.2
  rw [hzero] at hlow
  simp only [isFinite, decide_eq_true_eq] at hy ⊢
  simp only [key_eq] at hlow hhigh
  split at hhigh <;> split at hhigh <;> simp_all <;> omega

theorem le_trans {x y z : Binary64} (h : x ≤ y) (h' : y ≤ z) : x ≤ z :=
  ⟨h.1, h'.2.1, h.2.2.trans h'.2.2⟩

theorem le_of_not_lt {x y : Binary64} (hx : x.isNaN = false) (hy : y.isNaN = false) (h : ¬ x < y) : y ≤ x :=
  ⟨hy, hx, not_lt.mp fun hkey => h ⟨hx, hy, hkey⟩⟩

/-! ### Doubling up to a bound -/

/-- `min(a, b)`, which is `a` unless `b` is less. -/
def minimum (a b : Binary64) : Binary64 := if b < a then b else a

/-- `max(a, b)`, which is `a` unless `b` is greater. -/
def maximum (a b : Binary64) : Binary64 := if a < b then b else a

section Doubling

variable {x bound : Binary64} (hpos : zero ≤ x) (hle : x ≤ bound) (hbound : bound.isFinite = true)
include hpos hle hbound

/-- A doubled number is exact where it stays below the bound, and past the bound at most where it overflows. -/
theorem toRat_minimum_double : (minimum (x * ofInt 2) bound).toRat = min (x.toRat * 2) bound.toRat := by
  have hx := isFinite_of_between hpos hle hbound
  have hrounds := rounds_mul hx (y := ofInt 2) (by decide)
  rw [toRat_two] at hrounds
  have hvalue := toRat_of_nonneg hpos
  by_cases hdouble : x.magnitude + 2 ^ 52 ≤ infMagnitude
  · obtain ⟨z, hz, hzvalue⟩ := exists_double hdouble
    have hexact : (x * ofInt 2).toRat = x.toRat * 2 := by
      apply hrounds.toRat_eq hz
      rw [hzvalue, hvalue, mul_comm]
    rw [minimum]
    split
    · next hlt =>
        rw [min_eq_right (hexact ▸ (toRat_lt hlt).le)]
    · next hlt =>
        have hbelow := le_of_not_lt (isNaN_of_isFinite hbound) hrounds.isNaN hlt
        rw [hexact, min_eq_left (hexact ▸ toRat_mono hbelow)]
  · have hlarge := infinity_le_two_mul hdouble
    have hinfinity : infinity.toRat = infinity.absRat := toRat_of_not_negative (by decide)
    have hover : infinity ≤ x * ofInt 2 := hrounds.ge infinity (by decide) (by rw [hinfinity, hvalue]; linarith)
    have hlt : bound < x * ofInt 2 := by
      refine ⟨isNaN_of_isFinite hbound, hrounds.isNaN, lt_of_lt_of_le ?_ hover.2.2⟩
      have hmagnitude : bound.magnitude < infMagnitude := by simpa [isFinite] using hbound
      rw [key_eq, show infinity.key = infMagnitude by decide]
      split <;> omega
    have hvalues := toRat_mono (le_of_lt hlt)
    have hbelow : bound.toRat ≤ infinity.absRat := by
      have habs := absRat_le_infinity hbound
      have hnonneg := bound.absRat_nonneg
      rw [toRat]
      split <;> linarith
    rw [minimum, if_pos hlt, min_eq_right]
    rw [hvalue]
    linarith

theorem le_minimum_double : x ≤ minimum (x * ofInt 2) bound ∧ minimum (x * ofInt 2) bound ≤ bound := by
  have hx := isFinite_of_between hpos hle hbound
  have hnan := isNaN_of_isFinite hbound
  have hrounds := rounds_mul hx (y := ofInt 2) (by decide)
  rw [toRat_two] at hrounds
  have hnonneg := toRat_mono hpos
  rw [toRat_zero] at hnonneg
  rw [minimum]
  split
  · exact ⟨hle, hnan, hnan, le_rfl⟩
  · next hlt => exact ⟨hrounds.ge x hle.1 (by linarith), le_of_not_lt hnan hrounds.isNaN hlt⟩

end Doubling

/-! ### Truncation -/

theorem truncate_eq {x : Binary64} (h : zero ≤ x) : x.truncate = ⌊x.toRat⌋₊ := by
  have hfloor : x.significand * 2 ^ x.unit.toNat / 2 ^ (-x.unit).toNat = ⌊x.absRat⌋₊ := by
    rw [← Nat.floor_div_eq_div (K := ℚ), absRat]
    congr 1
    rw [Nat.cast_mul, Nat.cast_pow, Nat.cast_pow, Nat.cast_ofNat, mul_div_assoc]
    congr 1
    obtain ⟨n, hn | hn⟩ := x.unit.eq_nat_or_neg
    · rw [hn, Int.toNat_natCast, Int.toNat_neg_natCast, pow_zero, div_one, zpow_natCast]
    · rw [hn, neg_neg, Int.toNat_natCast, Int.toNat_neg_natCast, pow_zero, one_div, zpow_neg, zpow_natCast]
  rw [truncate, hfloor, toRat_of_nonneg h]
  by_cases hneg : x.negative = true
  · -- the number is the negative zero
    have hvalue := toRat_of_nonneg h
    rw [toRat, if_pos hneg] at hvalue
    rw [if_pos hneg, show x.absRat = 0 by linarith]
    simp
  · rw [if_neg hneg]

end Binary64
