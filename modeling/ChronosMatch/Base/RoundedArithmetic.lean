import ChronosMatch.Base.Rounding

/-!
# Rounded arithmetic

`Rounds` says what a computed result has to do with the exact one: no double lies strictly between the
two. Every operation on finite doubles rounds its exact result, so bounds that are doubles carry over from
the exact results to the computed ones.
-/

namespace Binary64

theorem key_eq (x : Binary64) : x.key = if x.negative then -(x.magnitude : Int) else x.magnitude := rfl

theorem key_nonpos_of_negative {x : Binary64} (h : x.negative = true) : x.key ≤ 0 := by
  rw [key_eq, if_pos h]
  omega

theorem key_nonneg_of_not_negative {x : Binary64} (h : x.negative = false) : 0 ≤ x.key := by
  rw [key_eq, h, if_neg Bool.false_ne_true]
  omega

/-- The exact value of a ratio with a sign. -/
def ratioValue (neg : Bool) (num den : Nat) (exp : Int) : ℚ :=
  if neg then -((num : ℚ) / den * 2 ^ exp) else num / den * 2 ^ exp

/-- The double stands for the number as well as any: no other double lies strictly between the two. -/
structure Rounds (q : ℚ) (r : Binary64) : Prop where
  isNaN : r.isNaN = false
  le : ∀ z : Binary64, z.isNaN = false → q ≤ z.toRat → r ≤ z
  ge : ∀ z : Binary64, z.isNaN = false → z.toRat ≤ q → z ≤ r

/-- The double is the number rounded, but for the sign of a zero. -/
structure IsRounding (q : ℚ) (r : Binary64) : Prop where
  isNaN : r.isNaN = false
  ratio : ∃ neg num den exp, 0 < den ∧ ratioValue neg num den exp = q ∧ r.key = (roundRatio neg num den exp).key

theorem absRat_eq_zero_iff {x : Binary64} : x.absRat = 0 ↔ x.magnitude = 0 := by
  have hzero : (ofMagnitude false 0).absRat = 0 := by
    rw [absRat, show (ofMagnitude false 0).significand = 0 by decide, Nat.cast_zero, zero_mul]
  have hmagnitude : (ofMagnitude false 0).magnitude = 0 := magnitude_ofMagnitude (by decide)
  constructor
  · intro habs
    by_contra hne
    have hlt : (ofMagnitude false 0).absRat < x.absRat := absRat_lt_of_magnitude_lt (by omega)
    rw [hzero, habs] at hlt
    exact lt_irrefl 0 hlt
  · intro hx
    rw [← hzero]
    exact absRat_congr (hx.trans hmagnitude.symm)

theorem magnitude_eq_zero_of_absRat {x : Binary64} (h : x.absRat ≤ 0) : x.magnitude = 0 :=
  absRat_eq_zero_iff.mp (le_antisymm h x.absRat_nonneg)

theorem absRat_pos {x : Binary64} (h : x.magnitude ≠ 0) : 0 < x.absRat :=
  lt_of_le_of_ne x.absRat_nonneg fun hzero => h (absRat_eq_zero_iff.mp hzero.symm)

theorem rounds_roundRatio (neg : Bool) (num : Nat) {den : Nat} (hden : 0 < den) (exp : Int) :
    Rounds (ratioValue neg num den exp) (roundRatio neg num den exp) where
  isNaN := isNaN_roundRatio neg num den exp
  le := by
    intro z hz hle
    refine ⟨isNaN_roundRatio neg num den exp, hz, ?_⟩
    have hratio : (0 : ℚ) ≤ num / den * 2 ^ exp := by positivity
    cases neg with
    | false =>
        rw [ratioValue, if_neg Bool.false_ne_true] at hle
        rw [key_eq, negative_roundRatio, if_neg Bool.false_ne_true]
        by_cases hneg : z.negative = true
        · rw [toRat, if_pos hneg] at hle
          have hz' := z.absRat_nonneg
          have hzero := magnitude_eq_zero_of_absRat (neg_nonneg.mp (hratio.trans hle))
          have hresult := roundRatio_le hden (hle.trans ((neg_nonpos.mpr hz').trans hz')) false
          rw [key_eq, if_pos hneg]
          omega
        · rw [toRat, if_neg hneg] at hle
          have hresult := roundRatio_le hden hle false
          rw [key_eq, if_neg hneg]
          omega
    | true =>
        rw [ratioValue, if_pos rfl] at hle
        rw [key_eq, negative_roundRatio, if_pos rfl]
        by_cases hneg : z.negative = true
        · rw [toRat, if_pos hneg] at hle
          have hresult := le_roundRatio hden hz (neg_le_neg_iff.mp hle) true
          rw [key_eq, if_pos hneg]
          omega
        · have := key_nonneg_of_not_negative (Bool.eq_false_iff.mpr hneg)
          omega
  ge := by
    intro z hz hle
    refine ⟨hz, isNaN_roundRatio neg num den exp, ?_⟩
    have hratio : (0 : ℚ) ≤ num / den * 2 ^ exp := by positivity
    cases neg with
    | false =>
        rw [ratioValue, if_neg Bool.false_ne_true] at hle
        rw [key_eq (roundRatio _ _ _ _), negative_roundRatio, if_neg Bool.false_ne_true]
        by_cases hneg : z.negative = true
        · have := key_nonpos_of_negative hneg
          omega
        · rw [toRat, if_neg hneg] at hle
          have hresult := le_roundRatio hden hz hle false
          rw [key_eq, if_neg hneg]
          omega
    | true =>
        rw [ratioValue, if_pos rfl] at hle
        rw [key_eq (roundRatio _ _ _ _), negative_roundRatio, if_pos rfl]
        by_cases hneg : z.negative = true
        · rw [toRat, if_pos hneg] at hle
          have hresult := roundRatio_le hden (neg_le_neg_iff.mp hle) true
          rw [key_eq, if_pos hneg]
          omega
        · rw [toRat, if_neg hneg] at hle
          have hz' := z.absRat_nonneg
          have hzero := magnitude_eq_zero_of_absRat (hle.trans (neg_nonpos.mpr hratio))
          have hresult := roundRatio_le hden ((le_neg_of_le_neg hle).trans ((neg_nonpos.mpr hz').trans hz')) true
          rw [key_eq, if_neg hneg]
          omega

theorem IsRounding.rounds {q : ℚ} {r : Binary64} (h : IsRounding q r) : Rounds q r := by
  obtain ⟨neg, num, den, exp, hden, rfl, hkey⟩ := h.ratio
  have hrounds := rounds_roundRatio neg num hden exp
  refine ⟨h.isNaN, fun z hz hle => ⟨h.isNaN, hz, ?_⟩, fun z hz hle => ⟨hz, h.isNaN, ?_⟩⟩
  · rw [hkey]
    exact (hrounds.le z hz hle).2.2
  · rw [hkey]
    exact (hrounds.ge z hz hle).2.2

theorem isRounding_roundRatio (neg : Bool) (num : Nat) {den : Nat} (hden : 0 < den) (exp : Int) :
    IsRounding (ratioValue neg num den exp) (roundRatio neg num den exp) :=
  ⟨isNaN_roundRatio neg num den exp, neg, num, den, exp, hden, rfl, rfl⟩

theorem isRounding_zero (neg : Bool) : IsRounding 0 (ofMagnitude neg 0) := by
  have hrounds := isRounding_roundRatio neg 0 Nat.one_pos 0
  rw [roundRatio, if_pos rfl] at hrounds
  have hvalue : ratioValue neg 0 1 0 = 0 := by
    rw [ratioValue]
    split <;> simp
  rwa [hvalue] at hrounds

theorem isRounding_ofInt (n : Int) : IsRounding n (ofInt n) := by
  have hrounds := isRounding_roundRatio (decide (n < 0)) n.natAbs Nat.one_pos 0
  have hvalue : ratioValue (decide (n < 0)) n.natAbs 1 0 = n := by
    rw [ratioValue, Nat.cast_one, div_one, zpow_zero, mul_one, Nat.cast_natAbs]
    by_cases hneg : n < 0
    · rw [if_pos (by simpa using hneg), abs_of_neg hneg]
      push_cast
      ring
    · rw [if_neg (by simpa using hneg), abs_of_nonneg (not_lt.mp hneg)]
  rwa [hvalue] at hrounds

theorem rounds_ofInt (n : Int) : Rounds n (ofInt n) :=
  (isRounding_ofInt n).rounds

theorem isInf_eq_false {x : Binary64} (hx : x.isFinite = true) : x.isInf = false := by
  simp only [isFinite, isInf, decide_eq_true_eq, decide_eq_false_iff_not] at *
  omega

theorem isRounding_add {x y : Binary64} (hx : x.isFinite = true) (hy : y.isFinite = true) :
    IsRounding (x.toRat + y.toRat) (x + y) := by
  have hsum : ((x.scaled (min x.unit y.unit) + y.scaled (min x.unit y.unit) : Int) : ℚ) * 2 ^ (min x.unit y.unit) =
      x.toRat + y.toRat := by
    rw [Int.cast_add, add_mul, scaled_eq (min_le_left _ _), scaled_eq (min_le_right _ _)]
  change IsRounding _ (add x y)
  simp only [add, isNaN_of_isFinite hx, isNaN_of_isFinite hy, isInf_eq_false hx, isInf_eq_false hy,
    Bool.false_eq_true, or_self, if_false]
  rw [← hsum]
  generalize x.scaled (min x.unit y.unit) + y.scaled (min x.unit y.unit) = sum
  generalize min x.unit y.unit = exp
  split
  · next hzero =>
      rw [hzero, Int.cast_zero, zero_mul]
      exact isRounding_zero _
  · have hrounds := isRounding_roundRatio (decide (sum < 0)) sum.natAbs Nat.one_pos exp
    have hvalue : ratioValue (decide (sum < 0)) sum.natAbs 1 exp = sum * 2 ^ exp := by
      rw [ratioValue, Nat.cast_one, div_one, Nat.cast_natAbs]
      by_cases hneg : sum < 0
      · rw [if_pos (by simpa using hneg), abs_of_neg hneg]
        push_cast
        ring
      · rw [if_neg (by simpa using hneg), abs_of_nonneg (not_lt.mp hneg)]
    rwa [hvalue] at hrounds

theorem rounds_add {x y : Binary64} (hx : x.isFinite = true) (hy : y.isFinite = true) :
    Rounds (x.toRat + y.toRat) (x + y) :=
  (isRounding_add hx hy).rounds

theorem toRat_neg (x : Binary64) : x.neg.toRat = -x.toRat := by
  have hnegative : x.neg.negative = !x.negative := negative_ofMagnitude x.magnitude_lt
  have habs : x.neg.absRat = x.absRat := le_antisymm (absRat_le_of_magnitude_le (magnitude_neg x).le)
    (absRat_le_of_magnitude_le (magnitude_neg x).ge)
  rw [toRat, toRat, habs, hnegative]
  cases x.negative <;> simp

theorem isFinite_neg (x : Binary64) : x.neg.isFinite = x.isFinite := by
  rw [isFinite, isFinite, magnitude_neg]

theorem isRounding_sub {x y : Binary64} (hx : x.isFinite = true) (hy : y.isFinite = true) :
    IsRounding (x.toRat - y.toRat) (x - y) := by
  rw [sub_eq_add_neg, ← toRat_neg]
  exact isRounding_add hx ((isFinite_neg y).trans hy)

theorem rounds_sub {x y : Binary64} (hx : x.isFinite = true) (hy : y.isFinite = true) :
    Rounds (x.toRat - y.toRat) (x - y) :=
  (isRounding_sub hx hy).rounds

theorem toRat_eq (x : Binary64) : x.toRat = ratioValue x.negative x.significand 1 x.unit := by
  rw [toRat, ratioValue, absRat, Nat.cast_one, div_one]

theorem isRounding_mul {x y : Binary64} (hx : x.isFinite = true) (hy : y.isFinite = true) :
    IsRounding (x.toRat * y.toRat) (x * y) := by
  have hvalue : x.toRat * y.toRat =
      ratioValue (xor x.negative y.negative) (x.significand * y.significand) 1 (x.unit + y.unit) := by
    rw [toRat, toRat, absRat, absRat, ratioValue, zpow_add₀ (by norm_num), Nat.cast_one, div_one, Nat.cast_mul]
    cases x.negative <;> cases y.negative <;> simp <;> ring
  change IsRounding _ (mul x y)
  simp only [mul, isNaN_of_isFinite hx, isNaN_of_isFinite hy, isInf_eq_false hx, isInf_eq_false hy,
    Bool.false_eq_true, or_self, if_false]
  rw [hvalue]
  exact isRounding_roundRatio _ _ Nat.one_pos _

theorem rounds_mul {x y : Binary64} (hx : x.isFinite = true) (hy : y.isFinite = true) :
    Rounds (x.toRat * y.toRat) (x * y) :=
  (isRounding_mul hx hy).rounds

theorem significand_pos {x : Binary64} (hx : x.magnitude ≠ 0) : 0 < x.significand := by
  rw [significand]
  split <;> omega

theorem isRounding_div {x y : Binary64} (hx : x.isFinite = true) (hy : y.isFinite = true) (hzero : y.magnitude ≠ 0) :
    IsRounding (x.toRat / y.toRat) (x / y) := by
  have hsignificand : (0 : ℚ) < y.significand := by exact_mod_cast significand_pos hzero
  have hvalue : x.toRat / y.toRat =
      ratioValue (xor x.negative y.negative) x.significand y.significand (x.unit - y.unit) := by
    rw [toRat, toRat, absRat, absRat, ratioValue, zpow_sub₀ (by norm_num)]
    cases x.negative <;> cases y.negative <;> simp <;> field_simp
  change IsRounding _ (div x y)
  simp only [div, isNaN_of_isFinite hx, isNaN_of_isFinite hy, isInf_eq_false hx, isInf_eq_false hy,
    Bool.false_eq_true, or_self, if_false, hzero]
  rw [hvalue]
  exact isRounding_roundRatio _ _ (significand_pos hzero) _

theorem rounds_div {x y : Binary64} (hx : x.isFinite = true) (hy : y.isFinite = true) (hzero : y.magnitude ≠ 0) :
    Rounds (x.toRat / y.toRat) (x / y) :=
  (isRounding_div hx hy hzero).rounds

/-! ### Consequences -/

/-- A result of which a finite double bounds the absolute value does not overflow. -/
theorem Rounds.isFinite {q : ℚ} {r z : Binary64} (h : Rounds q r) (hz : z.isFinite = true) (hle : |q| ≤ z.toRat) :
    r.isFinite = true := by
  have hnan := isNaN_of_isFinite hz
  obtain ⟨hlow, hhigh⟩ := abs_le.mp hle
  have hbelow := (h.le z hnan hhigh).2.2
  have habove := (h.ge z.neg (by rw [isNaN_neg, hnan]) (by rwa [toRat_neg])).2.2
  rw [key_neg] at habove
  simp only [Binary64.isFinite, decide_eq_true_eq] at hz ⊢
  simp only [key_eq] at hbelow habove
  split at hbelow <;> split at habove <;> omega

theorem toRat_lt_of_key_lt {x y : Binary64} (h : x.key < y.key) : x.toRat < y.toRat := by
  have hx := x.absRat_nonneg
  have hy := y.absRat_nonneg
  simp only [key_eq] at h
  rw [toRat, toRat]
  split at h <;> split at h
  · next hxneg hyneg =>
      rw [if_pos hxneg, if_pos hyneg]
      exact neg_lt_neg (absRat_lt_of_magnitude_lt (by omega))
  · next hxneg hyneg =>
      rw [if_pos hxneg, if_neg hyneg]
      by_cases hzero : x.magnitude = 0
      · rw [absRat_eq_zero_iff.mpr hzero, neg_zero]
        exact absRat_pos (by omega)
      · exact (neg_neg_of_pos (absRat_pos hzero)).trans_le hy
  · omega
  · next hxneg hyneg =>
      rw [if_neg hxneg, if_neg hyneg]
      exact absRat_lt_of_magnitude_lt (by omega)

theorem toRat_eq_of_key_eq {x y : Binary64} (h : x.key = y.key) : x.toRat = y.toRat := by
  simp only [key_eq] at h
  rw [toRat, toRat]
  by_cases hsame : x.negative = y.negative
  · rw [hsame] at h ⊢
    have hmagnitude : x.magnitude = y.magnitude := by
      split at h <;> omega
    rw [absRat_congr hmagnitude]
  · have hmagnitude : x.magnitude = 0 ∧ y.magnitude = 0 := by
      split at h <;> split at h <;> simp_all
    rw [absRat_eq_zero_iff.mpr hmagnitude.1, absRat_eq_zero_iff.mpr hmagnitude.2, neg_zero, ite_self, ite_self]

theorem toRat_mono {x y : Binary64} (h : x ≤ y) : x.toRat ≤ y.toRat := by
  rcases h.2.2.lt_or_eq with hlt | heq
  · exact (toRat_lt_of_key_lt hlt).le
  · exact (toRat_eq_of_key_eq heq).le

theorem toRat_lt {x y : Binary64} (h : x < y) : x.toRat < y.toRat := toRat_lt_of_key_lt h.2.2

/-- A number that a double stands for exactly is rounded to a double of the same value. -/
theorem Rounds.toRat_eq {q : ℚ} {r z : Binary64} (h : Rounds q r) (hz : z.isNaN = false) (hq : z.toRat = q) :
    r.toRat = q :=
  le_antisymm (hq ▸ toRat_mono (h.le z hz hq.ge)) (hq ▸ toRat_mono (h.ge z hz hq.le))

theorem le_of_lt {x y : Binary64} (h : x < y) : x ≤ y := ⟨h.1, h.2.1, h.2.2.le⟩

/-- A number that another of its kind can be added to without an overflow. -/
def Moderate (x : Binary64) : Prop := x.isFinite = true ∧ |x.toRat| ≤ 2 ^ 200

theorem exists_limit : ∃ limit : Binary64, limit.isFinite = true ∧ limit.toRat = 2 ^ 201 := by
  refine ⟨ofMagnitude false (1224 * 2 ^ 52), by decide, ?_⟩
  rw [toRat, show (ofMagnitude false (1224 * 2 ^ 52)).negative = false by decide, if_neg Bool.false_ne_true, absRat,
    show (ofMagnitude false (1224 * 2 ^ 52)).significand = 2 ^ 52 by decide,
    show (ofMagnitude false (1224 * 2 ^ 52)).unit = (149 : Nat) by decide, zpow_natCast]
  norm_num

theorem Moderate.isFinite_add {x y : Binary64} (hx : x.Moderate) (hy : y.Moderate) : (x + y).isFinite = true := by
  obtain ⟨limit, hfinite, hlimit⟩ := exists_limit
  apply (rounds_add hx.1 hy.1).isFinite hfinite
  rw [hlimit]
  calc |x.toRat + y.toRat| ≤ |x.toRat| + |y.toRat| := abs_add_le _ _
    _ ≤ 2 ^ 200 + 2 ^ 200 := add_le_add hx.2 hy.2
    _ = 2 ^ 201 := by ring

theorem isFinite_ofInt_of_le {n : Nat} (h : n ≤ 2 ^ 201) : (ofInt n).isFinite = true := by
  obtain ⟨limit, hfinite, hlimit⟩ := exists_limit
  apply (rounds_ofInt n).isFinite hfinite
  rw [hlimit, Int.cast_natCast, abs_of_nonneg (Nat.cast_nonneg n)]
  exact_mod_cast h

theorem moderate_hundred : (ofInt 100).Moderate := by
  refine ⟨by decide, ?_⟩
  rw [toRat, show (ofInt 100).negative = false by decide, if_neg Bool.false_ne_true, absRat,
    show (ofInt 100).significand = 25 * 2 ^ 48 by decide, show (ofInt 100).unit = -46 by decide]
  norm_num

theorem toRat_one : (ofInt 1).toRat = 1 := by
  rw [toRat, show (ofInt 1).negative = false by decide, if_neg Bool.false_ne_true, absRat,
    show (ofInt 1).significand = 2 ^ 52 by decide, show (ofInt 1).unit = -52 by decide]
  norm_num

/-! ### Differences and midpoints -/

/-- The smallest positive double. -/
def tiny : Binary64 := ofMagnitude false 1

theorem toRat_tiny : tiny.toRat = 2 ^ (-1074 : Int) := by
  rw [toRat, show tiny.negative = false by decide, if_neg Bool.false_ne_true, absRat,
    show tiny.significand = 1 by decide, show tiny.unit = -1074 by decide, Nat.cast_one, one_mul]

theorem le_unit (x : Binary64) : -1074 ≤ x.unit := by
  rw [unit_eq]
  omega

theorem zero_lt_sub {x y : Binary64} (hx : x.isFinite = true) (hy : y.isFinite = true) (h : y < x) :
    zero < x - y := by
  have hlt : (y.scaled (-1074) : ℚ) < x.scaled (-1074) := by
    have hvalues := toRat_lt h
    rw [← scaled_eq y.le_unit, ← scaled_eq x.le_unit] at hvalues
    exact lt_of_mul_lt_mul_right hvalues (by positivity)
  have hstep : y.scaled (-1074) + 1 ≤ x.scaled (-1074) := by exact_mod_cast hlt
  have hle : tiny ≤ x - y := by
    apply (rounds_sub hx hy).ge tiny (by decide)
    have hstep' : (1 : ℚ) ≤ x.scaled (-1074) - y.scaled (-1074) := by
      have hcast : ((y.scaled (-1074) + 1 : Int) : ℚ) ≤ x.scaled (-1074) := by exact_mod_cast hstep
      rw [Int.cast_add, Int.cast_one] at hcast
      linarith
    rw [toRat_tiny, ← scaled_eq y.le_unit, ← scaled_eq x.le_unit, ← sub_mul]
    exact le_mul_of_one_le_left (by positivity) hstep'
  have hkey : zero.key < tiny.key := by decide
  exact ⟨by decide, hle.2.1, hkey.trans_le hle.2.2⟩

/-- The infinity, whose value is where the finite doubles end. -/
def infinity : Binary64 := ofMagnitude false infMagnitude

theorem absRat_le_infinity {x : Binary64} (hx : x.isFinite = true) : x.absRat < infinity.absRat := by
  apply absRat_lt_of_magnitude_lt
  rw [infinity, magnitude_ofMagnitude (by decide)]
  simpa [isFinite] using hx

theorem exists_double {x : Binary64} (hx : x.magnitude + 2 ^ 52 ≤ infMagnitude) :
    ∃ z : Binary64, z.isNaN = false ∧ z.toRat = 2 * x.absRat := by
  have hinf : infMagnitude < 2 ^ 63 := by decide
  have hpositive : ∀ m < 2 ^ 63, (ofMagnitude false m).toRat = (ofMagnitude false m).absRat := by
    intro m hm
    rw [toRat, negative_ofMagnitude hm, if_neg Bool.false_ne_true]
  by_cases hnormal : 2 ^ 52 ≤ x.magnitude
  · refine ⟨ofMagnitude false (x.magnitude + 2 ^ 52), isNaN_ofMagnitude hx, ?_⟩
    rw [hpositive _ (by omega), absRat_half (y := x) _ hnormal]
    · ring
    · exact (magnitude_ofMagnitude (by omega)).symm
  · refine ⟨ofMagnitude false (2 * x.magnitude), isNaN_ofMagnitude (by omega), ?_⟩
    have hm : (ofMagnitude false (2 * x.magnitude)).magnitude = 2 * x.magnitude := magnitude_ofMagnitude (by omega)
    have hbinade : (ofMagnitude false (2 * x.magnitude)).binade = 0 := by
      rw [binade, hm]
      omega
    have hbinade' : x.binade = 0 := by
      rw [binade]
      omega
    have hsignificand := magnitude_eq (ofMagnitude false (2 * x.magnitude))
    have hsignificand' := magnitude_eq x
    rw [hm, hbinade] at hsignificand
    rw [hbinade'] at hsignificand'
    have hdouble : (ofMagnitude false (2 * x.magnitude)).significand = 2 * x.significand := by omega
    rw [hpositive _ (by omega), absRat_eq, absRat_eq, hbinade, hbinade', hdouble, Nat.cast_mul]
    ring

theorem infinity_le_two_mul {x : Binary64} (hx : ¬ x.magnitude + 2 ^ 52 ≤ infMagnitude) :
    infinity.absRat ≤ 2 * x.absRat := by
  have hinf : 2 ^ 52 + 2 ^ 52 ≤ infMagnitude ∧ infMagnitude < 2 ^ 63 := by decide
  have hlt : infMagnitude - 2 ^ 52 < 2 ^ 63 := by omega
  have hhalf : (ofMagnitude false (infMagnitude - 2 ^ 52)).absRat = infinity.absRat / 2 := by
    apply absRat_half
    · rw [infinity, magnitude_ofMagnitude hlt, magnitude_ofMagnitude hinf.2]
      omega
    · rw [magnitude_ofMagnitude hlt]
      omega
  have hle : (ofMagnitude false (infMagnitude - 2 ^ 52)).absRat ≤ x.absRat := by
    apply absRat_le_of_magnitude_le
    rw [magnitude_ofMagnitude hlt]
    omega
  rw [hhalf] at hle
  linarith

theorem toRat_of_not_negative {x : Binary64} (h : x.negative = false) : x.toRat = x.absRat := by
  rw [toRat, h, if_neg Bool.false_ne_true]

theorem toRat_two : (ofInt 2).toRat = 2 := by
  rw [toRat, show (ofInt 2).negative = false by decide, if_neg Bool.false_ne_true, absRat,
    show (ofInt 2).significand = 2 ^ 52 by decide, show (ofInt 2).unit = -51 by decide]
  norm_num

section Midpoint

variable {x y : Binary64} (hx : x.isFinite = true) (hy : y.isFinite = true) (hxpos : x.negative = false)
  (hypos : y.negative = false) (hle : x ≤ y) (hsum : (y + x).isFinite = true)
include hx hy hxpos hypos hle hsum

theorem sum_le_two_mul : (y + x).toRat ≤ 2 * y.absRat := by
  have hvalues := toRat_mono hle
  rw [toRat_of_not_negative hxpos, toRat_of_not_negative hypos] at hvalues
  have hrounds := rounds_add hy hx
  rw [toRat_of_not_negative hxpos, toRat_of_not_negative hypos] at hrounds
  by_cases hdouble : y.magnitude + 2 ^ 52 ≤ infMagnitude
  · obtain ⟨z, hz, hvalue⟩ := exists_double hdouble
    rw [← hvalue]
    exact toRat_mono (hrounds.le z hz (by linarith))
  · have hfinite := absRat_le_infinity hsum
    have hlarge := infinity_le_two_mul hdouble
    have hnonneg := (y + x).absRat_nonneg
    rw [toRat]
    split <;> linarith

theorem two_mul_le_sum : 2 * x.absRat ≤ (y + x).toRat := by
  have hvalues := toRat_mono hle
  rw [toRat_of_not_negative hxpos, toRat_of_not_negative hypos] at hvalues
  have hrounds := rounds_add hy hx
  rw [toRat_of_not_negative hxpos, toRat_of_not_negative hypos] at hrounds
  by_cases hdouble : x.magnitude + 2 ^ 52 ≤ infMagnitude
  · obtain ⟨z, hz, hvalue⟩ := exists_double hdouble
    rw [← hvalue]
    exact toRat_mono (hrounds.ge z hz (by linarith))
  · -- the sum would overflow
    exfalso
    have hlarge := infinity_le_two_mul hdouble
    have hinfinity : infinity.toRat = infinity.absRat := toRat_of_not_negative (by decide)
    have hreach := toRat_mono (hrounds.ge infinity (by decide) (by linarith))
    have hfinite := absRat_le_infinity hsum
    have hnonneg := (y + x).absRat_nonneg
    rw [hinfinity, toRat] at hreach
    split at hreach <;> linarith

/-- The computed midpoint of two doubles lies between them, unless their sum overflows. -/
theorem midpoint_mem : x ≤ (y + x) / ofInt 2 ∧ (y + x) / ofInt 2 ≤ y := by
  have hrounds := rounds_div hsum (show (ofInt 2).isFinite = true by decide) (by decide)
  have hlow := two_mul_le_sum hx hy hxpos hypos hle hsum
  have hhigh := sum_le_two_mul hx hy hxpos hypos hle hsum
  rw [toRat_two] at hrounds
  refine ⟨hrounds.ge x hle.1 ?_, hrounds.le y hle.2.1 ?_⟩
  · rw [toRat_of_not_negative hxpos]
    linarith
  · rw [toRat_of_not_negative hypos]
    linarith

end Midpoint

/-! ### Rounding to decimals -/

/-- The multiple of `10 ^ -digits` that `roundDecimal` takes, with the sign left out. -/
def decimalMultiple (x : Binary64) (digits : Nat) : Nat :=
  nearest (x.significand * 10 ^ digits * 2 ^ x.unit.toNat) (2 ^ (-x.unit).toNat)

theorem rounds_roundDecimal {x : Binary64} (hx : x.isFinite = true) (digits : Nat) :
    Rounds (ratioValue x.negative (x.decimalMultiple digits) (10 ^ digits) 0) (x.roundDecimal digits) := by
  have hround : x.roundDecimal digits = roundRatio x.negative (x.decimalMultiple digits) (10 ^ digits) 0 := by
    rw [roundDecimal, if_pos hx]
    rfl
  rw [hround]
  exact rounds_roundRatio _ _ (Nat.pow_pos (by decide)) 0

theorem mul_pow_le_iff (x : Binary64) (digits k : Nat) :
    k * 2 ^ (-x.unit).toNat ≤ x.significand * 10 ^ digits * 2 ^ x.unit.toNat ↔ (k : ℚ) / 10 ^ digits ≤ x.absRat := by
  have hscale := @mul_le_iff (x.significand * 10 ^ digits) 1 Nat.one_pos x.unit 0 k
  rw [sub_zero, zero_sub, Nat.one_mul, zpow_zero, mul_one, Nat.cast_one, div_one, Nat.cast_mul, Nat.cast_pow,
    Nat.cast_ofNat] at hscale
  rw [hscale, absRat, div_le_iff₀ (by positivity), mul_right_comm]

theorem le_mul_pow_iff (x : Binary64) (digits k : Nat) :
    x.significand * 10 ^ digits * 2 ^ x.unit.toNat ≤ k * 2 ^ (-x.unit).toNat ↔ x.absRat ≤ (k : ℚ) / 10 ^ digits := by
  have hscale := @le_mul_iff (x.significand * 10 ^ digits) 1 Nat.one_pos x.unit 0 k
  rw [sub_zero, zero_sub, Nat.one_mul, zpow_zero, mul_one, Nat.cast_one, div_one, Nat.cast_mul, Nat.cast_pow,
    Nat.cast_ofNat] at hscale
  rw [hscale, absRat, le_div_iff₀ (by positivity), mul_right_comm]

/-- Rounding to decimals does not cross a multiple of the decimal unit. -/
theorem le_decimalMultiple {x : Binary64} {digits k : Nat} (h : (k : ℚ) / 10 ^ digits ≤ x.absRat) :
    k ≤ x.decimalMultiple digits :=
  le_nearest (Nat.two_pow_pos _) ((mul_pow_le_iff x digits k).mpr h)

theorem decimalMultiple_le {x : Binary64} {digits k : Nat} (h : x.absRat ≤ (k : ℚ) / 10 ^ digits) :
    x.decimalMultiple digits ≤ k :=
  nearest_le (Nat.two_pow_pos _) ((le_mul_pow_iff x digits k).mpr h)

/-- From `2 ^ 53` on a double is an integer, and rounding leaves it alone. -/
theorem decimalMultiple_of_unit_nonneg {x : Binary64} (hunit : 0 ≤ x.unit) (digits : Nat) :
    (x.decimalMultiple digits : ℚ) / 10 ^ digits = x.absRat := by
  have hone : (-x.unit).toNat = 0 := by omega
  have hmultiple : x.decimalMultiple digits = x.significand * 10 ^ digits * 2 ^ x.unit.toNat := by
    rw [decimalMultiple, hone, pow_zero, nearest, Nat.div_one, Nat.mod_one, if_neg (by omega), Nat.add_zero]
  rw [hmultiple, absRat, ← Int.toNat_of_nonneg hunit, zpow_natCast, Int.toNat_natCast]
  push_cast
  field_simp

theorem isFinite_roundDecimal {x : Binary64} (hx : x.isFinite = true) (digits : Nat) :
    (x.roundDecimal digits).isFinite = true := by
  have hrounds := rounds_roundDecimal hx digits
  have habs : |ratioValue x.negative (x.decimalMultiple digits) (10 ^ digits) 0| =
      (x.decimalMultiple digits : ℚ) / 10 ^ digits := by
    have hpos : (0 : ℚ) ≤ (x.decimalMultiple digits : ℚ) / 10 ^ digits := by positivity
    rw [ratioValue, zpow_zero, mul_one, Nat.cast_pow, Nat.cast_ofNat]
    split
    · rw [abs_neg, abs_of_nonneg hpos]
    · exact abs_of_nonneg hpos
  have hpositive : ∀ m < 2 ^ 63, (ofMagnitude false m).toRat = (ofMagnitude false m).absRat := by
    intro m hm
    rw [toRat, negative_ofMagnitude hm, if_neg Bool.false_ne_true]
  rcases le_or_gt 0 x.unit with hunit | hunit
  · apply hrounds.isFinite (z := ofMagnitude false x.magnitude)
    · rw [isFinite, magnitude_ofMagnitude x.magnitude_lt]
      exact hx
    · rw [habs, decimalMultiple_of_unit_nonneg hunit, hpositive _ x.magnitude_lt]
      exact absRat_le_of_magnitude_le (magnitude_ofMagnitude x.magnitude_lt).ge
  · -- below `2 ^ 53` the result is at most `2 ^ 53`
    apply hrounds.isFinite (z := ofMagnitude false (1076 * 2 ^ 52)) (by decide)
    have hbound : (ofMagnitude false (1076 * 2 ^ 52)).absRat = 2 ^ 53 := by
      rw [absRat, show (ofMagnitude false (1076 * 2 ^ 52)).significand = 2 ^ 52 by decide,
        show (ofMagnitude false (1076 * 2 ^ 52)).unit = 1 by decide]
      norm_num
    have hx' : x.absRat ≤ ((2 ^ 53 * 10 ^ digits : Nat) : ℚ) / 10 ^ digits := by
      rw [Nat.cast_mul, Nat.cast_pow, Nat.cast_pow, Nat.cast_ofNat, Nat.cast_ofNat, mul_div_assoc,
        div_self (by positivity), mul_one, absRat]
      have hsignificand : (x.significand : ℚ) ≤ 2 ^ 53 := by exact_mod_cast x.significand_lt.le
      calc (x.significand : ℚ) * 2 ^ x.unit ≤ x.significand * 1 := by
            gcongr
            exact zpow_le_one_of_nonpos₀ (by norm_num) hunit.le
        _ ≤ 2 ^ 53 := by rwa [mul_one]
    rw [habs, hpositive _ (by decide), hbound, div_le_iff₀ (by positivity)]
    exact_mod_cast decimalMultiple_le hx'

theorem le_roundDecimal {x y : Binary64} (hx : x.isFinite = true) (hy : y.isNaN = false) {k : Nat}
    (hyk : y.toRat ≤ k) (hk : 0 < k) (hkx : (k : ℚ) ≤ x.toRat) (digits : Nat) : y ≤ x.roundDecimal digits := by
  have hk' : (0 : ℚ) < k := by exact_mod_cast hk
  have hneg : ¬ x.negative = true := by
    intro hneg
    have hnonneg := x.absRat_nonneg
    rw [toRat, if_pos hneg] at hkx
    linarith
  apply (rounds_roundDecimal hx digits).ge y hy
  rw [ratioValue, if_neg hneg, zpow_zero, mul_one]
  rw [toRat, if_neg hneg] at hkx
  have hmultiple : k * 10 ^ digits ≤ x.decimalMultiple digits := by
    apply le_decimalMultiple
    push_cast
    rwa [mul_div_assoc, div_self (by positivity), mul_one]
  refine hyk.trans ?_
  rw [le_div_iff₀ (by positivity)]
  exact_mod_cast hmultiple

/-! ### Natural numbers -/

theorem toRat_ofInt_nonneg (n : Nat) : (ofInt n).toRat = (ofInt n).absRat := by
  have hnegative : (ofInt n).negative = false := by
    rw [ofInt, negative_roundRatio, decide_eq_false_iff_not]
    omega
  rw [toRat, hnegative, if_neg Bool.false_ne_true]

theorem magnitude_ofInt {n : Nat} (hn : n ≠ 0) :
    (ofInt n).magnitude = min (roundedMagnitude n 1 0) infMagnitude := by
  have habs : (n : Int).natAbs = n := Int.natAbs_natCast n
  rw [ofInt, habs, magnitude_roundRatio hn]

theorem toRat_zero : zero.toRat = 0 := by
  rw [toRat, show zero.negative = false by decide, if_neg Bool.false_ne_true, absRat,
    show zero.significand = 0 by decide, Nat.cast_zero, zero_mul]

theorem toRat_ofInt {n : Nat} (hn : n < 2 ^ 53) : (ofInt n).toRat = n := by
  by_cases hzero : n = 0
  · rw [hzero]
    exact toRat_zero
  have hlog : Nat.log2 n < 53 := (Nat.log2_lt hzero).mpr hn
  obtain ⟨shift, hshift⟩ : ∃ shift, Nat.log2 n + shift = 52 := ⟨52 - Nat.log2 n, by omega⟩
  have hlow : 2 ^ 52 ≤ n * 2 ^ shift := by
    calc 2 ^ 52 = 2 ^ Nat.log2 n * 2 ^ shift := by rw [← pow_add, hshift]
      _ ≤ n * 2 ^ shift := Nat.mul_le_mul_right _ (Nat.log2_self_le hzero)
  have hhigh : n * 2 ^ shift < 2 ^ 53 := by
    calc n * 2 ^ shift < 2 ^ (Nat.log2 n + 1) * 2 ^ shift :=
          Nat.mul_lt_mul_of_pos_right Nat.lt_log2_self (Nat.two_pow_pos _)
      _ = 2 ^ 53 := by rw [← pow_add, show Nat.log2 n + 1 + shift = 53 by omega]
  have hulp : ulpExponent n 1 0 = -(shift : Int) := by
    rw [ulpExponent, leadingExponent_one hzero]
    omega
  have hmagnitude : (ofInt n).magnitude = (1074 - shift) * 2 ^ 52 + n * 2 ^ shift := by
    have hinf : infMagnitude = 2047 * 2 ^ 52 := by decide
    rw [magnitude_ofInt hzero, roundedMagnitude, hulp, nearest, show (0 - -(shift : Int)).toNat = shift by omega,
      show (-(shift : Int) - 0).toNat = 0 by omega, pow_zero, Nat.mul_one, Nat.div_one, Nat.mod_one, if_neg (by omega),
      show (-(shift : Int) + 1074).toNat = 1074 - shift by omega]
    omega
  have hbinade : (ofInt n).binade = 1074 - shift := by
    rw [binade, hmagnitude]
    omega
  have hsignificand : (ofInt n).significand = n * 2 ^ shift := by
    have hparts := magnitude_eq (ofInt n)
    rw [hmagnitude, hbinade] at hparts
    omega
  have hunit : ((1074 - shift : Nat) : Int) - 1074 = -(shift : Int) := by omega
  rw [toRat_ofInt_nonneg, absRat_eq, hsignificand, hbinade, hunit, zpow_neg, zpow_natCast, Nat.cast_mul, Nat.cast_pow,
    Nat.cast_ofNat, mul_assoc, mul_inv_cancel₀ (by positivity), mul_one]

/-- `0.5` -/
def half : Binary64 := ofMagnitude false (1022 * 2 ^ 52)

end Binary64
