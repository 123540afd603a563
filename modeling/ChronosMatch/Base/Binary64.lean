import Mathlib.Algebra.BigOperators.Group.List.Basic
import Mathlib.Data.Int.Order.Basic
import Mathlib.Order.Lattice
import Mathlib.Tactic.Common

/-!
# The binary64 number format

A `double` as its 64 bits. Comparisons follow IEEE 754: nothing compares with a NaN, and the two
zeros are equal. Every arithmetic operation is its exact result rounded once, to nearest with ties to
even, so they all go through `roundRatio`, which rounds a positive ratio times a power of two.
-/

structure Binary64 where
  bits : BitVec 64
deriving DecidableEq

namespace Binary64

/-! ### Fields -/

/-- The magnitude of the infinities; everything above it is a NaN. -/
def infMagnitude : Nat := 0x7FF0000000000000

def negative (x : Binary64) : Bool := decide (2 ^ 63 ≤ x.bits.toNat)

def magnitude (x : Binary64) : Nat := x.bits.toNat % 2 ^ 63

def isNaN (x : Binary64) : Bool := decide (infMagnitude < x.magnitude)

def isInf (x : Binary64) : Bool := decide (x.magnitude = infMagnitude)

def isFinite (x : Binary64) : Bool := decide (x.magnitude < infMagnitude)

def significand (x : Binary64) : Nat :=
  if x.magnitude / 2 ^ 52 = 0 then x.magnitude else 2 ^ 52 + x.magnitude % 2 ^ 52

/-- The power of two that one unit of the significand stands for. -/
def unit (x : Binary64) : Int := max (x.magnitude / 2 ^ 52 : Nat) 1 - 1075

def ofMagnitude (neg : Bool) (magnitude : Nat) : Binary64 :=
  ⟨BitVec.ofNat 64 (if neg then 2 ^ 63 + magnitude else magnitude)⟩

def zero : Binary64 := ofMagnitude false 0

def nan : Binary64 := ofMagnitude false 0x7FF8000000000000

def neg (x : Binary64) : Binary64 := ofMagnitude (!x.negative) x.magnitude

/-! ### Comparison -/

/-- Where a number stands in the order; both zeros stand at `0`. -/
def key (x : Binary64) : Int := if x.negative then -(x.magnitude : Int) else x.magnitude

instance : LT Binary64 := ⟨fun x y => x.isNaN = false ∧ y.isNaN = false ∧ x.key < y.key⟩

instance : LE Binary64 := ⟨fun x y => x.isNaN = false ∧ y.isNaN = false ∧ x.key ≤ y.key⟩

/-- The comparison `==`, which differs from equality of bits on NaNs and on the zeros. -/
def SameValue (x y : Binary64) : Prop := x.isNaN = false ∧ y.isNaN = false ∧ x.key = y.key

instance (x y : Binary64) : Decidable (x < y) :=
  inferInstanceAs (Decidable (_ ∧ _ ∧ _))

instance (x y : Binary64) : Decidable (x ≤ y) :=
  inferInstanceAs (Decidable (_ ∧ _ ∧ _))

instance (x y : Binary64) : Decidable (SameValue x y) :=
  inferInstanceAs (Decidable (_ ∧ _ ∧ _))

theorem lt_def (x y : Binary64) : x < y ↔ x.isNaN = false ∧ y.isNaN = false ∧ x.key < y.key := Iff.rfl

theorem le_def (x y : Binary64) : x ≤ y ↔ x.isNaN = false ∧ y.isNaN = false ∧ x.key ≤ y.key := Iff.rfl

theorem sameValue_def (x y : Binary64) :
    SameValue x y ↔ x.isNaN = false ∧ y.isNaN = false ∧ x.key = y.key := Iff.rfl

theorem not_le_of_lt {x y : Binary64} (h : x < y) : ¬ y ≤ x := by
  have hkeys := h.2.2
  rw [le_def]
  omega

theorem isNaN_of_isFinite {x : Binary64} (hfinite : x.isFinite = true) : x.isNaN = false := by
  simp only [isFinite, isNaN, decide_eq_true_eq, decide_eq_false_iff_not] at *
  omega

theorem magnitude_lt (x : Binary64) : x.magnitude < 2 ^ 63 := Nat.mod_lt _ (by decide)

theorem toNat_ofMagnitude {neg : Bool} {m : Nat} (hm : m < 2 ^ 63) :
    (ofMagnitude neg m).bits.toNat = if neg then 2 ^ 63 + m else m := by
  rw [ofMagnitude, BitVec.toNat_ofNat, Nat.mod_eq_of_lt]
  split <;> omega

theorem magnitude_ofMagnitude {neg : Bool} {m : Nat} (hm : m < 2 ^ 63) :
    (ofMagnitude neg m).magnitude = m := by
  rw [magnitude, toNat_ofMagnitude hm]
  split <;> omega

theorem negative_ofMagnitude {neg : Bool} {m : Nat} (hm : m < 2 ^ 63) :
    (ofMagnitude neg m).negative = neg := by
  rw [negative, toNat_ofMagnitude hm]
  cases neg
  · simpa using hm
  · simp

theorem isNaN_ofMagnitude {neg : Bool} {m : Nat} (hm : m ≤ infMagnitude) :
    (ofMagnitude neg m).isNaN = false := by
  have hlt : m < 2 ^ 63 := lt_of_le_of_lt hm (by decide)
  simp only [isNaN, magnitude_ofMagnitude hlt, decide_eq_false_iff_not]
  omega

theorem magnitude_neg (x : Binary64) : x.neg.magnitude = x.magnitude :=
  magnitude_ofMagnitude x.magnitude_lt

theorem key_neg (x : Binary64) : x.neg.key = -x.key := by
  have hneg : x.neg.negative = !x.negative := negative_ofMagnitude x.magnitude_lt
  simp only [key, magnitude_neg, hneg]
  cases x.negative <;> simp

theorem isNaN_neg (x : Binary64) : x.neg.isNaN = x.isNaN := by
  simp only [isNaN, magnitude_neg]

/-! ### Rounding -/

/-- The double nearest to `num / den * 2 ^ exp`, ties to even, with the given sign. -/
def roundRatio (neg : Bool) (num den : Nat) (exp : Int) : Binary64 :=
  if num = 0 then ofMagnitude neg 0
  else
    -- `2 ^ top ≤ num / den < 2 ^ (top + 1)`
    let lead : Int := (Nat.log2 num : Int) - Nat.log2 den
    let top := if den * 2 ^ lead.toNat ≤ num * 2 ^ (-lead).toNat then lead else lead - 1
    let ulp := max (exp + top - 52) (-1074)
    let n := num * 2 ^ (exp - ulp).toNat
    let d := den * 2 ^ (ulp - exp).toNat
    let up := d < 2 * (n % d) ∨ (d = 2 * (n % d) ∧ n / d % 2 = 1)
    let m := n / d + if up then 1 else 0
    -- a significand that rounds up to `2 ^ 53` carries into the exponent field
    ofMagnitude neg (min ((ulp + 1074).toNat * 2 ^ 52 + m) infMagnitude)

theorem isNaN_roundRatio (neg : Bool) (num den : Nat) (exp : Int) :
    (roundRatio neg num den exp).isNaN = false := by
  unfold roundRatio
  split
  · exact isNaN_ofMagnitude (Nat.zero_le _)
  · exact isNaN_ofMagnitude (Nat.min_le_right _ _)

/-! ### Arithmetic -/

/-- An integer converted to the nearest double. -/
def ofInt (n : Int) : Binary64 := roundRatio (decide (n < 0)) n.natAbs 1 0

def mul (x y : Binary64) : Binary64 :=
  let sign := xor x.negative y.negative
  if x.isNaN ∨ y.isNaN then nan
  else if x.isInf ∨ y.isInf then
    if x.magnitude = 0 ∨ y.magnitude = 0 then nan else ofMagnitude sign infMagnitude
  else roundRatio sign (x.significand * y.significand) 1 (x.unit + y.unit)

def div (x y : Binary64) : Binary64 :=
  let sign := xor x.negative y.negative
  if x.isNaN ∨ y.isNaN then nan
  else if x.isInf then if y.isInf then nan else ofMagnitude sign infMagnitude
  else if y.isInf then ofMagnitude sign 0
  else if y.magnitude = 0 then
    if x.magnitude = 0 then nan else ofMagnitude sign infMagnitude
  else roundRatio sign x.significand y.significand (x.unit - y.unit)

/-- The significand with its sign, counted in units of `2 ^ exp` for an `exp` not above `unit`. -/
def scaled (x : Binary64) (exp : Int) : Int :=
  let m : Int := x.significand * 2 ^ (x.unit - exp).toNat
  if x.negative then -m else m

def add (x y : Binary64) : Binary64 :=
  if x.isNaN ∨ y.isNaN then nan
  else if x.isInf then if y.isInf ∧ x.negative ≠ y.negative then nan else x
  else if y.isInf then y
  else
    let exp := min x.unit y.unit
    let sum := x.scaled exp + y.scaled exp
    if sum = 0 then ofMagnitude (x.negative && y.negative) 0
    else roundRatio (decide (sum < 0)) sum.natAbs 1 exp

def sub (x y : Binary64) : Binary64 := add x y.neg

instance : Add Binary64 := ⟨add⟩

instance : Sub Binary64 := ⟨sub⟩

instance : Mul Binary64 := ⟨mul⟩

instance : Div Binary64 := ⟨div⟩

instance : IntCast Binary64 := ⟨ofInt⟩

/-- A finite double with its fraction cut off, as `int(x)` does. -/
def truncate (x : Binary64) : Int :=
  let m : Nat := x.significand * 2 ^ x.unit.toNat / 2 ^ (-x.unit).toNat
  if x.negative then -(m : Int) else m

/-- A double rounded to the nearest multiple of `10 ^ -digits`, ties to even. -/
def roundDecimal (x : Binary64) (digits : Nat) : Binary64 :=
  if x.isFinite then
    let n := x.significand * 10 ^ digits * 2 ^ x.unit.toNat
    let d := 2 ^ (-x.unit).toNat
    let up := d < 2 * (n % d) ∨ (d = 2 * (n % d) ∧ n / d % 2 = 1)
    roundRatio x.negative (n / d + if up then 1 else 0) (10 ^ digits) 0
  else x

theorem isNaN_roundDecimal {x : Binary64} (hx : x.isNaN = false) (digits : Nat) :
    (x.roundDecimal digits).isNaN = false := by
  rw [roundDecimal]
  split
  · exact isNaN_roundRatio _ _ _ _
  · exact hx

theorem magnitude_ofInt_ne_zero {n : Int} (hn : n ≠ 0) : (ofInt n).magnitude ≠ 0 := by
  have hmin : ∀ field m : Nat, 1 ≤ field → min (field * 2 ^ 52 + m) infMagnitude ≠ 0 := by
    intro field m hfield
    have := Nat.mul_le_mul_right (2 ^ 52) hfield
    rw [Nat.min_def]
    split
    · omega
    · decide
  have hlog : Nat.log2 1 = 0 := by decide
  simp only [ofInt, roundRatio, if_neg (Int.natAbs_ne_zero.mpr hn), hlog]
  rw [magnitude_ofMagnitude (lt_of_le_of_lt (Nat.min_le_right _ _) (by decide))]
  apply hmin _ _
  split <;> omega

/-- An integer of fewer than 64 bits is not rounded to an infinity. -/
theorem isFinite_ofInt {n : Int} (hn : n.natAbs < 2 ^ 63) : (ofInt n).isFinite = true := by
  by_cases hzero : n.natAbs = 0
  · rw [ofInt, roundRatio, if_pos hzero, isFinite, magnitude_ofMagnitude (by decide)]
    decide
  have hlow : 2 ^ Nat.log2 n.natAbs ≤ n.natAbs := Nat.log2_self_le hzero
  have hhigh : n.natAbs < 2 ^ (Nat.log2 n.natAbs + 1) := Nat.lt_log2_self
  have hlog : Nat.log2 n.natAbs < 63 := (Nat.log2_lt hzero).mpr hn
  have hone : Nat.log2 1 = 0 := by decide
  simp only [ofInt, roundRatio, if_neg hzero, hone]
  generalize Nat.log2 n.natAbs = lead at *
  generalize n.natAbs = num at *
  have htop : (if 1 * 2 ^ ((lead : Int) - (0 : Nat)).toNat ≤ num * 2 ^ (-((lead : Int) - (0 : Nat))).toNat
      then (lead : Int) - (0 : Nat) else (lead : Int) - (0 : Nat) - 1) = lead := by
    rw [show ((lead : Int) - (0 : Nat)).toNat = lead by omega, show (-((lead : Int) - (0 : Nat))).toNat = 0 by omega,
      Nat.one_mul, pow_zero, Nat.mul_one, if_pos hlow]
    omega
  rw [htop, show max (0 + (lead : Int) - 52) (-1074) = lead - 52 by omega]
  -- the significand before rounding has at most 53 bits
  have hquotient : num * 2 ^ (0 - ((lead : Int) - 52)).toNat / (1 * 2 ^ ((lead : Int) - 52 - 0).toNat) < 2 ^ 53 := by
    rw [Nat.one_mul, Nat.div_lt_iff_lt_mul (Nat.two_pow_pos _)]
    by_cases hle : lead ≤ 52
    · rw [show (0 - ((lead : Int) - 52)).toNat = 52 - lead by omega, show ((lead : Int) - 52 - 0).toNat = 0 by omega,
        pow_zero, Nat.mul_one]
      calc num * 2 ^ (52 - lead) < 2 ^ (lead + 1) * 2 ^ (52 - lead) :=
            Nat.mul_lt_mul_of_pos_right hhigh (Nat.two_pow_pos _)
        _ = 2 ^ 53 := by rw [← Nat.pow_add]; congr 1; omega
    · rw [show (0 - ((lead : Int) - 52)).toNat = 0 by omega, show ((lead : Int) - 52 - 0).toNat = lead - 52 by omega,
        pow_zero, Nat.mul_one, ← Nat.pow_add]
      calc num < 2 ^ (lead + 1) := hhigh
        _ = 2 ^ (53 + (lead - 52)) := by congr 1; omega
  generalize num * 2 ^ (0 - ((lead : Int) - 52)).toNat / (1 * 2 ^ ((lead : Int) - 52 - 0).toNat) = q at hquotient ⊢
  have hfield : ((lead : Int) - 52 + 1074).toNat ≤ 1084 := by omega
  have hbound : ∀ carry : Nat, carry ≤ 1 →
      min (((lead : Int) - 52 + 1074).toNat * 2 ^ 52 + (q + carry)) infMagnitude < infMagnitude := by
    intro carry hcarry
    have := Nat.mul_le_mul_right (2 ^ 52) hfield
    apply lt_of_le_of_lt (Nat.min_le_left _ _)
    rw [infMagnitude]
    omega
  rw [isFinite, magnitude_ofMagnitude (lt_of_le_of_lt (Nat.min_le_right _ _) (by decide)), decide_eq_true_eq]
  apply hbound _
  split <;> omega

theorem isNaN_mul_of_ne_zero {x y : Binary64} (hx : x.isNaN = false) (hy : y.isNaN = false)
    (hxzero : x.magnitude ≠ 0) (hyzero : y.magnitude ≠ 0) : (mul x y).isNaN = false := by
  simp only [mul, hx, hy, Bool.false_eq_true, or_self, if_false, hxzero, hyzero]
  split
  · exact isNaN_ofMagnitude le_rfl
  · exact isNaN_roundRatio _ _ _ _

theorem isNaN_ofInt (n : Int) : (ofInt n).isNaN = false := isNaN_roundRatio _ _ _ _

/-- The product of two finite doubles may overflow to an infinity but is never a NaN. -/
theorem isNaN_mul {x y : Binary64} (hx : x.isFinite = true) (hy : y.isFinite = true) :
    (mul x y).isNaN = false := by
  have hxi : x.isInf = false := by
    simp only [isFinite, isInf, decide_eq_true_eq, decide_eq_false_iff_not] at *
    omega
  have hyi : y.isInf = false := by
    simp only [isFinite, isInf, decide_eq_true_eq, decide_eq_false_iff_not] at *
    omega
  simp only [mul, isNaN_of_isFinite hx, isNaN_of_isFinite hy, hxi, hyi, Bool.false_eq_true, or_self,
    if_false]
  exact isNaN_roundRatio _ _ _ _

end Binary64
