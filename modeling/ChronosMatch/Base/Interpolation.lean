import Mathlib.Algebra.Order.Archimedean.Basic
import Mathlib.Algebra.Order.Field.Basic
import Mathlib.Algebra.Order.Floor.Semiring
import Mathlib.Data.List.GetD
import Mathlib.Data.List.Pairwise
import Mathlib.Tactic.Linarith
import Mathlib.Tactic.Ring

/-!
# Linear interpolation along a list

The elements of a list stand at the ranks 0, 1, 2 and so on, and between two ranks the value goes from one
element to the next in a straight line; behind the last element it stays. Along a sorted list the value never
falls, so it lies between the elements around it.
-/

namespace Interpolation

variable {K : Type*} [Field K]

/-- The element at a rank, the last one at every rank behind it. -/
def entry (l : List K) (i : ℕ) : K := l.getD (min i (l.length - 1)) 0

def interpolate [LinearOrder K] [FloorSemiring K] (l : List K) (rank : K) : K :=
  entry l ⌊rank⌋₊ * (1 - (rank - ⌊rank⌋₊)) + entry l (⌊rank⌋₊ + 1) * (rank - ⌊rank⌋₊)

theorem entry_zero (l : List K) : entry l 0 = l.headD 0 := by
  cases l with
  | nil => rfl
  | cons a l => simp [entry]

theorem entry_last (l : List K) : entry l (l.length - 1) = l.getLastD 0 := by
  rw [entry, min_self, List.getLastD_eq_getLast?, List.getLast?_eq_getElem?, List.getD_eq_getElem?_getD]

variable [LinearOrder K]

theorem entry_mono {l : List K} (hsorted : l.Pairwise (· ≤ ·)) : Monotone (entry l) := by
  intro i j hij
  rcases eq_or_ne l [] with rfl | hne
  · exact le_rfl
  have hpos := List.length_pos_iff.mpr hne
  have hj : min j (l.length - 1) < l.length := by omega
  have hi : min i (l.length - 1) ≤ min j (l.length - 1) := by omega
  rw [entry, entry, List.getD_eq_getElem _ _ (hi.trans_lt hj), List.getD_eq_getElem _ _ hj]
  exact hsorted.rel_get_of_le (a := ⟨_, hi.trans_lt hj⟩) (b := ⟨_, hj⟩) hi

theorem entry_le_last {l : List K} (hsorted : l.Pairwise (· ≤ ·)) (i : ℕ) : entry l i ≤ entry l (l.length - 1) := by
  have hcapped : entry l i = entry l (min i (l.length - 1)) := by
    rw [entry, entry, min_assoc, min_self]
  rw [hcapped]
  exact entry_mono hsorted (min_le_right _ _)

variable [IsStrictOrderedRing K]

section Segment

variable {a b s t : K}

theorem le_segment (hab : a ≤ b) (ht : 0 ≤ t) : a ≤ a * (1 - t) + b * t := by
  have := mul_le_mul_of_nonneg_right hab ht
  linarith

theorem segment_le (hab : a ≤ b) (ht : t ≤ 1) : a * (1 - t) + b * t ≤ b := by
  have := mul_le_mul_of_nonneg_right hab (sub_nonneg.mpr ht)
  linarith

theorem segment_mono (hab : a ≤ b) (hst : s ≤ t) : a * (1 - s) + b * s ≤ a * (1 - t) + b * t := by
  have := mul_le_mul_of_nonneg_right hab (sub_nonneg.mpr hst)
  linarith

end Segment

variable [FloorSemiring K] {l : List K}

theorem entry_le_interpolate (hsorted : l.Pairwise (· ≤ ·)) {rank : K} (hrank : 0 ≤ rank) :
    entry l ⌊rank⌋₊ ≤ interpolate l rank := by
  apply le_segment (entry_mono hsorted (Nat.le_succ _))
  exact sub_nonneg.mpr (Nat.floor_le hrank)

theorem interpolate_le_entry (hsorted : l.Pairwise (· ≤ ·)) (rank : K) :
    interpolate l rank ≤ entry l (⌊rank⌋₊ + 1) := by
  apply segment_le (entry_mono hsorted (Nat.le_succ _))
  have := (Nat.lt_floor_add_one rank).le
  linarith

/-- The value never falls: within one segment it rises with the rank, and later segments start where an earlier one
ends or above. -/
theorem interpolate_mono (hsorted : l.Pairwise (· ≤ ·)) {rank rank' : K} (hrank : 0 ≤ rank) (hle : rank ≤ rank') :
    interpolate l rank ≤ interpolate l rank' := by
  rcases (Nat.floor_mono hle).eq_or_lt with hsame | hlater
  · rw [interpolate, interpolate, ← hsame]
    apply segment_mono (entry_mono hsorted (Nat.le_succ _))
    linarith
  · calc interpolate l rank ≤ entry l (⌊rank⌋₊ + 1) := interpolate_le_entry hsorted rank
      _ ≤ entry l ⌊rank'⌋₊ := entry_mono hsorted hlater
      _ ≤ interpolate l rank' := entry_le_interpolate hsorted (hrank.trans hle)

end Interpolation
