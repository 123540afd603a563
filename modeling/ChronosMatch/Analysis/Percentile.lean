import Mathlib.Data.Rat.Floor
import ChronosMatch.Base.Interpolation
import ChronosMatch.Monitor.LatencyMonitor

/-!
# Percentiles

`percentile` of `src/analysis/metrics.py` beside `calculate_percentile` of the monitor, in exact rational
arithmetic. One sorts and returns early at the ends, the other takes a sorted list and clamps; both are the
linear interpolation of the sorted list at the same rank.
-/

namespace ChronosMatch

open Interpolation

/-- `int(x)`, which rounds towards zero. -/
def truncateRat (x : ℚ) : Int := x.num.tdiv x.den

/-- The percentage that is used. -/
def clampPct (pct : ℚ) : ℚ := max 0 (min 100 pct)

/-- The rank of a percentage in a list of a length. -/
def percentileRank (n : ℕ) (pct : ℚ) : ℚ := clampPct pct / 100 * (n - 1)

theorem truncateRat_of_nonneg {x : ℚ} (hx : 0 ≤ x) : truncateRat x = ⌊x⌋₊ := by
  have hnum : 0 ≤ x.num := Rat.num_nonneg.mpr hx
  rw [truncateRat, Int.tdiv_eq_ediv_of_nonneg hnum, ← Rat.floor_def', Int.natCast_floor_eq_floor hx]

theorem percentileRank_nonneg {n : ℕ} (hn : 1 ≤ n) (pct : ℚ) : 0 ≤ percentileRank n pct := by
  have hlast : (0 : ℚ) ≤ n - 1 := sub_nonneg.mpr (by exact_mod_cast hn)
  have hpct : 0 ≤ clampPct pct := le_max_left _ _
  exact mul_nonneg (div_nonneg hpct (by norm_num)) hlast

theorem percentileRank_le {n : ℕ} (hn : 1 ≤ n) (pct : ℚ) : percentileRank n pct ≤ n - 1 := by
  have hlast : (0 : ℚ) ≤ n - 1 := sub_nonneg.mpr (by exact_mod_cast hn)
  have hpct : clampPct pct ≤ 100 := max_le (by norm_num) (min_le_left _ _)
  have hshare : clampPct pct / 100 ≤ 1 := (div_le_one (by norm_num)).mpr hpct
  simpa [percentileRank] using mul_le_mul_of_nonneg_right hshare hlast

theorem percentileRank_mono {n : ℕ} (hn : 1 ≤ n) : Monotone (percentileRank n) := by
  intro p q hpq
  have hlast : (0 : ℚ) ≤ n - 1 := sub_nonneg.mpr (by exact_mod_cast hn)
  have hpct : clampPct p ≤ clampPct q := max_le_max_left 0 (min_le_min_left 100 hpq)
  apply mul_le_mul_of_nonneg_right ?_ hlast
  exact div_le_div_of_nonneg_right hpct (by norm_num)

/-- The subscripts of both functions at a rank within the list: the truncated rank and the one behind it, capped. -/
theorem subscripts {n : ℕ} (hn : 1 ≤ n) {rank : ℚ} (hrank : 0 ≤ rank) (hle : rank ≤ n - 1) :
    truncateRat rank = ⌊rank⌋₊ ∧ min (truncateRat rank + 1) ((n : Int) - 1) = (min (⌊rank⌋₊ + 1) (n - 1) : ℕ) ∧
      ⌊rank⌋₊ < n := by
  have hlow := truncateRat_of_nonneg hrank
  have hfloor : ⌊rank⌋₊ < n := by
    have hlt : rank < n := by linarith
    exact (Nat.floor_lt hrank).mpr hlt
  refine ⟨hlow, ?_, hfloor⟩
  rw [hlow]
  omega

theorem interpolate_eq {l : List ℚ} (hne : l ≠ []) {rank : ℚ} (hrank : 0 ≤ rank) (hle : rank ≤ l.length - 1) :
    l.getD (truncateRat rank).toNat (0 : Int) * ((1 : Int) - (rank - truncateRat rank)) +
        l.getD (min (truncateRat rank + 1) ((l.length : Int) - 1)).toNat (0 : Int) * (rank - truncateRat rank) =
      interpolate l rank := by
  have hn : 1 ≤ l.length := List.length_pos_iff.mpr hne
  obtain ⟨hlow, hhigh, hfloor⟩ := subscripts hn hrank hle
  have hmin : min ⌊rank⌋₊ (l.length - 1) = ⌊rank⌋₊ := by omega
  rw [hhigh, hlow, interpolate, entry, entry, hmin, Int.toNat_natCast, Int.toNat_natCast, Int.cast_natCast,
    Int.cast_zero, Int.cast_one]

theorem calculatePercentile_eq {l : List ℚ} (hne : l ≠ []) (pct : ℚ) :
    calculatePercentile truncateRat l pct = interpolate l (percentileRank l.length pct) := by
  have hn : 1 ≤ l.length := List.length_pos_iff.mpr hne
  have hrank := percentileRank_nonneg hn pct
  have hle := percentileRank_le hn pct
  have hclamp : (if ((0 : Int) : ℚ) < (if pct < (100 : Int) then pct else (100 : Int))
      then (if pct < (100 : Int) then pct else (100 : Int)) else ((0 : Int) : ℚ)) = clampPct pct := by
    rw [clampPct, max_def_lt, min_comm, min_def_lt]
    push_cast
    rfl
  cases l with
  | nil => exact absurd rfl hne
  | cons a l =>
      cases l with
      | nil => simp [calculatePercentile, percentileRank, interpolate, entry]
      | cons b l =>
          rw [← interpolate_eq hne hrank hle]
          simp only [calculatePercentile, hclamp]
          rw [percentileRank]
          push_cast
          rfl

section Sorted

variable {l : List ℚ}

theorem calculatePercentile_mono (hne : l ≠ []) (hsorted : l.Pairwise (· ≤ ·)) :
    Monotone (calculatePercentile truncateRat l) := by
  have hn : 1 ≤ l.length := List.length_pos_iff.mpr hne
  intro p q hpq
  rw [calculatePercentile_eq hne, calculatePercentile_eq hne]
  exact interpolate_mono hsorted (percentileRank_nonneg hn p) (percentileRank_mono hn hpq)

theorem calculatePercentile_bounds (hne : l ≠ []) (hsorted : l.Pairwise (· ≤ ·)) (pct : ℚ) :
    entry l 0 ≤ calculatePercentile truncateRat l pct ∧
      calculatePercentile truncateRat l pct ≤ entry l (l.length - 1) := by
  have hn : 1 ≤ l.length := List.length_pos_iff.mpr hne
  rw [calculatePercentile_eq hne]
  constructor
  · exact (entry_mono hsorted (Nat.zero_le _)).trans (entry_le_interpolate hsorted (percentileRank_nonneg hn pct))
  · exact (interpolate_le_entry hsorted _).trans (entry_le_last hsorted _)

end Sorted

/-- The statistics but for the sparkline. -/
structure LatencyStats where
  count : ℕ := 0
  lastNs : Int := 0
  minNs : Int := 0
  maxNs : Int := 0
  meanNs : ℚ := 0
  p50Ns : ℚ := 0
  p95Ns : ℚ := 0
  p99Ns : ℚ := 0
  throughputOps : ℚ := 0
  rollingMeanNs : ℚ := 0

def LatencyMonitor.getLatencyStats (elapsedNs : Int) (m : LatencyMonitor) : LatencyStats :=
  let n := m.allLatenciesNs.length
  if n = 0 then {}
  else
    let sortedLat := m.allLatenciesNs.insertionSort (· ≤ ·)
    let elapsedS : ℚ := max (1 / 10 ^ 9) (elapsedNs / 10 ^ 9)
    { count := n
      lastNs := m.lastLatencyNs
      minNs := sortedLat.headD 0
      maxNs := sortedLat.getLastD 0
      meanNs := (sortedLat.map Int.cast).sum / n
      p50Ns := calculatePercentile truncateRat (sortedLat.map Int.cast) 50
      p95Ns := calculatePercentile truncateRat (sortedLat.map Int.cast) 95
      p99Ns := calculatePercentile truncateRat (sortedLat.map Int.cast) 99
      throughputOps := n / elapsedS
      rollingMeanNs := if m.rollingLatenciesNs = [] then 0
        else (m.rollingLatenciesNs.map Int.cast).sum / m.rollingLatenciesNs.length }

/-- The percentiles that are shown lie in order between the extremes. -/
theorem LatencyMonitor.getLatencyStats_ordered (elapsedNs : Int) (m : LatencyMonitor) :
    let stats := m.getLatencyStats elapsedNs
    (stats.minNs : ℚ) ≤ stats.p50Ns ∧ stats.p50Ns ≤ stats.p95Ns ∧ stats.p95Ns ≤ stats.p99Ns ∧
      stats.p99Ns ≤ (stats.maxNs : ℚ) := by
  rw [getLatencyStats]
  dsimp only
  split
  · simp
  · next hcount =>
      have hsorted := List.pairwise_insertionSort (· ≤ ·) m.allLatenciesNs
      have hlength := List.length_insertionSort (· ≤ ·) m.allLatenciesNs
      generalize m.allLatenciesNs.insertionSort (· ≤ ·) = sortedLat at hsorted hlength ⊢
      have hne : sortedLat.map (Int.cast : Int → ℚ) ≠ [] := by
        rw [← List.length_pos_iff, List.length_map]
        omega
      have hcast : (sortedLat.map (Int.cast : Int → ℚ)).Pairwise (· ≤ ·) :=
        hsorted.map _ fun _ _ hle => Int.cast_le.mpr hle
      have hmono := calculatePercentile_mono hne hcast
      have hbounds := calculatePercentile_bounds hne hcast
      have hmin : entry (sortedLat.map (Int.cast : Int → ℚ)) 0 = (sortedLat.headD 0 : Int) := by
        rw [entry_zero]
        cases sortedLat <;> simp
      have hmax : entry (sortedLat.map (Int.cast : Int → ℚ)) ((sortedLat.map (Int.cast : Int → ℚ)).length - 1) =
          (sortedLat.getLastD 0 : Int) := by
        rw [entry_last, List.getLastD_eq_getLast?, List.getLastD_eq_getLast?, List.getLast?_map]
        cases sortedLat.getLast? <;> simp
      rw [hmin, hmax] at hbounds
      exact ⟨(hbounds 50).1, hmono (by norm_num), hmono (by norm_num), (hbounds 99).2⟩

end ChronosMatch
