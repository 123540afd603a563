import ChronosMatch.Analysis.BookAnalytics
import ChronosMatch.Base.Newest
import ChronosMatch.Base.RoundingOrder
import ChronosMatch.Monitor.LatencyMonitor

/-!
# Sparklines and histograms

`generate_sparkline` of `src/monitor/latency_monitor.py` and `ascii_histogram` of `src/analysis/visualizer.py`.
Both take the place of a value between the least and the greatest one in doubles and cut it off to an index. The
roundings on the way keep the order of the values and the range of the indices.
-/

namespace ChronosMatch

open OrderBookAnalytics

/-! ### The functions of the source -/

/-- `int(x)`, which raises for the infinities and for NaN. -/
def toInteger (x : Binary64) : Option Int := if x.isFinite then some x.truncate else none

/-- `(v - lo) / (hi - lo) * steps` -/
def position (lo hi : Binary64) (steps : Nat) (v : Binary64) : Binary64 :=
  (v - lo) / (hi - lo) * Binary64.ofInt steps

/-- `min(int(position), last)`. No value is below `lo`, so the index is not negative. -/
def binIndex (lo hi : Binary64) (steps last : Nat) (v : Binary64) : Option Nat :=
  (toInteger (position lo hi steps v)).map fun i : Int => (min i last).toNat

/-- The characters of a sparkline, the lowest first; `asciiOnly` holds on Windows as well. -/
def sparklineBars (asciiOnly : Bool) : List Char :=
  if asciiOnly then ['.', '_', '-', '=', '+', '*', '#'] else [' ', ' ', '▂', '▃', '▄', '▅', '▆', '▇', '█']

def generateSparkline (values : List Binary64) (width : Nat) (asciiOnly : Bool) : Option (List Char) :=
  -- `values[-0:]` is all of the values
  let recent := if width = 0 then values else values.rtake width
  let bars := sparklineBars asciiOnly
  match minFloat recent, maxFloat recent with
  | some lo, some hi =>
      if Binary64.SameValue hi lo then some (List.replicate recent.length (bars.headD ' '))
      else recent.mapM fun v => (binIndex lo hi (bars.length - 1) (bars.length - 1) v).bind fun i => bars[i]?
  | _, _ => some (List.replicate width '.')

/-- `x / 1000.0` -/
def microseconds (ns : Int) : Binary64 := Binary64.ofInt ns / Binary64.ofInt 1000

/-- The sparkline of `get_latency_stats`. -/
def LatencyMonitor.sparkline (m : LatencyMonitor) : Option (List Char) :=
  if m.allLatenciesNs = [] then some (List.replicate 15 '·')
  else generateSparkline (m.rollingLatenciesNs.map microseconds) 18 true

/-- What `ascii_histogram` prints besides the edges. A line has its count and the length of its bar. -/
inductive AsciiHistogram
  | noData
  | flat (value : Binary64) (n bar : Nat)
  | bins (lines : List (Nat × Nat))

/-- `int(c / peak * width) if peak else 0`; the quotient of two integers is rounded once. -/
def barLength (peak width c : Nat) : Option Nat :=
  if peak = 0 then some 0
  else (toInteger (Binary64.roundRatio false c peak 0 * Binary64.ofInt width)).map Int.toNat

def binCounts (bins : Nat) (indices : List Nat) : List Nat :=
  indices.foldl (fun counts i => counts.modify i (· + 1)) (List.replicate bins 0)

def asciiHistogram (values : List Binary64) (bins width : Nat) : Option AsciiHistogram :=
  match minFloat values, maxFloat values with
  | some lo, some hi =>
      if Binary64.SameValue lo hi then some (.flat lo values.length width)
      else if bins = 0 then none
      else do
        let indices ← values.mapM (binIndex lo hi bins (bins - 1))
        let counts := binCounts bins indices
        let bars ← counts.mapM (barLength (counts.foldl max 0) width)
        return .bins (counts.zip bars)
  | _, _ => some .noData

/-! ### The index of a value -/

/-- The index of a value where nothing overflows. -/
def levelOf (lo hi : Binary64) (steps last : Nat) (v : Binary64) : Nat :=
  min ⌊(position lo hi steps v).toRat⌋₊ last

theorem toInteger_of_nonneg {x : Binary64} (hfinite : x.isFinite = true) (h : Binary64.zero ≤ x) :
    toInteger x = some (⌊x.toRat⌋₊ : Int) := by
  rw [toInteger, if_pos hfinite, Binary64.truncate_eq h]

section Scaled

variable {share share' : Binary64} {steps : Nat} (hsteps : (Binary64.ofInt steps).isFinite = true)
include hsteps

theorem scaled_mem (hnonneg : Binary64.zero ≤ share) (hone : share ≤ Binary64.ofInt 1) :
    (share * Binary64.ofInt steps).isFinite = true ∧ Binary64.zero ≤ share * Binary64.ofInt steps := by
  have hshare := Binary64.isFinite_of_between hnonneg hone (by decide)
  have hrounds := Binary64.rounds_mul hshare hsteps
  have hnonneg' := Binary64.toRat_mono hnonneg
  have hone' := Binary64.toRat_mono hone
  rw [Binary64.toRat_zero] at hnonneg'
  rw [Binary64.toRat_one] at hone'
  have hsteps' : 0 ≤ (Binary64.ofInt steps).toRat := by
    rw [Binary64.toRat_ofInt_nonneg]
    exact Binary64.absRat_nonneg _
  have hzero : Binary64.zero ≤ share * Binary64.ofInt steps := by
    apply hrounds.ge _ (by decide)
    rw [Binary64.toRat_zero]
    exact mul_nonneg hnonneg' hsteps'
  have hle : share * Binary64.ofInt steps ≤ Binary64.ofInt steps :=
    hrounds.le _ (Binary64.isNaN_ofInt _) (mul_le_of_le_one_left hsteps' hone')
  exact ⟨Binary64.isFinite_of_between hzero hle hsteps, hzero⟩

theorem scaled_mono (hnonneg : Binary64.zero ≤ share) (hle : share ≤ share') (hone : share' ≤ Binary64.ofInt 1) :
    share * Binary64.ofInt steps ≤ share' * Binary64.ofInt steps := by
  have hshare' : Binary64.zero ≤ share' := ⟨hnonneg.1, hle.2.1, hnonneg.2.2.trans hle.2.2⟩
  have hfinite' := Binary64.isFinite_of_between hshare' hone (by decide)
  have hfinite := Binary64.isFinite_of_between hnonneg hle hfinite'
  apply (Binary64.isRounding_mul hfinite hsteps).mono (Binary64.isRounding_mul hfinite' hsteps)
  apply mul_le_mul_of_nonneg_right (Binary64.toRat_mono hle)
  rw [Binary64.toRat_ofInt_nonneg]
  exact Binary64.absRat_nonneg _

end Scaled

section Index

variable {lo hi : Binary64} (hlo : lo.isFinite = true) (hhi : hi.isFinite = true)
include hlo hhi

theorem difference_mem (hspan : (hi - lo).isFinite = true) {v : Binary64} (hv : v.isFinite = true) (hlow : lo ≤ v)
    (hhigh : v ≤ hi) : (v - lo).isFinite = true ∧ Binary64.zero ≤ v - lo ∧ v - lo ≤ hi - lo := by
  have hvalue : Binary64.zero.toRat ≤ v.toRat - lo.toRat := by
    rw [Binary64.toRat_zero]
    exact sub_nonneg.mpr (Binary64.toRat_mono hlow)
  have hnonneg : Binary64.zero ≤ v - lo := (Binary64.rounds_sub hv hlo).ge _ (by decide) hvalue
  have hle : v - lo ≤ hi - lo := (Binary64.isRounding_sub hv hlo).mono (Binary64.isRounding_sub hhi hlo)
    (sub_le_sub_right (Binary64.toRat_mono hhigh) _)
  exact ⟨Binary64.isFinite_of_between hnonneg hle hspan, hnonneg, hle⟩

variable (hlt : lo < hi)
include hlt

theorem span_pos : 0 < (hi - lo).toRat := by
  have hpos := Binary64.toRat_lt (Binary64.zero_lt_sub hhi hlo hlt)
  rwa [Binary64.toRat_zero] at hpos

theorem span_ne_zero : (hi - lo).magnitude ≠ 0 := by
  intro hzero
  have hpos := span_pos hlo hhi hlt
  rw [Binary64.toRat, Binary64.absRat_eq_zero_iff.mpr hzero] at hpos
  simp at hpos

variable (hspan : (hi - lo).isFinite = true)
include hspan

theorem share_mem {v : Binary64} (hv : v.isFinite = true) (hlow : lo ≤ v) (hhigh : v ≤ hi) :
    Binary64.zero ≤ (v - lo) / (hi - lo) ∧ (v - lo) / (hi - lo) ≤ Binary64.ofInt 1 := by
  obtain ⟨hfinite, hnonneg, hle⟩ := difference_mem hlo hhi hspan hv hlow hhigh
  have hpos := span_pos hlo hhi hlt
  have hrounds := Binary64.rounds_div hfinite hspan (span_ne_zero hlo hhi hlt)
  have hnonneg' := Binary64.toRat_mono hnonneg
  rw [Binary64.toRat_zero] at hnonneg'
  refine ⟨hrounds.ge _ (by decide) ?_, hrounds.le _ (by decide) ?_⟩
  · rw [Binary64.toRat_zero]
    exact div_nonneg hnonneg' hpos.le
  · rw [Binary64.toRat_one, div_le_one hpos]
    exact Binary64.toRat_mono hle

theorem share_mono {v w : Binary64} (hv : v.isFinite = true) (hw : w.isFinite = true) (hlow : lo ≤ v) (h : v ≤ w)
    (hhigh : w ≤ hi) : (v - lo) / (hi - lo) ≤ (w - lo) / (hi - lo) := by
  have hv' := difference_mem hlo hhi hspan hv hlow ⟨h.1, hhigh.2.1, h.2.2.trans hhigh.2.2⟩
  have hw' := difference_mem hlo hhi hspan hw ⟨hlow.1, h.2.1, hlow.2.2.trans h.2.2⟩ hhigh
  have hle : v - lo ≤ w - lo := (Binary64.isRounding_sub hv hlo).mono (Binary64.isRounding_sub hw hlo)
    (sub_le_sub_right (Binary64.toRat_mono h) _)
  apply (Binary64.isRounding_div hv'.1 hspan (span_ne_zero hlo hhi hlt)).mono
    (Binary64.isRounding_div hw'.1 hspan (span_ne_zero hlo hhi hlt))
  exact div_le_div_of_nonneg_right (Binary64.toRat_mono hle) (span_pos hlo hhi hlt).le

variable {steps : Nat} (hsteps : (Binary64.ofInt steps).isFinite = true)
include hsteps

theorem binIndex_eq {v : Binary64} (hv : v.isFinite = true) (hlow : lo ≤ v) (hhigh : v ≤ hi) (last : Nat) :
    binIndex lo hi steps last v = some (levelOf lo hi steps last v) := by
  obtain ⟨hshare, hone⟩ := share_mem hlo hhi hlt hspan hv hlow hhigh
  obtain ⟨hfinite, hnonneg⟩ := scaled_mem hsteps hshare hone
  rw [binIndex, position, toInteger_of_nonneg hfinite hnonneg, Option.map_some, levelOf, position]
  congr 1
  omega

theorem levelOf_mono {v w : Binary64} (hv : v.isFinite = true) (hw : w.isFinite = true) (hlow : lo ≤ v) (h : v ≤ w)
    (hhigh : w ≤ hi) (last : Nat) : levelOf lo hi steps last v ≤ levelOf lo hi steps last w := by
  obtain ⟨hshare, -⟩ := share_mem hlo hhi hlt hspan hv hlow ⟨h.1, hhigh.2.1, h.2.2.trans hhigh.2.2⟩
  obtain ⟨-, hone⟩ := share_mem hlo hhi hlt hspan hw ⟨hlow.1, h.2.1, hlow.2.2.trans h.2.2⟩ hhigh
  apply min_le_min_right
  apply Nat.floor_mono
  apply Binary64.toRat_mono
  exact scaled_mono hsteps hshare (share_mono hlo hhi hlt hspan hv hw hlow h hhigh) hone

theorem levelOf_lowest (last : Nat) : levelOf lo hi steps last lo = 0 := by
  have hself : lo ≤ lo := ⟨hlt.1, hlt.1, le_rfl⟩
  obtain ⟨hdifference, -, -⟩ := difference_mem hlo hhi hspan hlo hself (Binary64.le_of_lt hlt)
  obtain ⟨hnonneg, hone⟩ := share_mem hlo hhi hlt hspan hlo hself (Binary64.le_of_lt hlt)
  have hsub := Binary64.rounds_sub hlo hlo
  have hdiv := Binary64.rounds_div hdifference hspan (span_ne_zero hlo hhi hlt)
  have hmul := Binary64.rounds_mul (Binary64.isFinite_of_between hnonneg hone (by decide)) hsteps
  rw [sub_self] at hsub
  rw [hsub.toRat_eq (by decide) Binary64.toRat_zero, zero_div] at hdiv
  rw [hdiv.toRat_eq (by decide) Binary64.toRat_zero, zero_mul] at hmul
  rw [levelOf, position, hmul.toRat_eq (by decide) Binary64.toRat_zero, Nat.floor_zero, Nat.zero_min]

theorem levelOf_highest (hexact : (Binary64.ofInt steps).toRat = steps) (last : Nat) :
    levelOf lo hi steps last hi = min steps last := by
  have hpos := span_pos hlo hhi hlt
  have hshare : ((hi - lo) / (hi - lo)).toRat = 1 := by
    have hrounds := Binary64.rounds_div hspan hspan (span_ne_zero hlo hhi hlt)
    rw [div_self hpos.ne'] at hrounds
    exact hrounds.toRat_eq (Binary64.isNaN_ofInt 1) Binary64.toRat_one
  obtain ⟨hnonneg, hone⟩ := share_mem hlo hhi hlt hspan hhi (Binary64.le_of_lt hlt) ⟨hlt.2.1, hlt.2.1, le_rfl⟩
  have hrounds := Binary64.rounds_mul (Binary64.isFinite_of_between hnonneg hone (by decide)) hsteps
  rw [hshare, one_mul] at hrounds
  rw [levelOf, position, hrounds.toRat_eq (Binary64.isNaN_ofInt _) rfl, hexact, Nat.floor_natCast]

end Index

/-! ### The indices of values -/

theorem exists_extremes {values : List Binary64} (hne : values ≠ []) (hfinite : ∀ v ∈ values, v.isFinite = true) :
    ∃ lo ∈ values, ∃ hi ∈ values, minFloat values = some lo ∧ maxFloat values = some hi ∧
      ∀ v ∈ values, lo ≤ v ∧ v ≤ hi := by
  have hnumbers : ∀ v ∈ values, v.isNaN = false := fun v hv => Binary64.isNaN_of_isFinite (hfinite v hv)
  have hmin := minFloat_isBest values hnumbers
  have hmax := maxFloat_isBest values hnumbers
  cases hlo : minFloat values with
  | none =>
      rw [hlo] at hmin
      exact absurd hmin hne
  | some lo =>
      cases hhi : maxFloat values with
      | none =>
          rw [hhi] at hmax
          exact absurd hmax hne
      | some hi =>
          rw [hlo] at hmin
          rw [hhi] at hmax
          exact ⟨lo, hmin.1, hi, hmax.1, rfl, rfl, fun v hv => ⟨hmin.2 v hv, hmax.2 v hv⟩⟩

/-- The indices rise with the values, from zero to the last one. -/
structure Rises (values : List Binary64) (index : Binary64 → Nat) (last : Nat) : Prop where
  index_le : ∀ v, index v ≤ last
  monotone : ∀ v ∈ values, ∀ w ∈ values, v ≤ w → index v ≤ index w
  lowest : ∀ v ∈ values, (∀ w ∈ values, v ≤ w) → index v = 0
  highest : ∀ v ∈ values, (∀ w ∈ values, w ≤ v) → (∃ w ∈ values, w < v) → index v = last

section Spread

variable {values : List Binary64} {lo hi : Binary64} (hfinite : ∀ v ∈ values, v.isFinite = true)
  (hbounds : ∀ v ∈ values, lo ≤ v ∧ v ≤ hi)
include hbounds

theorem rises_of_same (hsame : lo.key = hi.key) (last : Nat) : Rises values (fun _ => 0) last := by
  refine ⟨fun _ => Nat.zero_le last, fun _ _ _ _ _ => le_rfl, fun _ _ _ => rfl, ?_⟩
  rintro v hv - ⟨w, hw, hless⟩
  have hlow := (hbounds w hw).1.2.2
  have hhigh := (hbounds v hv).2.2.2
  have hkeys := hless.2.2
  omega

include hfinite

theorem levelOf_rises (hlo : lo ∈ values) (hhi : hi ∈ values) (hlt : lo < hi) (hspan : (hi - lo).isFinite = true)
    {steps last : Nat} (hsteps : steps < 2 ^ 53) (hlast : last ≤ steps) :
    Rises values (levelOf lo hi steps last) last := by
  have hlo' := hfinite lo hlo
  have hhi' := hfinite hi hhi
  have hsteps' := Binary64.isFinite_ofInt_of_le (hsteps.le.trans (by decide))
  refine ⟨fun v => min_le_right _ _, ?_, ?_, ?_⟩
  · intro v hv w hw hle
    exact levelOf_mono hlo' hhi' hlt hspan hsteps' (hfinite v hv) (hfinite w hw) (hbounds v hv).1 hle (hbounds w hw).2
      last
  · intro v hv hleast
    have hmono := levelOf_mono hlo' hhi' hlt hspan hsteps' (hfinite v hv) hlo' (hbounds v hv).1 (hleast lo hlo)
      (Binary64.le_of_lt hlt) last
    rw [levelOf_lowest hlo' hhi' hlt hspan hsteps'] at hmono
    exact Nat.le_zero.mp hmono
  · rintro v hv hgreatest -
    have hmono := levelOf_mono hlo' hhi' hlt hspan hsteps' hhi' (hfinite v hv) (Binary64.le_of_lt hlt)
      (hgreatest hi hhi) (hbounds v hv).2 last
    rw [levelOf_highest hlo' hhi' hlt hspan hsteps' (Binary64.toRat_ofInt hsteps), min_eq_right hlast] at hmono
    exact le_antisymm (min_le_right _ _) hmono

end Spread

theorem lt_of_not_sameValue {lo hi : Binary64} (h : lo ≤ hi) (hdifferent : ¬ Binary64.SameValue lo hi) : lo < hi :=
  ⟨h.1, h.2.1, lt_of_le_of_ne h.2.2 fun hkey => hdifferent ⟨h.1, h.2.1, hkey⟩⟩

/-! ### The line of a sparkline -/

theorem exists_mapM {α β : Type} {f : α → Option β} {l : List α} (h : ∀ a ∈ l, ∃ b, f a = some b) :
    ∃ bs, l.mapM f = some bs ∧ bs.map some = l.map f := by
  induction l with
  | nil => exact ⟨[], rfl, rfl⟩
  | cons a l ih =>
      obtain ⟨b, hb⟩ := h a List.mem_cons_self
      obtain ⟨bs, hbs, hmap⟩ := ih fun a' ha' => h a' (List.mem_cons_of_mem _ ha')
      refine ⟨b :: bs, ?_, ?_⟩
      · rw [List.mapM_cons, hb, hbs]
        rfl
      · rw [List.map_cons, List.map_cons, hb, hmap]

theorem mapM_eq_some {α β : Type} {f : α → Option β} {g : α → β} {l : List α} (h : ∀ a ∈ l, f a = some (g a)) :
    l.mapM f = some (l.map g) := by
  obtain ⟨bs, hbs, hmap⟩ := exists_mapM fun a ha => ⟨g a, h a ha⟩
  have hvalues : bs.map some = (l.map g).map some := by
    rw [hmap, List.map_map]
    exact List.map_congr_left h
  rw [hbs, List.map_injective_iff.mpr (Option.some_injective β) hvalues]

/-- A line of bars, one for each value. -/
structure Draws (bars : List Char) (recent : List Binary64) (level : Binary64 → Nat) (line : List Char) : Prop
    extends Rises recent level (bars.length - 1) where
  line : line.map some = recent.map fun v => bars[level v]?

theorem length_sparklineBars (asciiOnly : Bool) :
    0 < (sparklineBars asciiOnly).length ∧ (sparklineBars asciiOnly).length < 2 ^ 53 := by
  cases asciiOnly with
  | true => exact ⟨by decide, by decide⟩
  | false => exact ⟨by decide, by decide⟩

/-- As long as no difference of two values overflows, the sparkline of finite values is drawn. -/
theorem generateSparkline_draws {values : List Binary64} (hne : values ≠ [])
    (hfinite : ∀ v ∈ values, v.isFinite = true) (hspan : ∀ v ∈ values, ∀ w ∈ values, (w - v).isFinite = true)
    {width : Nat} (hwidth : 0 < width) (asciiOnly : Bool) :
    ∃ line level, generateSparkline values width asciiOnly = some line ∧ line.length = min width values.length ∧
      Draws (sparklineBars asciiOnly) (values.rtake width) level line := by
  have hsubset : values.rtake width ⊆ values := List.drop_subset _ _
  have hlength := Newest.length_rtake values width
  have hrecent : values.rtake width ≠ [] := by
    apply List.ne_nil_of_length_pos
    have := List.length_pos_of_ne_nil hne
    omega
  rw [generateSparkline, if_neg hwidth.ne', ← hlength]
  generalize values.rtake width = recent at hsubset hrecent ⊢
  have hfinite' : ∀ v ∈ recent, v.isFinite = true := fun v hv => hfinite v (hsubset hv)
  obtain ⟨lo, hlo, hi, hhi, hmin, hmax, hbounds⟩ := exists_extremes hrecent hfinite'
  obtain ⟨hbars, hfew⟩ := length_sparklineBars asciiOnly
  generalize sparklineBars asciiOnly = bars at hbars hfew ⊢
  rw [hmin, hmax]
  by_cases hflat : Binary64.SameValue hi lo
  · have hhead : bars[0]? = some (bars.headD ' ') := by
      rw [List.getElem?_eq_getElem hbars, List.headD_eq_head?_getD, List.head?_eq_getElem?,
        List.getElem?_eq_getElem hbars]
      rfl
    refine ⟨_, fun _ => 0, if_pos hflat, List.length_replicate, rises_of_same hbounds hflat.2.2.symm _, ?_⟩
    rw [List.map_replicate, ← hhead, List.map_const']
  · have hlt := lt_of_not_sameValue (hbounds lo hlo).2 fun hsame => hflat ⟨hsame.2.1, hsame.1, hsame.2.2.symm⟩
    have hspan' := hspan lo (hsubset hlo) hi (hsubset hhi)
    have hrises := levelOf_rises hfinite' hbounds hlo hhi hlt hspan' (by omega) (le_refl (bars.length - 1))
    have hsteps : (Binary64.ofInt (bars.length - 1 : Nat)).isFinite = true :=
      Binary64.isFinite_ofInt_of_le (le_trans (by omega) (show 2 ^ 53 ≤ 2 ^ 201 by decide))
    have hbar : ∀ v ∈ recent, ((binIndex lo hi (bars.length - 1) (bars.length - 1) v).bind fun i => bars[i]?) =
        bars[levelOf lo hi (bars.length - 1) (bars.length - 1) v]? := by
      intro v hv
      rw [binIndex_eq (hfinite' lo hlo) (hfinite' hi hhi) hlt hspan' hsteps (hfinite' v hv) (hbounds v hv).1
        (hbounds v hv).2]
      rfl
    obtain ⟨line, hline, hmap⟩ := exists_mapM fun v (hv : v ∈ recent) =>
      ⟨_, (hbar v hv).trans (List.getElem?_eq_getElem (Nat.lt_of_le_pred hbars (hrises.index_le v)))⟩
    refine ⟨line, levelOf lo hi (bars.length - 1) (bars.length - 1), (if_neg hflat).trans hline, ?_, hrises, ?_⟩
    · have hlines := congrArg List.length hmap
      rwa [List.length_map, List.length_map] at hlines
    · rw [hmap]
      exact List.map_congr_left hbar

theorem generateSparkline_draws_fourValues : ∃ line level,
    generateSparkline [Binary64.ofInt 1, Binary64.ofInt 5, Binary64.ofInt 10, Binary64.ofInt 20] 4 true = some line ∧
      line.length = 4 ∧ Draws (sparklineBars true)
        ([Binary64.ofInt 1, Binary64.ofInt 5, Binary64.ofInt 10, Binary64.ofInt 20].rtake 4) level line :=
  generateSparkline_draws (by decide) (by decide) (by decide +kernel) (by decide) true

theorem isFinite_ofInt_of_lt {ns : Int} (h : 0 ≤ ns ∧ ns < 2 ^ 64) : (Binary64.ofInt ns).isFinite = true := by
  obtain ⟨n, rfl⟩ := Int.eq_ofNat_of_zero_le h.1
  apply Binary64.isFinite_ofInt_of_le
  omega

theorem microseconds_mono {ns ns' : Int} (h : 0 ≤ ns) (hle : ns ≤ ns') (h' : ns' < 2 ^ 64) :
    microseconds ns ≤ microseconds ns' := by
  have hthousand : (0 : ℚ) ≤ (Binary64.ofInt 1000).toRat := by
    rw [show (1000 : Int) = (1000 : Nat) by rfl, Binary64.toRat_ofInt (by decide)]
    exact Nat.cast_nonneg _
  have hfinite := isFinite_ofInt_of_lt ⟨h, hle.trans_lt h'⟩
  have hfinite' := isFinite_ofInt_of_lt ⟨h.trans hle, h'⟩
  apply (Binary64.isRounding_div hfinite (by decide) (by decide)).mono
    (Binary64.isRounding_div hfinite' (by decide) (by decide))
  apply div_le_div_of_nonneg_right _ hthousand
  apply Binary64.toRat_mono
  exact (Binary64.isRounding_ofInt ns).mono (Binary64.isRounding_ofInt ns') (by exact_mod_cast hle)

theorem microseconds_mem {ns : Int} (h : 0 ≤ ns ∧ ns < 2 ^ 64) :
    Binary64.zero ≤ microseconds ns ∧ microseconds ns ≤ Binary64.ofInt (2 ^ 64) := by
  have hzero : Binary64.zero ≤ microseconds 0 := by decide
  have hmost : microseconds (2 ^ 64 - 1) ≤ Binary64.ofInt (2 ^ 64) := by decide +kernel
  have hlow := microseconds_mono le_rfl h.1 h.2
  have hhigh := microseconds_mono h.1 (Int.le_sub_one_of_lt h.2) (by decide)
  exact ⟨⟨hzero.1, hlow.2.1, hzero.2.2.trans hlow.2.2⟩, ⟨hlow.2.1, hmost.2.1, hhigh.2.2.trans hmost.2.2⟩⟩

/-- The differences of doubles between zero and a finite one do not overflow. -/
theorem isFinite_sub_of_between {v w limit : Binary64} (hlimit : limit.isFinite = true)
    (hv : Binary64.zero ≤ v ∧ v ≤ limit) (hw : Binary64.zero ≤ w ∧ w ≤ limit) : (w - v).isFinite = true := by
  have hv' := Binary64.isFinite_of_between hv.1 hv.2 hlimit
  have hw' := Binary64.isFinite_of_between hw.1 hw.2 hlimit
  apply (Binary64.rounds_sub hw' hv').isFinite hlimit
  have hvLow := Binary64.toRat_mono hv.1
  have hvHigh := Binary64.toRat_mono hv.2
  have hwLow := Binary64.toRat_mono hw.1
  have hwHigh := Binary64.toRat_mono hw.2
  rw [Binary64.toRat_zero] at hvLow hwLow
  rw [abs_le]
  constructor
  · linarith
  · linarith

/-- The sparkline of the latencies is drawn whatever they are: no bar is higher than that of a greater latency,
and the least latency has the lowest one. -/
theorem LatencyMonitor.sparkline_rises {m : LatencyMonitor}
    (hlatencies : ∀ lat ∈ m.rollingLatenciesNs, 0 ≤ lat ∧ lat < 2 ^ 64) (hsome : m.rollingLatenciesNs ≠ [])
    (hall : m.allLatenciesNs ≠ []) : ∃ line, ∃ level : Int → Nat, m.sparkline = some line ∧
      line.length = min 18 m.rollingLatenciesNs.length ∧
      line.map some = (m.rollingLatenciesNs.rtake 18).map (fun lat => (sparklineBars true)[level lat]?) ∧
      (∀ lat ∈ m.rollingLatenciesNs.rtake 18, ∀ lat' ∈ m.rollingLatenciesNs.rtake 18, lat ≤ lat' →
        level lat ≤ level lat') ∧
      ∀ lat ∈ m.rollingLatenciesNs.rtake 18, (∀ lat' ∈ m.rollingLatenciesNs.rtake 18, lat ≤ lat') → level lat = 0 := by
  have hlimit : (Binary64.ofInt (2 ^ 64)).isFinite = true := by decide
  have hbetween : ∀ v ∈ m.rollingLatenciesNs.map microseconds, Binary64.zero ≤ v ∧ v ≤ Binary64.ofInt (2 ^ 64) := by
    intro v hv
    obtain ⟨lat, hlat, rfl⟩ := List.mem_map.mp hv
    exact microseconds_mem (hlatencies lat hlat)
  obtain ⟨line, level, hline, hlength, hdraws⟩ := generateSparkline_draws (List.map_eq_nil_iff.not.mpr hsome)
    (fun v hv => Binary64.isFinite_of_between (hbetween v hv).1 (hbetween v hv).2 hlimit)
    (fun v hv w hw => isFinite_sub_of_between hlimit (hbetween v hv) (hbetween w hw)) (show 0 < 18 by decide) true
  have hrecent : ∀ lat ∈ m.rollingLatenciesNs.rtake 18, 0 ≤ lat ∧ lat < 2 ^ 64 :=
    fun lat hlat => hlatencies lat (List.drop_subset _ _ hlat)
  rw [← Newest.map_rtake] at hdraws
  refine ⟨line, fun lat => level (microseconds lat), ?_, ?_, ?_, ?_, ?_⟩
  · rw [sparkline, if_neg hall]
    exact hline
  · rwa [List.length_map] at hlength
  · rw [hdraws.line, List.map_map]
    rfl
  · intro lat hlat lat' hlat' hle
    exact hdraws.monotone _ (List.mem_map_of_mem hlat) _ (List.mem_map_of_mem hlat')
      (microseconds_mono (hrecent lat hlat).1 hle (hrecent lat' hlat').2)
  · intro lat hlat hleast
    apply hdraws.lowest _ (List.mem_map_of_mem hlat)
    intro w hw
    obtain ⟨lat', hlat', rfl⟩ := List.mem_map.mp hw
    exact microseconds_mono (hrecent lat hlat).1 (hleast lat' hlat') (hrecent lat' hlat').2

/-! ### The counts and the bars of a histogram -/

theorem getElem?_foldl_modify (indices counts : List Nat) (i : Nat) :
    (indices.foldl (fun counts i => counts.modify i (· + 1)) counts)[i]? = counts[i]?.map (· + indices.count i) := by
  induction indices generalizing counts with
  | nil => simp
  | cons j indices ih =>
      rw [List.foldl_cons, ih, List.getElem?_modify, List.count_cons]
      by_cases hij : j = i
      · subst hij
        cases counts[j]? <;> simp
        omega
      · simp [hij]

theorem binCounts_eq (bins : Nat) (indices : List Nat) :
    binCounts bins indices = (List.range bins).map fun i => indices.count i := by
  apply List.ext_getElem?
  intro i
  rw [binCounts, getElem?_foldl_modify, List.getElem?_map, List.getElem?_replicate]
  by_cases hi : i < bins
  · rw [if_pos hi, List.getElem?_range hi, Option.map_some, Option.map_some, Nat.zero_add]
  · rw [if_neg hi, List.getElem?_eq_none (by rw [List.length_range]; omega)]
    rfl

theorem sum_modify {counts : List Nat} {i : Nat} (hi : i < counts.length) :
    (counts.modify i (· + 1)).sum = counts.sum + 1 := by
  induction counts generalizing i with
  | nil => cases hi
  | cons c counts ih =>
      cases i with
      | zero =>
          rw [List.modify_zero_cons, List.sum_cons, List.sum_cons]
          omega
      | succ i =>
          rw [List.modify_succ_cons, List.sum_cons, List.sum_cons, ih (Nat.lt_of_succ_lt_succ hi)]
          omega

theorem sum_foldl_modify {indices counts : List Nat} (h : ∀ i ∈ indices, i < counts.length) :
    (indices.foldl (fun counts i => counts.modify i (· + 1)) counts).sum = counts.sum + indices.length := by
  induction indices generalizing counts with
  | nil => rfl
  | cons i indices ih =>
      have hi := h i List.mem_cons_self
      have hrest : ∀ j ∈ indices, j < (counts.modify i (· + 1)).length := by
        intro j hj
        rw [List.length_modify]
        exact h j (List.mem_cons_of_mem _ hj)
      rw [List.foldl_cons, ih hrest, sum_modify hi, List.length_cons]
      omega

theorem sum_binCounts {bins : Nat} {indices : List Nat} (h : ∀ i ∈ indices, i < bins) :
    (binCounts bins indices).sum = indices.length := by
  have hlength : ∀ i ∈ indices, i < (List.replicate bins 0).length := by
    intro i hi
    rw [List.length_replicate]
    exact h i hi
  rw [binCounts, sum_foldl_modify hlength, List.sum_replicate, nsmul_zero, Nat.zero_add]

theorem le_foldl_max (counts : List Nat) (start : Nat) :
    start ≤ counts.foldl max start ∧ ∀ c ∈ counts, c ≤ counts.foldl max start := by
  induction counts generalizing start with
  | nil => exact ⟨le_rfl, by simp⟩
  | cons c counts ih =>
      obtain ⟨hstart, hle⟩ := ih (max start c)
      refine ⟨(le_max_left _ _).trans hstart, fun c' hc' => ?_⟩
      rcases List.mem_cons.mp hc' with rfl | hc'
      · exact (le_max_right _ _).trans hstart
      · exact hle c' hc'

theorem foldl_max_mem (counts : List Nat) (start : Nat) :
    counts.foldl max start = start ∨ counts.foldl max start ∈ counts := by
  induction counts generalizing start with
  | nil => exact .inl rfl
  | cons c counts ih =>
      rw [List.foldl_cons]
      obtain hsame | hmem := ih (max start c)
      · rw [hsame]
        rcases max_choice start c with hstart | hc
        · exact .inl hstart
        · rw [hc]
          exact .inr List.mem_cons_self
      · exact .inr (List.mem_cons_of_mem _ hmem)

/-- The length of a bar where nothing overflows. -/
def barOf (peak width c : Nat) : Nat :=
  if peak = 0 then 0 else ⌊(Binary64.roundRatio false c peak 0 * Binary64.ofInt width).toRat⌋₊

section Bars

variable {peak width c c' : Nat} (hpeak : 0 < peak)
include hpeak

theorem isRounding_countShare (c : Nat) :
    Binary64.IsRounding ((c : ℚ) / peak) (Binary64.roundRatio false c peak 0) := by
  have hrounding := Binary64.isRounding_roundRatio false c hpeak 0
  rwa [Binary64.ratioValue, if_neg Bool.false_ne_true, zpow_zero, mul_one] at hrounding

theorem countShare_mem (hc : c ≤ peak) : Binary64.zero ≤ Binary64.roundRatio false c peak 0 ∧
    Binary64.roundRatio false c peak 0 ≤ Binary64.ofInt 1 := by
  have hrounds := (isRounding_countShare hpeak c).rounds
  have hpeakQ : (0 : ℚ) < peak := by exact_mod_cast hpeak
  refine ⟨hrounds.ge _ (by decide) ?_, hrounds.le _ (by decide) ?_⟩
  · rw [Binary64.toRat_zero]
    positivity
  · rw [Binary64.toRat_one, div_le_one hpeakQ]
    exact_mod_cast hc

variable (hwidth : (Binary64.ofInt width).isFinite = true)
include hwidth

theorem barLength_eq (hc : c ≤ peak) : barLength peak width c = some (barOf peak width c) := by
  obtain ⟨hnonneg, hone⟩ := countShare_mem hpeak hc
  obtain ⟨hfinite, hzero⟩ := scaled_mem hwidth hnonneg hone
  rw [barLength, barOf, if_neg hpeak.ne', if_neg hpeak.ne', toInteger_of_nonneg hfinite hzero, Option.map_some,
    Int.toNat_natCast]

theorem barOf_mono (h : c ≤ c') (hc' : c' ≤ peak) : barOf peak width c ≤ barOf peak width c' := by
  have hle : (c : ℚ) / peak ≤ c' / peak := by
    apply div_le_div_of_nonneg_right _ (Nat.cast_nonneg peak)
    exact_mod_cast h
  rw [barOf, barOf, if_neg hpeak.ne', if_neg hpeak.ne']
  apply Nat.floor_mono
  apply Binary64.toRat_mono
  exact scaled_mono hwidth (countShare_mem hpeak (h.trans hc')).1
    ((isRounding_countShare hpeak c).mono (isRounding_countShare hpeak c') hle) (countShare_mem hpeak hc').2

theorem barOf_zero : barOf peak width 0 = 0 := by
  obtain ⟨hnonneg, hone⟩ := countShare_mem hpeak (Nat.zero_le peak)
  have hshare := (isRounding_countShare hpeak 0).rounds
  have hrounds := Binary64.rounds_mul (Binary64.isFinite_of_between hnonneg hone (by decide)) hwidth
  rw [Nat.cast_zero, zero_div] at hshare
  rw [hshare.toRat_eq (by decide) Binary64.toRat_zero, zero_mul] at hrounds
  rw [barOf, if_neg hpeak.ne', hrounds.toRat_eq (by decide) Binary64.toRat_zero, Nat.floor_zero]

theorem barOf_peak (hexact : (Binary64.ofInt width).toRat = width) : barOf peak width peak = width := by
  obtain ⟨hnonneg, hone⟩ := countShare_mem hpeak le_rfl
  have hpeakQ : (peak : ℚ) ≠ 0 := by exact_mod_cast hpeak.ne'
  have hshare := (isRounding_countShare hpeak peak).rounds
  have hrounds := Binary64.rounds_mul (Binary64.isFinite_of_between hnonneg hone (by decide)) hwidth
  rw [div_self hpeakQ] at hshare
  rw [hshare.toRat_eq (Binary64.isNaN_ofInt 1) Binary64.toRat_one, one_mul] at hrounds
  rw [barOf, if_neg hpeak.ne', hrounds.toRat_eq (Binary64.isNaN_ofInt _) rfl, hexact, Nat.floor_natCast]

end Bars

theorem asciiHistogram_eq {values : List Binary64} (hfinite : ∀ v ∈ values, v.isFinite = true) {lo hi : Binary64}
    (hmin : minFloat values = some lo) (hmax : maxFloat values = some hi) (hbounds : ∀ v ∈ values, lo ≤ v ∧ v ≤ hi)
    (hlo : lo.isFinite = true) (hhi : hi.isFinite = true) (hlt : lo < hi) (hspan : (hi - lo).isFinite = true)
    {bins width : Nat} (hbins : 0 < bins) (hsteps : (Binary64.ofInt bins).isFinite = true)
    (hwidth : (Binary64.ofInt width).isFinite = true) {counts : List Nat}
    (hcounts : counts = binCounts bins (values.map (levelOf lo hi bins (bins - 1))))
    (hpeak : 0 < counts.foldl max 0) : asciiHistogram values bins width =
      some (.bins (counts.map fun c => (c, barOf (counts.foldl max 0) width c))) := by
  have hdifferent : ¬ Binary64.SameValue lo hi := fun hsame => hlt.2.2.ne hsame.2.2
  have hindices : values.mapM (binIndex lo hi bins (bins - 1)) = some (values.map (levelOf lo hi bins (bins - 1))) :=
    mapM_eq_some fun v hv =>
      binIndex_eq hlo hhi hlt hspan hsteps (hfinite v hv) (hbounds v hv).1 (hbounds v hv).2 (bins - 1)
  have hbars : counts.mapM (barLength (counts.foldl max 0) width) =
      some (counts.map (barOf (counts.foldl max 0) width)) :=
    mapM_eq_some fun c hc => barLength_eq hpeak hwidth ((le_foldl_max counts 0).2 c hc)
  rw [asciiHistogram, hmin, hmax]
  dsimp only
  rw [if_neg hdifferent, if_neg hbins.ne', hindices, Option.bind_eq_bind, Option.bind_some, ← hcounts, hbars,
    List.map_prod_left_eq_zip]
  rfl

/-- Every value is counted in the line of its index, and the bars rise with the counts. -/
structure HistogramSound (values : List Binary64) (bins width : Nat) (index : Binary64 → Nat)
    (lines : List (Nat × Nat)) : Prop extends Rises values index (bins - 1) where
  counts : lines.map Prod.fst = (List.range bins).map fun i => values.countP fun v => index v = i
  total : (lines.map Prod.fst).sum = values.length
  bars : ∀ line ∈ lines, ∀ line' ∈ lines, line.1 ≤ line'.1 → line.2 ≤ line'.2
  empty : ∀ line ∈ lines, line.1 = 0 → line.2 = 0
  longest : ∀ line ∈ lines, (∀ line' ∈ lines, line'.1 ≤ line.1) → line.2 = width

/-- A histogram of finite values is printed as long as no difference of two of them overflows. -/
theorem asciiHistogram_sound {values : List Binary64} (hne : values ≠ []) (hfinite : ∀ v ∈ values, v.isFinite = true)
    (hspan : ∀ v ∈ values, ∀ w ∈ values, (w - v).isFinite = true) {bins width : Nat} (hbins : 0 < bins)
    (hsteps : bins < 2 ^ 53) (hwidth : width < 2 ^ 53) :
    (∃ value ∈ values, asciiHistogram values bins width = some (.flat value values.length width) ∧
      ∀ v ∈ values, Binary64.SameValue v value) ∨
    ∃ index lines, asciiHistogram values bins width = some (.bins lines) ∧
      HistogramSound values bins width index lines := by
  obtain ⟨lo, hlo, hi, hhi, hmin, hmax, hbounds⟩ := exists_extremes hne hfinite
  by_cases hflat : Binary64.SameValue lo hi
  · refine .inl ⟨lo, hlo, ?_, fun v hv => ?_⟩
    · rw [asciiHistogram, hmin, hmax]
      exact if_pos hflat
    · obtain ⟨hlow, hhigh⟩ := hbounds v hv
      have hkeys := hflat.2.2
      have hkeysLow := hlow.2.2
      have hkeysHigh := hhigh.2.2
      exact ⟨hlow.2.1, hlow.1, by omega⟩
  have hlt := lt_of_not_sameValue (hbounds lo hlo).2 hflat
  have hspan' := hspan lo hlo hi hhi
  have hrises := levelOf_rises hfinite hbounds hlo hhi hlt hspan' hsteps (Nat.sub_le bins 1)
  have hsteps' := Binary64.isFinite_ofInt_of_le (hsteps.le.trans (by decide))
  have hwidth' := Binary64.isFinite_ofInt_of_le (hwidth.le.trans (by decide))
  obtain ⟨counts, hcounts⟩ : ∃ counts, counts = binCounts bins (values.map (levelOf lo hi bins (bins - 1))) := ⟨_, rfl⟩
  have hlevels : ∀ i ∈ values.map (levelOf lo hi bins (bins - 1)), i < bins := by
    intro i hi
    obtain ⟨v, -, rfl⟩ := List.mem_map.mp hi
    exact Nat.lt_of_le_pred hbins (hrises.index_le v)
  have htotal : counts.sum = values.length := by rw [hcounts, sum_binCounts hlevels, List.length_map]
  have hle := (le_foldl_max counts 0).2
  have hpeak : 0 < counts.foldl max 0 := by
    -- otherwise nothing would be counted
    by_contra hnone
    have hzero : counts.sum = 0 := List.sum_eq_zero fun c hc => Nat.le_zero.mp ((hle c hc).trans (not_lt.mp hnone))
    have hlength := List.length_pos_of_ne_nil hne
    omega
  have hpeakMem : counts.foldl max 0 ∈ counts := (foldl_max_mem counts 0).resolve_left hpeak.ne'
  have hfirst : (counts.map fun c => (c, barOf (counts.foldl max 0) width c)).map Prod.fst = counts := by
    rw [List.map_map]
    exact List.map_id counts
  refine .inr ⟨levelOf lo hi bins (bins - 1), _, asciiHistogram_eq hfinite hmin hmax hbounds (hfinite lo hlo)
    (hfinite hi hhi) hlt hspan' hbins hsteps' hwidth' hcounts hpeak, hrises, ?_, ?_, ?_, ?_, ?_⟩
  · rw [hfirst, hcounts, binCounts_eq]
    apply List.map_congr_left
    intro i hi
    rw [List.count_eq_countP, List.countP_map]
    rfl
  · rw [hfirst, htotal]
  · simp only [List.forall_mem_map]
    intro c hc c' hc' hcount
    exact barOf_mono hpeak hwidth' hcount (hle c' hc')
  · simp only [List.forall_mem_map]
    rintro c hc rfl
    exact barOf_zero hpeak hwidth'
  · simp only [List.forall_mem_map]
    intro c hc hmost
    have hc' : c = counts.foldl max 0 := Nat.le_antisymm (hle c hc) (hmost _ hpeakMem)
    rw [← hc']
    exact barOf_peak (hc' ▸ hpeak) hwidth' (Binary64.toRat_ofInt hwidth)

theorem asciiHistogram_sound_fiveValues :
    let values := [Binary64.ofInt 1, Binary64.ofInt 5, Binary64.ofInt 10, Binary64.ofInt 20, Binary64.ofInt 2]
    (∃ value ∈ values, asciiHistogram values 4 10 = some (.flat value 5 10) ∧
      ∀ v ∈ values, Binary64.SameValue v value) ∨
    ∃ index lines, asciiHistogram values 4 10 = some (.bins lines) ∧ HistogramSound values 4 10 index lines :=
  asciiHistogram_sound (by decide) (by decide) (by decide +kernel) (by decide) (by decide) (by decide)

end ChronosMatch
