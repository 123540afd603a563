import Mathlib.Algebra.BigOperators.Group.List.Basic
import Mathlib.Data.List.Induction
import Mathlib.Data.List.Sort
import Mathlib.Tactic.Common

/-!
# Levels of a keyed list

The elements of a list have a key and an amount. Its levels are its keys in a strict order, each once and with
the total of its amounts. A list has no other levels and neither has a permutation of it, so every way to
compute them gives the same: `runs` passes once over a list whose keys come in order, and `tally` collects the
totals by key first, to be sorted afterwards.
-/

namespace Levels

variable {α κ M : Type*} [DecidableEq κ] [AddCommMonoid M] (key : α → κ) (amount : α → M)

/-- The amounts of a key. -/
def total (k : κ) (l : List α) : M := ((l.filter fun a => key a = k).map amount).sum

structure IsLevels (before : κ → κ → Prop) (l : List α) (levels : List (κ × M)) : Prop where
  ordered : levels.Pairwise fun a b => before a.1 b.1
  keys : ∀ k, k ∈ levels.map Prod.fst ↔ k ∈ l.map key
  totals : ∀ level ∈ levels, level.2 = total key amount level.1 l

@[simp] theorem total_nil (k : κ) : total key amount k [] = 0 := rfl

theorem total_cons (k : κ) (a : α) (l : List α) :
    total key amount k (a :: l) = (if key a = k then amount a else 0) + total key amount k l := by
  by_cases hkey : key a = k
  · simp [total, hkey]
  · simp [total, hkey]

theorem total_concat (k : κ) (a : α) (l : List α) :
    total key amount k (l ++ [a]) = total key amount k l + if key a = k then amount a else 0 := by
  by_cases hkey : key a = k
  · simp [total, hkey]
  · simp [total, hkey]

theorem total_eq_zero {k : κ} {l : List α} (h : k ∉ l.map key) : total key amount k l = 0 := by
  have hnone : l.filter (fun a => key a = k) = [] := by
    apply List.filter_eq_nil_iff.mpr
    intro a ha hkey
    exact h (List.mem_map.mpr ⟨a, ha, by simpa using hkey⟩)
  simp [total, hnone]

theorem total_of_nodup {l : List α} (h : (l.map key).Nodup) {a : α} (ha : a ∈ l) :
    total key amount (key a) l = amount a := by
  induction l with
  | nil => cases ha
  | cons b l ih =>
      obtain ⟨hnew, hrest⟩ := List.nodup_cons.mp h
      rw [total_cons]
      rcases List.mem_cons.mp ha with rfl | ha
      · rw [if_pos rfl, total_eq_zero key amount hnew, add_zero]
      · have hne : key b ≠ key a := by
          intro heq
          apply hnew
          rw [heq]
          exact List.mem_map_of_mem ha
        rw [if_neg hne, zero_add, ih hrest ha]

theorem total_perm {l l' : List α} (h : l.Perm l') (k : κ) : total key amount k l = total key amount k l' :=
  ((h.filter _).map _).sum_eq

section Uniqueness

variable {key amount} {before : κ → κ → Prop} {l l' : List α} {levels levels' : List (κ × M)}

theorem IsLevels.perm (h : IsLevels key amount before l levels) (hperm : l.Perm l') :
    IsLevels key amount before l' levels := by
  refine ⟨h.ordered, fun k => ?_, fun level hlevel => ?_⟩
  · rw [h.keys, (hperm.map key).mem_iff]
  · rw [h.totals level hlevel, total_perm key amount hperm]

theorem IsLevels.reverse (h : IsLevels key amount before l levels) :
    IsLevels key amount (fun a b => before b a) l levels.reverse := by
  refine ⟨List.pairwise_reverse.mpr h.ordered, fun k => ?_, fun level hlevel => ?_⟩
  · rw [List.map_reverse, List.mem_reverse, h.keys]
  · exact h.totals level (List.mem_reverse.mp hlevel)

theorem IsLevels.mem_iff (h : IsLevels key amount before l levels) {level : κ × M} :
    level ∈ levels ↔ level.1 ∈ l.map key ∧ level.2 = total key amount level.1 l := by
  constructor
  · intro hlevel
    exact ⟨(h.keys _).mp (List.mem_map_of_mem hlevel), h.totals level hlevel⟩
  · rintro ⟨hkey, htotal⟩
    obtain ⟨found, hfound, heq⟩ := List.mem_map.mp ((h.keys _).mpr hkey)
    have hsame : found = level := by
      apply Prod.ext heq
      rw [htotal, h.totals found hfound, heq]
    rwa [← hsame]

theorem IsLevels.unique [IsStrictOrder κ before] (h : IsLevels key amount before l levels)
    (h' : IsLevels key amount before l levels') : levels = levels' := by
  have hirrefl : Std.Irrefl fun a b : κ × M => before a.1 b.1 := ⟨fun a => irrefl a.1⟩
  have hantisymm : Std.Antisymm fun a b : κ × M => before a.1 b.1 :=
    ⟨fun a b hab hba => (irrefl a.1 (trans_of before hab hba)).elim⟩
  apply h.ordered.eq_of_mem_iff h'.ordered
  intro level
  rw [h.mem_iff, h'.mem_iff]

end Uniqueness

/-! ### One pass over a sorted list -/

/-- The levels from an open one on. -/
def runsFrom (k : κ) (n : M) : List α → List (κ × M)
  | [] => [(k, n)]
  | a :: l => if key a = k then runsFrom k (n + amount a) l else (k, n) :: runsFrom (key a) (amount a) l

def runs : List α → List (κ × M)
  | [] => []
  | a :: l => runsFrom key amount (key a) (amount a) l

theorem keys_runsFrom (k : κ) (n : M) (l : List α) (k' : κ) :
    k' ∈ (runsFrom key amount k n l).map Prod.fst ↔ k' = k ∨ k' ∈ l.map key := by
  induction l generalizing k n with
  | nil => simp [runsFrom]
  | cons a l ih =>
      rw [runsFrom]
      split
      · next hsame => simp [ih, hsame]
      · simp [ih]

section Sorted

variable {before : κ → κ → Prop} [IsStrictOrder κ before]

/-- The keys of a list come in order, equal ones together. -/
def KeySorted (before : κ → κ → Prop) (l : List α) : Prop :=
  l.Pairwise fun a b => key a = key b ∨ before (key a) (key b)

variable {key}

omit [DecidableEq κ] in
/-- Behind a key that differs from the open one, the open one does not come again. -/
theorem KeySorted.before_of_ne {k : κ} {a : α} {l : List α} (h : KeySorted key before (a :: l))
    (hopen : ∀ b ∈ a :: l, key b = k ∨ before k (key b)) (hne : key a ≠ k) :
    ∀ b ∈ a :: l, before k (key b) := by
  have hfirst : before k (key a) := (hopen a List.mem_cons_self).resolve_left hne
  intro b hb
  apply (hopen b hb).resolve_left
  rintro rfl
  rcases List.mem_cons.mp hb with rfl | hb
  · exact hne rfl
  · rcases (List.pairwise_cons.mp h).1 b hb with heq | hafter
    · exact hne heq
    · exact irrefl _ (trans_of before hfirst hafter)

theorem pairwise_runsFrom {k : κ} (n : M) {l : List α} (h : KeySorted key before l)
    (hopen : ∀ b ∈ l, key b = k ∨ before k (key b)) :
    (runsFrom key amount k n l).Pairwise fun a b => before a.1 b.1 := by
  induction l generalizing k n with
  | nil => simp [runsFrom]
  | cons a l ih =>
      obtain ⟨hfirst, hrest⟩ := List.pairwise_cons.mp h
      rw [runsFrom]
      split
      · exact ih _ hrest fun b hb => hopen b (List.mem_cons_of_mem _ hb)
      · next hne =>
          have hbehind := h.before_of_ne hopen hne
          apply List.pairwise_cons.mpr
          refine ⟨fun level hlevel => ?_, ih _ hrest fun b hb => (hfirst b hb).imp_left Eq.symm⟩
          rcases (keys_runsFrom key amount _ _ l _).mp (List.mem_map_of_mem hlevel) with heq | hmem
          · rw [heq]
            exact hbehind a List.mem_cons_self
          · obtain ⟨b, hb, heq⟩ := List.mem_map.mp hmem
            rw [← heq]
            exact hbehind b (List.mem_cons_of_mem _ hb)

theorem totals_runsFrom {k : κ} (n : M) {l : List α} (h : KeySorted key before l)
    (hopen : ∀ b ∈ l, key b = k ∨ before k (key b)) {level : κ × M} (hlevel : level ∈ runsFrom key amount k n l) :
    level.2 = (if level.1 = k then n else 0) + total key amount level.1 l := by
  induction l generalizing k n with
  | nil =>
      rw [runsFrom, List.mem_singleton] at hlevel
      simp [hlevel]
  | cons a l ih =>
      obtain ⟨hfirst, hrest⟩ := List.pairwise_cons.mp h
      rw [runsFrom] at hlevel
      split at hlevel
      · next hsame =>
          have htotal := ih _ hrest (fun b hb => hopen b (List.mem_cons_of_mem _ hb)) hlevel
          rw [htotal, total_cons, hsame]
          by_cases hk : level.1 = k
          · simp [hk, add_assoc]
          · simp [hk, Ne.symm hk]
      · next hne =>
          have hbehind := h.before_of_ne hopen hne
          rcases List.mem_cons.mp hlevel with rfl | hlater
          · have hnone : k ∉ (a :: l).map key := by
              intro hmem
              obtain ⟨b, hb, heq⟩ := List.mem_map.mp hmem
              have hafter := hbehind b hb
              rw [heq] at hafter
              exact irrefl _ hafter
            simp [total_eq_zero key amount hnone]
          · have htotal := ih _ hrest (fun b hb => (hfirst b hb).imp_left Eq.symm) hlater
            have hk : level.1 ≠ k := by
              rintro rfl
              rcases (keys_runsFrom key amount _ _ l _).mp (List.mem_map_of_mem hlater) with heq | hmem
              · exact hne heq.symm
              · obtain ⟨b, hb, heq⟩ := List.mem_map.mp hmem
                have hafter := hbehind b (List.mem_cons_of_mem _ hb)
                rw [heq] at hafter
                exact irrefl _ hafter
            rw [htotal, total_cons, if_neg hk, zero_add]
            simp only [eq_comm]

/-- One pass over a sorted list finds its levels. -/
theorem isLevels_runs {l : List α} (h : KeySorted key before l) :
    IsLevels key amount before l (runs key amount l) := by
  cases l with
  | nil => exact ⟨List.Pairwise.nil, by simp [runs], by simp [runs]⟩
  | cons a l =>
      obtain ⟨hfirst, hrest⟩ := List.pairwise_cons.mp h
      have hopen : ∀ b ∈ l, key b = key a ∨ before (key a) (key b) := fun b hb => (hfirst b hb).imp_left Eq.symm
      refine ⟨pairwise_runsFrom amount _ hrest hopen, fun k => ?_, fun level hlevel => ?_⟩
      · rw [runs, keys_runsFrom, List.map_cons, List.mem_cons]
      · rw [totals_runsFrom amount _ hrest hopen hlevel, total_cons]
        simp only [eq_comm]

end Sorted

/-! ### Totals by key, sorted afterwards -/

/-- Adds to the amount of a key; a new key goes behind the others. -/
def addTo (k : κ) (n : M) : List (κ × M) → List (κ × M)
  | [] => [(k, n)]
  | (k', n') :: items => if k' = k then (k', n' + n) :: items else (k', n') :: addTo k n items

def tally (l : List α) : List (κ × M) := l.foldl (fun items a => addTo (key a) (amount a) items) []

theorem tally_concat (l : List α) (a : α) :
    tally key amount (l ++ [a]) = addTo (key a) (amount a) (tally key amount l) := by
  simp [tally]

theorem keys_addTo (k : κ) (n : M) (items : List (κ × M)) (k' : κ) :
    k' ∈ (addTo k n items).map Prod.fst ↔ k' = k ∨ k' ∈ items.map Prod.fst := by
  induction items with
  | nil => simp [addTo]
  | cons item items ih =>
      rw [addTo]
      split
      · next hsame => simp [← hsame]
      · simp only [List.map_cons, List.mem_cons, ih]
        exact or_left_comm

theorem nodup_addTo (k : κ) (n : M) {items : List (κ × M)} (h : (items.map Prod.fst).Nodup) :
    ((addTo k n items).map Prod.fst).Nodup := by
  induction items with
  | nil => simp [addTo]
  | cons item items ih =>
      obtain ⟨hnew, hrest⟩ := List.nodup_cons.mp h
      rw [addTo]
      split
      · exact h
      · next hne =>
          apply List.nodup_cons.mpr
          refine ⟨fun hmem => ?_, ih hrest⟩
          rcases (keys_addTo k n items _).mp hmem with heq | hmem
          · exact hne heq
          · exact hnew hmem

theorem sum_addTo (k : κ) (n : M) (items : List (κ × M)) :
    ((addTo k n items).map Prod.snd).sum = (items.map Prod.snd).sum + n := by
  induction items with
  | nil => simp [addTo]
  | cons item items ih =>
      rw [addTo]
      split
      · simp only [List.map_cons, List.sum_cons]
        exact add_right_comm _ _ _
      · simp only [List.map_cons, List.sum_cons, ih, add_assoc]

theorem keys_tally (l : List α) (k : κ) : k ∈ (tally key amount l).map Prod.fst ↔ k ∈ l.map key := by
  induction l using List.reverseRecOn with
  | nil => simp [tally]
  | append_singleton l a ih => simp [tally_concat, keys_addTo, ih, or_comm]

theorem nodup_tally (l : List α) : ((tally key amount l).map Prod.fst).Nodup := by
  induction l using List.reverseRecOn with
  | nil => exact List.nodup_nil
  | append_singleton l a ih =>
      rw [tally_concat]
      exact nodup_addTo _ _ ih

theorem sum_tally (l : List α) : ((tally key amount l).map Prod.snd).sum = (l.map amount).sum := by
  induction l using List.reverseRecOn with
  | nil => rfl
  | append_singleton l a ih => simp [tally_concat, sum_addTo, ih]

theorem mem_addTo {k : κ} {n : M} {items : List (κ × M)} (h : (items.map Prod.fst).Nodup) {item : κ × M}
    (hitem : item ∈ addTo k n items) :
    (item.1 ≠ k ∧ item ∈ items) ∨
      (item.1 = k ∧ ((k ∉ items.map Prod.fst ∧ item.2 = n) ∨ ∃ n', (k, n') ∈ items ∧ item.2 = n' + n)) := by
  induction items with
  | nil =>
      rw [addTo, List.mem_singleton] at hitem
      simp [hitem]
  | cons first items ih =>
      obtain ⟨hnew, hrest⟩ := List.nodup_cons.mp h
      rw [addTo] at hitem
      split at hitem
      · next hsame =>
          rcases List.mem_cons.mp hitem with rfl | hitem
          · exact .inr ⟨hsame, .inr ⟨first.2, by rw [← hsame]; exact List.mem_cons_self, rfl⟩⟩
          · refine .inl ⟨?_, List.mem_cons_of_mem _ hitem⟩
            rintro heq
            apply hnew
            rw [hsame, ← heq]
            exact List.mem_map_of_mem hitem
      · next hne =>
          rcases List.mem_cons.mp hitem with rfl | hitem
          · exact .inl ⟨hne, List.mem_cons_self⟩
          · rcases ih hrest hitem with ⟨hk, hmem⟩ | ⟨hk, ⟨hnone, hn⟩ | ⟨n', hmem, hn⟩⟩
            · exact .inl ⟨hk, List.mem_cons_of_mem _ hmem⟩
            · refine .inr ⟨hk, .inl ⟨?_, hn⟩⟩
              rw [List.map_cons, List.mem_cons]
              rintro (heq | hmem)
              · exact hne heq.symm
              · exact hnone hmem
            · exact .inr ⟨hk, .inr ⟨n', List.mem_cons_of_mem _ hmem, hn⟩⟩

theorem totals_tally (l : List α) {item : κ × M} (hitem : item ∈ tally key amount l) :
    item.2 = total key amount item.1 l := by
  induction l using List.reverseRecOn generalizing item with
  | nil => cases hitem
  | append_singleton l a ih =>
      rw [tally_concat] at hitem
      rw [total_concat]
      rcases mem_addTo (nodup_tally key amount l) hitem with ⟨hk, hmem⟩ | ⟨hk, ⟨hnone, hn⟩ | ⟨n', hmem, hn⟩⟩
      · rw [if_neg (Ne.symm hk), add_zero, ih hmem]
      · rw [keys_tally] at hnone
        rw [if_pos hk.symm, hk, total_eq_zero key amount hnone, zero_add, hn]
      · have hold : n' = total key amount (key a) l := ih hmem
        rw [if_pos hk.symm, hk, hn, hold]

/-- The totals by key are the levels once they are sorted by anything that tells keys apart as the order does. -/
theorem isLevels_sort_tally {before : κ → κ → Prop} (r : κ × M → κ × M → Prop) [DecidableRel r] [Std.Total r]
    [IsTrans (κ × M) r] (hr : ∀ a b, r a b → a.1 ≠ b.1 → before a.1 b.1) (l : List α) :
    IsLevels key amount before l ((tally key amount l).insertionSort r) := by
  have hperm := List.perm_insertionSort r (tally key amount l)
  refine ⟨?_, fun k => ?_, fun level hlevel => ?_⟩
  · have hdistinct : ((tally key amount l).insertionSort r).Pairwise fun a b => a.1 ≠ b.1 := by
      rw [← List.pairwise_map (f := Prod.fst)]
      exact ((hperm.map Prod.fst).nodup_iff).mpr (nodup_tally key amount l)
    apply ((List.pairwise_insertionSort r _).and hdistinct).imp
    rintro a b ⟨hle, hne⟩
    exact hr a b hle hne
  · rw [(hperm.map Prod.fst).mem_iff, keys_tally]
  · exact totals_tally key amount l (hperm.mem_iff.mp hlevel)

end Levels
