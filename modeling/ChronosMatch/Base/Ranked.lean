import Mathlib.Data.List.Sort
import Mathlib.Tactic.Common
import Mathlib.Tactic.Order

/-!
# Lists kept in rank order

A list is ranked by a function into a linear order, and elements of equal rank are told apart only by
their place. `insertAfter` puts an element behind everything of its rank; `stableSort` is a stable
sort. The two meet in `stableSort_concat`: appending and sorting later is inserting at once. A stable
sort is determined by the ranks, so it does not matter which stable algorithm computes it.
-/

namespace Ranked

variable {α β κ : Type*} [LinearOrder κ] (rank : α → κ)

/-- No element ranks below an earlier one. -/
def Sorted (l : List α) : Prop := l.Pairwise fun a b => rank a ≤ rank b

def insertAfter (a : α) (l : List α) : List α := l.orderedInsert (fun a b => rank a < rank b) a

def stableSort (l : List α) : List α := l.insertionSort fun a b => rank a ≤ rank b

@[simp] theorem insertAfter_nil (a : α) : insertAfter rank a [] = [a] := rfl

theorem insertAfter_cons (a b : α) (l : List α) :
    insertAfter rank a (b :: l) = if rank a < rank b then a :: b :: l else b :: insertAfter rank a l := rfl

theorem perm_insertAfter (a : α) (l : List α) : (insertAfter rank a l).Perm (a :: l) :=
  List.perm_orderedInsert _ a l

theorem perm_stableSort (l : List α) : (stableSort rank l).Perm l :=
  List.perm_insertionSort _ l

@[simp] theorem mem_insertAfter {a b : α} {l : List α} : b ∈ insertAfter rank a l ↔ b = a ∨ b ∈ l := by
  rw [(perm_insertAfter rank a l).mem_iff, List.mem_cons]

@[simp] theorem mem_stableSort {a : α} {l : List α} : a ∈ stableSort rank l ↔ a ∈ l :=
  (perm_stableSort rank l).mem_iff

/-- The insertion as a scan for the first element that ranks strictly later. -/
theorem insertAfter_eq_take_drop (a : α) (l : List α) :
    insertAfter rank a l = l.take (l.findIdx fun b => rank a < rank b) ++
      a :: l.drop (l.findIdx fun b => rank a < rank b) := by
  induction l with
  | nil => rfl
  | cons b l ih =>
      rw [insertAfter_cons, List.findIdx_cons]
      by_cases hlt : rank a < rank b
      · simp [hlt]
      · simp [hlt, ih]

variable {rank}

theorem Sorted.tail {a : α} {l : List α} (h : Sorted rank (a :: l)) : Sorted rank l :=
  (List.pairwise_cons.mp h).2

theorem Sorted.head_le {a b : α} {l : List α} (h : Sorted rank (a :: l)) (hb : b ∈ a :: l) :
    rank a ≤ rank b := by
  rcases List.mem_cons.mp hb with rfl | hb
  · exact le_rfl
  · exact (List.pairwise_cons.mp h).1 b hb

theorem Sorted.replaceHead {a b : α} {l : List α} (h : Sorted rank (a :: l)) (hrank : rank b = rank a) :
    Sorted rank (b :: l) := by
  refine List.pairwise_cons.mpr ⟨fun c hc => ?_, h.tail⟩
  rw [hrank]
  exact (List.pairwise_cons.mp h).1 c hc

theorem Sorted.insertAfter {l : List α} (h : Sorted rank l) (a : α) : Sorted rank (insertAfter rank a l) := by
  induction l with
  | nil => exact List.pairwise_singleton _ _
  | cons b l ih =>
      rw [insertAfter_cons]
      split
      · next hlt =>
          refine List.pairwise_cons.mpr ⟨fun c hc => ?_, h⟩
          exact hlt.le.trans (h.head_le hc)
      · next hlt =>
          refine List.pairwise_cons.mpr ⟨fun c hc => ?_, ih h.tail⟩
          rcases (mem_insertAfter rank).mp hc with rfl | hc
          · exact not_lt.mp hlt
          · exact (List.pairwise_cons.mp h).1 c hc

/-! ### Ties broken by a second number -/

/-- Ordered by rank, and among equal ranks by `tie`, strictly. -/
def TieSorted {ι : Type*} [LT ι] (rank : α → κ) (tie : α → ι) (l : List α) : Prop :=
  l.Pairwise fun a b => rank a < rank b ∨ (rank a = rank b ∧ tie a < tie b)

theorem TieSorted.sorted {ι : Type*} [LT ι] {tie : α → ι} {l : List α} (h : TieSorted rank tie l) :
    Sorted rank l :=
  h.imp fun hab => hab.elim le_of_lt fun heq => heq.1.le

/-- An element newer than all others goes behind everything of its rank, which is its place. -/
theorem TieSorted.insertAfter {ι : Type*} [LT ι] {tie : α → ι} {l : List α} (h : TieSorted rank tie l) {a : α}
    (hnew : ∀ b ∈ l, tie b < tie a) : TieSorted rank tie (insertAfter rank a l) := by
  induction l with
  | nil => exact List.pairwise_singleton _ _
  | cons b l ih =>
      obtain ⟨hhead, htail⟩ := List.pairwise_cons.mp h
      rw [insertAfter_cons]
      split
      · next hlt =>
          refine List.pairwise_cons.mpr ⟨fun c hc => .inl ?_, h⟩
          exact hlt.trans_le (h.sorted.head_le hc)
      · next hlt =>
          refine List.pairwise_cons.mpr ⟨fun c hc => ?_, ih htail fun c hc => hnew c (List.mem_cons_of_mem _ hc)⟩
          rcases (mem_insertAfter rank).mp hc with rfl | hc
          · rcases lt_or_eq_of_le (not_lt.mp hlt) with hlt' | heq
            · exact .inl hlt'
            · exact .inr ⟨heq, hnew b List.mem_cons_self⟩
          · exact hhead c hc

variable (rank)

theorem sorted_stableSort (l : List α) : Sorted rank (stableSort rank l) := by
  have : Std.Total fun a b : α => rank a ≤ rank b := ⟨fun a b => le_total (rank a) (rank b)⟩
  have : IsTrans α fun a b => rank a ≤ rank b := ⟨fun _ _ _ => le_trans⟩
  exact List.pairwise_insertionSort _ l

theorem stableSort_eq_self {l : List α} (h : Sorted rank l) : stableSort rank l = l :=
  List.Pairwise.insertionSort_eq h

private theorem orderedInsert_insertAfter (a b : α) (l : List α) :
    (insertAfter rank a l).orderedInsert (fun a b => rank a ≤ rank b) b =
      insertAfter rank a (l.orderedInsert (fun a b => rank a ≤ rank b) b) := by
  induction l with
  | nil =>
      simp only [insertAfter_nil, List.orderedInsert_cons, List.orderedInsert_nil, insertAfter_cons]
      split <;> split <;> first | rfl | (exfalso; order)
  | cons c l ih =>
      simp only [List.orderedInsert_cons, insertAfter_cons]
      by_cases hac : rank a < rank c <;> by_cases hbc : rank b ≤ rank c
      · simp only [hac, hbc, if_true, List.orderedInsert_cons, insertAfter_cons]
        split <;> split <;> first | rfl | (exfalso; order)
      · have hba : ¬ rank b ≤ rank a := by order
        simp only [hac, hbc, hba, if_true, if_false, List.orderedInsert_cons, insertAfter_cons]
      · have hab : ¬ rank a < rank b := by order
        simp only [hac, hbc, hab, if_true, if_false, List.orderedInsert_cons, insertAfter_cons]
      · simp only [hac, hbc, if_false, List.orderedInsert_cons, insertAfter_cons, ih]

/-- Appending to an unsorted list and sorting it later is inserting into the sorted list. -/
theorem stableSort_concat (l : List α) (a : α) :
    stableSort rank (l ++ [a]) = insertAfter rank a (stableSort rank l) := by
  induction l with
  | nil => rfl
  | cons b l ih =>
      change (stableSort rank (l ++ [a])).orderedInsert _ b = insertAfter rank a ((stableSort rank l).orderedInsert _ b)
      rw [ih, orderedInsert_insertAfter]

/-! ### Transport along a map -/

/-- The place of an element depends on no more than which elements it ranks before. -/
theorem map_insertAfter_of_iff (rank' : β → κ) (f : α → β) {a : α} {l : List α}
    (hf : ∀ b ∈ l, rank' (f a) < rank' (f b) ↔ rank a < rank b) :
    (insertAfter rank a l).map f = insertAfter rank' (f a) (l.map f) := by
  induction l with
  | nil => rfl
  | cons b l ih =>
      have hrest := ih fun c hc => hf c (List.mem_cons_of_mem _ hc)
      rw [List.map_cons, insertAfter_cons, insertAfter_cons]
      by_cases hlt : rank a < rank b
      · rw [if_pos hlt, if_pos ((hf b List.mem_cons_self).mpr hlt), List.map_cons, List.map_cons]
      · rw [if_neg hlt, if_neg (mt (hf b List.mem_cons_self).mp hlt), List.map_cons, hrest]

theorem map_insertAfter (rank' : β → κ) (f : α → β) (a : α) (l : List α)
    (hf : ∀ a, rank' (f a) = rank a) :
    (insertAfter rank a l).map f = insertAfter rank' (f a) (l.map f) := by
  apply map_insertAfter_of_iff
  simp only [hf, implies_true]

theorem Sorted.map {rank' : β → κ} {f : α → β} {l : List α} (hf : ∀ a, rank' (f a) = rank a) :
    Sorted rank' (l.map f) ↔ Sorted rank l := by
  simp only [Sorted, List.pairwise_map, hf]

end Ranked
