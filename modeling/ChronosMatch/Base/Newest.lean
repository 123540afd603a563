import Mathlib.Data.List.DropRight
import Mathlib.Data.List.Nodup

/-!
# The newest elements of a list

A bounded buffer that is appended to holds the newest elements of what was appended: `rtake` of the list. What a
view of such a buffer shows comes down to how many elements came after an element.
-/

namespace Newest

variable {α : Type}

theorem rtake_rtake (l : List α) (m n : Nat) : (l.rtake m).rtake n = l.rtake (min n m) := by
  rw [List.rtake, List.rtake, List.rtake, List.drop_drop, List.length_drop]
  congr 1
  omega

theorem map_rtake {β : Type} (f : α → β) (l : List α) (n : Nat) : (l.rtake n).map f = (l.map f).rtake n := by
  simp only [List.rtake, List.map_drop, List.length_map]

theorem length_rtake (l : List α) (n : Nat) : (l.rtake n).length = min n l.length := by
  rw [List.rtake, List.length_drop]
  omega

theorem rtake_suffix (l : List α) (n : Nat) : l.rtake n <:+ l := List.drop_suffix _ _

theorem rtake_append_of_le {l after : List α} {n : Nat} (h : n ≤ after.length) :
    (l ++ after).rtake n = after.rtake n := by
  rw [List.rtake, List.rtake, List.length_append, List.drop_append, List.drop_eq_nil_of_le (by omega), List.nil_append]
  congr 1
  omega

theorem mem_rtake_of_lt {before after : List α} {a : α} {n : Nat} (h : after.length < n) :
    a ∈ (before ++ a :: after).rtake n := by
  rw [List.rtake, List.length_append, List.length_cons, List.drop_append_of_le_length (by omega)]
  exact List.mem_append_right _ List.mem_cons_self

theorem last_unique {p : α → Prop} {before before' after after' : List α} {a a' : α}
    (h : before ++ a :: after = before' ++ a' :: after') (ha : p a) (ha' : p a') (hlast : ∀ b ∈ after, ¬ p b)
    (hlast' : ∀ b ∈ after', ¬ p b) : a = a' ∧ after = after' := by
  obtain ⟨between, -, hrest⟩ | ⟨between, -, hrest⟩ := List.append_eq_append_iff.mp h
  · cases between with
    | nil => exact List.cons.inj hrest
    | cons b between =>
        obtain ⟨-, rfl⟩ := List.cons.inj hrest
        exact absurd ha' (hlast a' (List.mem_append_right _ List.mem_cons_self))
  · cases between with
    | nil =>
        obtain ⟨rfl, rfl⟩ := List.cons.inj hrest
        exact ⟨rfl, rfl⟩
    | cons b between =>
        obtain ⟨-, rfl⟩ := List.cons.inj hrest
        exact absurd ha (hlast' a (List.mem_append_right _ List.mem_cons_self))

theorem getLast?_rtake (l : List α) {n : Nat} (h : 0 < n) : (l.rtake n).getLast? = l.getLast? := by
  obtain ⟨m, rfl⟩ := Nat.exists_eq_add_of_lt h
  induction l using List.reverseRecOn with
  | nil => rw [List.rtake_nil]
  | append_singleton l a =>
      rw [Nat.zero_add, List.rtake_concat_succ, List.getLast?_concat, List.getLast?_concat]

/-- An object is among the newest `n` iff fewer than `n` come after it. -/
theorem any_place_rtake_iff {l before after : List (α × Nat)} {w : α × Nat} (hplaces : (l.map Prod.snd).Nodup)
    (hl : l = before ++ w :: after) (n : Nat) :
    ((l.rtake n).any fun w' => w.2 = w'.2) = true ↔ after.length < n := by
  subst hl
  rw [List.any_eq_true]
  constructor
  · rintro ⟨w', hmem, hplace⟩
    by_contra hfew
    rw [← List.singleton_append, ← List.append_assoc, rtake_append_of_le (not_lt.mp hfew)] at hmem
    rw [List.map_append, List.map_cons] at hplaces
    have hnot := (List.nodup_cons.mp hplaces.of_append_right).1
    exact hnot (of_decide_eq_true hplace ▸ List.mem_map_of_mem ((rtake_suffix _ _).subset hmem))
  · intro hfew
    exact ⟨w, mem_rtake_of_lt hfew, decide_eq_true rfl⟩

end Newest
