import Mathlib.Data.List.Basic
import Mathlib.Tactic.Common

/-!
# Shifting the cells of an array

Inserting into a C array and removing its first cell move the cells behind by one, one assignment at a
time. The loops are written as the loops they are, and `insertAt_eq` and `removeFirst_eq` say what
they leave in the array.
-/

namespace ArrayShift

variable {α : Type*}

/-- `cells[dst] = cells[src]` -/
def move (cells : List α) (dst src : Nat) : List α :=
  match cells[src]? with
  | some cell => cells.set dst cell
  | none => cells

/-- `for i in range(count, position, -1): cells[i] = cells[i - 1]` -/
def shiftUp (position : Nat) : List α → Nat → List α
  | cells, 0 => cells
  | cells, i + 1 => if position ≤ i then shiftUp position (move cells (i + 1) i) i else cells

/-- `for i in range(first, first + steps): cells[i - 1] = cells[i]` -/
def shiftDown : List α → (first steps : Nat) → List α
  | cells, _, 0 => cells
  | cells, i, steps + 1 => shiftDown (move cells (i - 1) i) (i + 1) steps

/-- Insertion at a position. The array has a free cell behind its last one, whose contents are lost. -/
def insertAt (cells : List α) (position : Nat) (x : α) : List α :=
  (shiftUp position (cells ++ [x]) cells.length).set position x

/-- Removal of the first cell; the count drops by one. -/
def removeFirst (cells : List α) : List α :=
  (shiftDown cells 1 (cells.length - 1)).take (cells.length - 1)

@[simp] theorem length_move (cells : List α) (dst src : Nat) : (move cells dst src).length = cells.length := by
  unfold move
  split <;> simp

theorem getElem?_move {cells : List α} {dst src : Nat} (hdst : dst < cells.length) (hsrc : src < cells.length)
    (j : Nat) : (move cells dst src)[j]? = if j = dst then cells[src]? else cells[j]? := by
  have hcell : cells[src]? = some cells[src] := List.getElem?_eq_getElem hsrc
  rw [move, hcell]
  by_cases hj : j = dst
  · subst j
    simp [hdst]
  · rw [if_neg hj, List.getElem?_set_ne (Ne.symm hj)]

@[simp] theorem length_shiftUp (position : Nat) (cells : List α) (n : Nat) :
    (shiftUp position cells n).length = cells.length := by
  induction n generalizing cells with
  | zero => rfl
  | succ n ih =>
      rw [shiftUp]
      split
      · rw [ih, length_move]
      · rfl

theorem getElem?_shiftUp (position : Nat) {cells : List α} {n : Nat} (hn : n < cells.length) (j : Nat) :
    (shiftUp position cells n)[j]? = if position < j ∧ j ≤ n then cells[j - 1]? else cells[j]? := by
  induction n generalizing cells with
  | zero =>
      rw [shiftUp, if_neg (by omega)]
  | succ n ih =>
      rw [shiftUp]
      split
      · next hpos =>
          rw [ih (by simpa using Nat.lt_of_succ_lt hn), getElem?_move hn (Nat.lt_of_succ_lt hn),
            getElem?_move hn (Nat.lt_of_succ_lt hn)]
          by_cases hj : j = n + 1
          · subst j
            rw [if_neg (by omega), if_pos rfl, if_pos (by omega), Nat.add_sub_cancel]
          · by_cases hin : position < j ∧ j ≤ n
            · rw [if_pos hin, if_neg (by omega), if_pos (by omega)]
            · rw [if_neg hin, if_neg hj, if_neg (by omega)]
      · next hpos =>
          rw [if_neg (by omega)]

/-- The new element stands at the position, and the cells from there on have moved up by one. -/
theorem insertAt_eq {cells : List α} {position : Nat} (hpos : position ≤ cells.length) (x : α) :
    insertAt cells position x = cells.take position ++ x :: cells.drop position := by
  apply List.ext_getElem?
  intro j
  have hlen : cells.length < (cells ++ [x]).length := by simp
  rw [insertAt]
  rcases Nat.lt_trichotomy j position with hj | rfl | hj
  · rw [List.getElem?_set_ne (by omega), getElem?_shiftUp position hlen, if_neg (by omega),
      List.getElem?_append_left (by omega), List.getElem?_append_left (by simp; omega),
      List.getElem?_take_of_lt hj]
  · rw [List.getElem?_set_self (by simp; omega),
      List.getElem?_append_right (by simp only [List.length_take]; omega)]
    simp [Nat.min_eq_left hpos]
  · rw [List.getElem?_set_ne (by omega), getElem?_shiftUp position hlen]
    obtain ⟨k, rfl⟩ := Nat.exists_eq_add_of_lt hj
    have hright : (cells.take position ++ x :: cells.drop position)[position + k + 1]? =
        cells[position + k]? := by
      rw [List.getElem?_append_right (by simp only [List.length_take]; omega), List.length_take,
        Nat.min_eq_left hpos, show position + k + 1 - position = k + 1 by omega,
        List.getElem?_cons_succ, List.getElem?_drop]
    rw [hright]
    by_cases hin : position + k + 1 ≤ cells.length
    · rw [if_pos ⟨hj, hin⟩, List.getElem?_append_left (by omega)]
      rfl
    · rw [if_neg (fun h => hin h.2), List.getElem?_eq_none (by simp; omega),
        List.getElem?_eq_none (by omega)]

theorem getElem?_shiftDown {cells : List α} {i steps : Nat} (hi : 0 < i) (hsteps : i + steps ≤ cells.length)
    (j : Nat) : (shiftDown cells i steps)[j]? =
      if i ≤ j + 1 ∧ j + 1 < i + steps then cells[j + 1]? else cells[j]? := by
  induction steps generalizing cells i with
  | zero => rw [shiftDown, if_neg (by omega)]
  | succ steps ih =>
      rw [shiftDown, ih (by omega) (by rw [length_move]; omega), getElem?_move (by omega) (by omega),
        getElem?_move (by omega) (by omega)]
      by_cases hj : j + 1 = i
      · subst i
        rw [if_neg (by omega), if_pos (by omega), if_pos (by omega)]
      · by_cases hin : i ≤ j + 1 ∧ j + 1 < i + (steps + 1)
        · rw [if_pos (by omega), if_neg (by omega), if_pos hin]
        · rw [if_neg (by omega), if_neg (by omega), if_neg hin]

theorem removeFirst_eq (x : α) (cells : List α) : removeFirst (x :: cells) = cells := by
  apply List.ext_getElem?
  intro j
  rw [removeFirst, List.length_cons, Nat.add_sub_cancel, List.getElem?_take]
  split
  · next hj =>
      rw [getElem?_shiftDown Nat.one_pos (by simp; omega), if_pos (by omega), List.getElem?_cons_succ]
  · next hj => rw [List.getElem?_eq_none (by omega)]

end ArrayShift
