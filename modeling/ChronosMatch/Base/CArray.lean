import Mathlib.Data.List.Induction
import Mathlib.Tactic.Common

/-!
# Cells of allocated memory

A block from `malloc` or `realloc` is the list of its cells, and a cell nobody has written yet is empty.
A load from an empty cell and an access beyond the block are undefined behaviour, so both give `none`:
a computation that returns a value has stayed inside its blocks. `Holds` is the part of a block that an
array with a count uses, and each loop over a block has one lemma about the blocks that hold a list.
-/

namespace CArray

variable {α : Type}

/-- `cells[i]` -/
def load (cells : List (Option α)) (i : Nat) : Option α := cells[i]?.join

/-- `cells[i] = x` -/
def store (cells : List (Option α)) (i : Nat) (x : α) : Option (List (Option α)) :=
  if i < cells.length then some (cells.set i (some x)) else none

/-- The block `realloc` gives for a new number of cells: the old contents as far as they fit. -/
def realloc (cells : List (Option α)) (n : Nat) : List (Option α) :=
  cells.take n ++ List.replicate (n - cells.length) none

/-- `for i in range(first, first + steps)`, left at the first cell with the property. The result is
where the loop broke off, or the end of the range. -/
def scan (p : α → Bool) (cells : List (Option α)) : (first steps : Nat) → Option Nat
  | i, 0 => some i
  | i, steps + 1 => do
      let cell ← load cells i
      if p cell then return i else scan p cells (i + 1) steps

/-- `for i in range(count, position, -1): cells[i] = cells[i - 1]` -/
def shiftUp (position : Nat) : List (Option α) → (count : Nat) → Option (List (Option α))
  | cells, 0 => some cells
  | cells, i + 1 =>
      if position ≤ i then do
        let cell ← load cells i
        let cells ← store cells (i + 1) cell
        shiftUp position cells i
      else some cells

/-- `for i in range(first, first + steps): cells[i - 1] = cells[i]` -/
def shiftDown : List (Option α) → (first steps : Nat) → Option (List (Option α))
  | cells, _, 0 => some cells
  | cells, i, steps + 1 => do
      let cell ← load cells i
      let cells ← store cells (i - 1) cell
      shiftDown cells (i + 1) steps

/-- `[f(cells[i]) for i in range(first, first + steps)]` -/
def collect {β : Type} (f : α → β) (cells : List (Option α)) : (first steps : Nat) → Option (List β)
  | _, 0 => some []
  | i, steps + 1 => do
      let cell ← load cells i
      let rest ← collect f cells (i + 1) steps
      return f cell :: rest

/-- `for i in range(first, first + steps)`, with local variables that each cell changes. -/
def fold {β : Type} (f : β → α → β) (cells : List (Option α)) : (first steps : Nat) → β → Option β
  | _, 0, s => some s
  | i, steps + 1, s => do
      let cell ← load cells i
      fold f cells (i + 1) steps (f s cell)

/-- The first cells of the block hold a list. -/
def Holds (cells : List (Option α)) (xs : List α) : Prop := xs.map some <+: cells

theorem Holds.length_le {cells : List (Option α)} {xs : List α} (h : Holds cells xs) :
    xs.length ≤ cells.length := by
  simpa using List.IsPrefix.length_le h

theorem holds_nil (cells : List (Option α)) : Holds cells [] := List.nil_prefix

/-! ### Single accesses -/

theorem load_append (xs : List (Option α)) (x : α) (rest : List (Option α)) :
    load (xs ++ some x :: rest) xs.length = some x := by
  simp [load]

theorem store_append (xs : List (Option α)) (cell : Option α) (rest : List (Option α)) (x : α) :
    store (xs ++ cell :: rest) xs.length x = some (xs ++ some x :: rest) := by
  simp [store]

theorem Holds.load {cells : List (Option α)} {xs : List α} (h : Holds cells xs) (i : Nat) (hi : i < xs.length) :
    load cells i = some xs[i] := by
  obtain ⟨rest, rfl⟩ := h
  rw [CArray.load, List.getElem?_append_left (by simpa using hi)]
  simp [hi]

theorem Holds.push {cells : List (Option α)} {xs : List α} (h : Holds cells xs) (hroom : xs.length < cells.length)
    (x : α) : ∃ cells', store cells xs.length x = some cells' ∧ cells'.length = cells.length ∧
      Holds cells' (xs ++ [x]) := by
  obtain ⟨rest, rfl⟩ := h
  cases rest with
  | nil => simp at hroom
  | cons cell rest =>
      refine ⟨xs.map some ++ some x :: rest, ?_, by simp, rest, by simp⟩
      simpa using store_append (xs.map some) cell rest x

theorem Holds.setHead {cells : List (Option α)} {x : α} {xs : List α} (h : Holds cells (x :: xs)) (y : α) :
    ∃ cells', store cells 0 y = some cells' ∧ cells'.length = cells.length ∧ Holds cells' (y :: xs) := by
  obtain ⟨rest, rfl⟩ := h
  exact ⟨some y :: (xs.map some ++ rest), by simp [store], by simp, rest, by simp⟩

/-! ### Growing -/

@[simp] theorem length_realloc (cells : List (Option α)) (n : Nat) : (realloc cells n).length = n := by
  simp only [realloc, List.length_append, List.length_take, List.length_replicate]
  omega

theorem Holds.realloc {cells : List (Option α)} {xs : List α} (h : Holds cells xs) {n : Nat}
    (hn : cells.length ≤ n) : Holds (realloc cells n) xs := by
  rw [CArray.realloc, List.take_of_length_le hn]
  exact h.trans (List.prefix_append _ _)

/-! ### Loops -/

theorem Holds.scan {cells : List (Option α)} {xs : List α} (h : Holds cells xs) (p : α → Bool) :
    scan p cells 0 xs.length = some (xs.findIdx p) := by
  obtain ⟨rest, rfl⟩ := h
  suffices hfrom : ∀ (seen todo : List α), CArray.scan p ((seen ++ todo).map some ++ rest) seen.length todo.length =
      some (seen.length + todo.findIdx p) by simpa using hfrom [] xs
  intro seen todo
  induction todo generalizing seen with
  | nil => simp [CArray.scan]
  | cons x todo ih =>
      have hload : CArray.load ((seen ++ x :: todo).map some ++ rest) seen.length = some x := by
        simpa using load_append (seen.map some) x (todo.map some ++ rest)
      rw [List.length_cons, CArray.scan, hload, Option.bind_eq_bind, Option.bind_some, List.findIdx_cons]
      by_cases hx : p x = true
      · simp [hx]
      · have hnext := ih (seen ++ [x])
        rw [List.append_assoc, List.singleton_append, List.length_append, List.length_singleton] at hnext
        rw [if_neg hx, hnext, Bool.eq_false_iff.mpr hx]
        congr 1
        simp only [cond_false]
        omega

/-- The cells from the position on move up by one. What is left at the position does not matter. -/
theorem shiftUp_append (front back : List α) (cell : Option α) (rest : List (Option α)) :
    ∃ gap, shiftUp front.length ((front ++ back).map some ++ cell :: rest) (front ++ back).length =
      some (front.map some ++ gap :: (back.map some ++ rest)) := by
  induction back using List.reverseRecOn generalizing cell rest with
  | nil =>
      refine ⟨cell, ?_⟩
      cases front with
      | nil => simp [shiftUp]
      | cons x front =>
          rw [List.append_nil, List.length_cons, shiftUp, if_neg (by omega)]
          simp
  | append_singleton back x ih =>
      obtain ⟨gap, hshift⟩ := ih (some x) (some x :: rest)
      refine ⟨gap, ?_⟩
      have hload : load ((front ++ (back ++ [x])).map some ++ cell :: rest) (front ++ back).length = some x := by
        simpa using load_append ((front ++ back).map some) x (cell :: rest)
      have hstore : store ((front ++ (back ++ [x])).map some ++ cell :: rest) ((front ++ back).length + 1) x =
          some ((front ++ back).map some ++ some x :: some x :: rest) := by
        simpa [Nat.add_assoc] using store_append ((front ++ back).map some ++ [some x]) cell rest x
      rw [← List.append_assoc, List.length_append, List.length_singleton, shiftUp,
        if_pos (by rw [List.length_append]; exact Nat.le_add_right _ _), List.append_assoc, hload,
        Option.bind_eq_bind, Option.bind_some, hstore, Option.bind_eq_bind, Option.bind_some, hshift]
      simp

theorem Holds.insert {cells : List (Option α)} {xs : List α} (h : Holds cells xs) (hroom : xs.length < cells.length)
    (position : Nat) (hpos : position ≤ xs.length) (x : α) :
    ∃ shifted cells', shiftUp position cells xs.length = some shifted ∧ store shifted position x = some cells' ∧
      cells'.length = cells.length ∧ Holds cells' (xs.take position ++ x :: xs.drop position) := by
  obtain ⟨rest, rfl⟩ := h
  cases rest with
  | nil => simp at hroom
  | cons cell rest =>
      obtain ⟨gap, hshift⟩ := shiftUp_append (xs.take position) (xs.drop position) cell rest
      rw [List.take_append_drop, List.length_take, Nat.min_eq_left hpos] at hshift
      have hstore := store_append ((xs.take position).map some) gap ((xs.drop position).map some ++ rest) x
      rw [List.length_map, List.length_take, Nat.min_eq_left hpos] at hstore
      refine ⟨_, _, hshift, hstore, ?_, rest, ?_⟩
      · simp only [List.length_append, List.length_map, List.length_cons, List.length_take, List.length_drop]
        omega
      · simp

/-- The cells behind the gap move down by one. -/
theorem shiftDown_append (seen todo : List α) (cell : Option α) (rest : List (Option α)) :
    ∃ gap, shiftDown (seen.map some ++ cell :: (todo.map some ++ rest)) (seen.length + 1) todo.length =
      some ((seen ++ todo).map some ++ gap :: rest) := by
  induction todo generalizing seen cell with
  | nil => exact ⟨cell, by simp [shiftDown]⟩
  | cons x todo ih =>
      obtain ⟨gap, hshift⟩ := ih (seen ++ [x]) (some x)
      refine ⟨gap, ?_⟩
      have hload : load (seen.map some ++ cell :: ((x :: todo).map some ++ rest)) (seen.length + 1) = some x := by
        simpa using load_append (seen.map some ++ [cell]) x (todo.map some ++ rest)
      have hstore : store (seen.map some ++ cell :: ((x :: todo).map some ++ rest)) (seen.length + 1 - 1) x =
          some (seen.map some ++ some x :: ((x :: todo).map some ++ rest)) := by
        simpa using store_append (seen.map some) cell ((x :: todo).map some ++ rest) x
      rw [List.length_cons, shiftDown, hload, Option.bind_eq_bind, Option.bind_some, hstore, Option.bind_eq_bind,
        Option.bind_some]
      simpa using hshift

theorem Holds.removeFirst {cells : List (Option α)} {x : α} {xs : List α} (h : Holds cells (x :: xs)) :
    ∃ cells', shiftDown cells 1 xs.length = some cells' ∧ cells'.length = cells.length ∧ Holds cells' xs := by
  obtain ⟨rest, rfl⟩ := h
  obtain ⟨gap, hshift⟩ := shiftDown_append [] xs (some x) rest
  refine ⟨xs.map some ++ gap :: rest, hshift, ?_, gap :: rest, rfl⟩
  simp only [List.length_append, List.length_map, List.length_cons]
  omega

theorem Holds.collect {β : Type} {cells : List (Option α)} {xs : List α} (h : Holds cells xs) (f : α → β)
    (first : Nat) : collect f cells first (xs.length - first) = some ((xs.drop first).map f) := by
  rcases hsteps : xs.length - first with _ | steps
  · rw [List.drop_eq_nil_of_le (by omega)]
    rfl
  · have hlt : first < xs.length := by omega
    have hnext := Holds.collect h f (first + 1)
    rw [show xs.length - (first + 1) = steps by omega] at hnext
    rw [CArray.collect, h.load first hlt, Option.bind_eq_bind, Option.bind_some, hnext, Option.bind_eq_bind,
      Option.bind_some, List.drop_eq_getElem_cons hlt, List.map_cons]
    rfl
termination_by xs.length - first

theorem Holds.fold {β : Type} {cells : List (Option α)} {xs : List α} (h : Holds cells xs) (f : β → α → β) (s : β) :
    fold f cells 0 xs.length s = some (xs.foldl f s) := by
  obtain ⟨rest, rfl⟩ := h
  suffices hfrom : ∀ (seen todo : List α) (s : β),
      CArray.fold f ((seen ++ todo).map some ++ rest) seen.length todo.length s = some (todo.foldl f s) by
    exact hfrom [] xs s
  intro seen todo s
  induction todo generalizing seen s with
  | nil => rfl
  | cons x todo ih =>
      have hload : CArray.load ((seen ++ x :: todo).map some ++ rest) seen.length = some x := by
        simpa using load_append (seen.map some) x (todo.map some ++ rest)
      have hnext := ih (seen ++ [x]) (f s x)
      rw [List.append_assoc, List.singleton_append, List.length_append, List.length_singleton] at hnext
      rw [List.length_cons, CArray.fold, hload, Option.bind_eq_bind, Option.bind_some, hnext, List.foldl_cons]

end CArray
