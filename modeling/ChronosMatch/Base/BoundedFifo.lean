import Mathlib.Tactic.Common

/-!
# Bounded queues

A first-in, first-out queue that never holds more than its capacity: `enqueue` has no result on a full queue
and `dequeue` none on an empty one.
-/

structure BoundedFifo (α : Type*) (capacity : Nat) where
  items : List α
  length_le : items.length ≤ capacity

namespace BoundedFifo

variable {α : Type*} {capacity : Nat}

@[ext] theorem ext {q q' : BoundedFifo α capacity} (h : q.items = q'.items) : q = q' := by
  cases q
  cases q'
  congr

def empty : BoundedFifo α capacity := ⟨[], Nat.zero_le _⟩

theorem length_concat_le {l : List α} (h : l.length < capacity) (a : α) : (l ++ [a]).length ≤ capacity := by
  rw [List.length_append, List.length_singleton]
  exact h

def enqueue (a : α) (q : BoundedFifo α capacity) : Option (BoundedFifo α capacity) :=
  if h : q.items.length < capacity then some ⟨q.items ++ [a], length_concat_le h a⟩ else none

theorem length_tail_le (q : BoundedFifo α capacity) : q.items.tail.length ≤ capacity := by
  rw [List.length_tail]
  exact Nat.le_trans (Nat.sub_le _ _) q.length_le

def dequeue (q : BoundedFifo α capacity) : Option (α × BoundedFifo α capacity) :=
  q.items.head?.map fun a => (a, ⟨q.items.tail, q.length_tail_le⟩)

theorem enqueue_eq_none {a : α} {q : BoundedFifo α capacity} :
    q.enqueue a = none ↔ q.items.length = capacity := by
  have hle := q.length_le
  rw [enqueue]
  split
  · simp only [reduceCtorEq, false_iff]
    omega
  · simp only [true_iff]
    omega

theorem enqueue_eq_some {a : α} {q q' : BoundedFifo α capacity} :
    q.enqueue a = some q' ↔ q.items.length < capacity ∧ q'.items = q.items ++ [a] := by
  rw [enqueue]
  split
  · next hlt => simp only [Option.some_inj, BoundedFifo.ext_iff, hlt, true_and, eq_comm]
  · next hge => simp only [reduceCtorEq, hge, false_and]

theorem dequeue_eq_none {q : BoundedFifo α capacity} : q.dequeue = none ↔ q.items = [] := by
  rw [dequeue, Option.map_eq_none_iff, List.head?_eq_none_iff]

theorem dequeue_eq_some {a : α} {q q' : BoundedFifo α capacity} :
    q.dequeue = some (a, q') ↔ q.items = a :: q'.items := by
  obtain ⟨items, hle⟩ := q
  rw [dequeue]
  cases items with
  | nil => simp only [List.head?_nil, Option.map_none, reduceCtorEq]
  | cons b items =>
      simp only [List.head?_cons, Option.map_some, Option.some_inj, Prod.mk.injEq, BoundedFifo.ext_iff, List.tail_cons,
        List.cons.injEq]

end BoundedFifo
