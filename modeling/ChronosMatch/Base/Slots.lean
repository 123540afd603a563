import ChronosMatch.Base.Bytes
import Mathlib.Data.Nat.ModEq

/-!
# Slots

A memory with a header and, behind it, slots of one size which the sequence numbers use in turn. Numbers
less than a lap apart use different slots, so a store in the slot of one leaves the slot of the other. What
stands in the slots of consecutive numbers is a queue: a store behind them appends to it.
-/

namespace Bytes

structure SlotLayout where
  header : Nat
  count : Nat
  size : Nat
  count_pos : 0 < count

namespace SlotLayout

/-- Where the slot of a sequence number starts. -/
def offset (layout : SlotLayout) (seq : Nat) : Nat := layout.header + seq % layout.count * layout.size

def length (layout : SlotLayout) : Nat := layout.header + layout.count * layout.size

variable (layout : SlotLayout)

theorem header_le_offset (seq : Nat) : layout.header ≤ layout.offset seq := Nat.le_add_right _ _

theorem header_le_length : layout.header ≤ layout.length := Nat.le_add_right _ _

theorem offset_le (seq : Nat) : layout.offset seq + layout.size ≤ layout.length := by
  have hlt : (seq % layout.count + 1) * layout.size ≤ layout.count * layout.size :=
    Nat.mul_le_mul_right _ (Nat.mod_lt _ layout.count_pos)
  rw [Nat.succ_mul] at hlt
  rw [offset, length]
  omega

theorem offset_disjoint {a b : Nat} (h : a % layout.count ≠ b % layout.count) :
    layout.offset a + layout.size ≤ layout.offset b ∨ layout.offset b + layout.size ≤ layout.offset a := by
  have hmul : ∀ {i j : Nat}, i < j → i * layout.size + layout.size ≤ j * layout.size := by
    intro i j hlt
    rw [← Nat.succ_mul]
    exact Nat.mul_le_mul_right _ hlt
  rw [offset, offset]
  rcases Nat.lt_or_gt_of_ne h with hlt | hgt
  · have := hmul hlt
    omega
  · have := hmul hgt
    omega

theorem mod_ne_of_lt {a b : Nat} (hlt : a < b) (hlap : b < a + layout.count) :
    a % layout.count ≠ b % layout.count := by
  intro heq
  have hdvd : layout.count ∣ b - a := (Nat.modEq_iff_dvd' hlt.le).mp heq
  have := Nat.le_of_dvd (by omega) hdvd
  omega

variable {α : Type*} {memory data : List α}

theorem slice_store (hmemory : memory.length = layout.length) (hdata : data.length = layout.size) (seq other : Nat) :
    slice (layout.offset other) layout.size (store (layout.offset seq) data memory) =
      if other % layout.count = seq % layout.count then data
      else slice (layout.offset other) layout.size memory := by
  have hfits : layout.offset seq + data.length ≤ memory.length := by
    rw [hmemory, hdata]
    exact layout.offset_le seq
  split
  · next hsame =>
      have hstored := slice_store_same hfits
      rw [hdata] at hstored
      rwa [offset, hsame]
  · next hother =>
      apply slice_store_of_disjoint hfits
      rw [hdata]
      exact layout.offset_disjoint hother

theorem slice_header_store (hmemory : memory.length = layout.length) (hdata : data.length = layout.size) (seq : Nat)
    {a n : Nat} (ha : a + n ≤ layout.header) :
    slice a n (store (layout.offset seq) data memory) = slice a n memory := by
  refine slice_store_of_disjoint ?_ (.inl (ha.trans (layout.header_le_offset seq)))
  rw [hmemory, hdata]
  exact layout.offset_le seq

theorem slice_offset_store (hmemory : layout.header ≤ memory.length) {a : Nat}
    (ha : a + data.length ≤ layout.header) (seq : Nat) :
    slice (layout.offset seq) layout.size (store a data memory) = slice (layout.offset seq) layout.size memory :=
  slice_store_of_disjoint (ha.trans hmemory) (.inr (ha.trans (layout.header_le_offset seq)))

/-! ### Consecutive slots -/

theorem offset_congr {a b : Nat} (h : a % layout.count = b % layout.count) : layout.offset a = layout.offset b := by
  rw [offset, offset, h]

/-- What stands in the slots of `n` consecutive numbers. -/
def contents (start n : Nat) (memory : List α) : List (List α) :=
  (List.range n).map fun i => slice (layout.offset (start + i)) layout.size memory

@[simp] theorem length_contents (start n : Nat) (memory : List α) : (layout.contents start n memory).length = n := by
  rw [contents, List.length_map, List.length_range]

theorem contents_succ (start n : Nat) (memory : List α) : layout.contents start (n + 1) memory =
    slice (layout.offset start) layout.size memory :: layout.contents (start + 1) n memory := by
  rw [contents, contents, List.range_succ_eq_map, List.map_cons, List.map_map]
  congr 2
  funext i
  rw [Function.comp_apply, Nat.succ_eq_add_one, Nat.add_right_comm, Nat.add_assoc start i 1]

theorem contents_concat (start n : Nat) (memory : List α) : layout.contents start (n + 1) memory =
    layout.contents start n memory ++ [slice (layout.offset (start + n)) layout.size memory] := by
  rw [contents, contents, List.range_succ, List.map_append, List.map_singleton]

/-- Only the slot of the first number matters. -/
theorem contents_start_congr {a b : Nat} (h : a % layout.count = b % layout.count) (n : Nat) (memory : List α) :
    layout.contents a n memory = layout.contents b n memory := by
  apply List.map_congr_left
  intro i _
  rw [layout.offset_congr (Nat.ModEq.add_right i h)]

theorem contents_congr {memory' : List α} (h : ∀ seq, slice (layout.offset seq) layout.size memory' =
    slice (layout.offset seq) layout.size memory) (start n : Nat) :
    layout.contents start n memory' = layout.contents start n memory := by
  apply List.map_congr_left
  intro i _
  exact h (start + i)

theorem length_of_mem_contents (hmemory : memory.length = layout.length) {start n : Nat} {record : List α}
    (hrecord : record ∈ layout.contents start n memory) : record.length = layout.size := by
  obtain ⟨i, -, rfl⟩ := List.mem_map.mp hrecord
  apply length_slice
  rw [hmemory]
  exact layout.offset_le _

/-- A store behind the last slot appends what was stored, as long as the lap is not full. -/
theorem contents_store (hmemory : memory.length = layout.length) (hdata : data.length = layout.size) (start : Nat)
    {n : Nat} (hn : n < layout.count) : layout.contents start (n + 1) (store (layout.offset (start + n)) data memory) =
      layout.contents start n memory ++ [data] := by
  rw [contents_concat, layout.slice_store hmemory hdata, if_pos rfl]
  congr 1
  apply List.map_congr_left
  intro i hi
  have hlt := List.mem_range.mp hi
  rw [layout.slice_store hmemory hdata, if_neg (layout.mod_ne_of_lt (by omega) (by omega))]

end SlotLayout

end Bytes
