import Mathlib.Algebra.BigOperators.Group.List.Basic
import Mathlib.Tactic.Common

/-!
# Bytes

Little-endian integers, and slices of a fixed-size memory. A slice is what reading `memory[a:b]` gives, a
store what assigning to it leaves; what a store does to any slice is decided by where the two lie.
-/

namespace Bytes

/-! ### Little-endian integers -/

def encodeLE : (width : Nat) → Nat → List UInt8
  | 0, _ => []
  | width + 1, n => UInt8.ofNat n :: encodeLE width (n / 256)

def decodeLE : List UInt8 → Nat
  | [] => 0
  | b :: bs => b.toNat + 256 * decodeLE bs

@[simp] theorem length_encodeLE (width n : Nat) : (encodeLE width n).length = width := by
  induction width generalizing n with
  | zero => rfl
  | succ width ih => rw [encodeLE, List.length_cons, ih]

theorem decodeLE_encodeLE {width n : Nat} (h : n < 256 ^ width) : decodeLE (encodeLE width n) = n := by
  induction width generalizing n with
  | zero =>
      rw [pow_zero] at h
      rw [encodeLE, decodeLE]
      omega
  | succ width ih =>
      have hquotient : n / 256 < 256 ^ width := by
        rw [Nat.div_lt_iff_lt_mul (by decide), ← pow_succ]
        exact h
      rw [encodeLE, decodeLE, ih hquotient, UInt8.toNat_ofNat']
      omega

theorem decodeLE_lt (l : List UInt8) : decodeLE l < 256 ^ l.length := by
  induction l with
  | nil => exact Nat.one_pos
  | cons b l ih =>
      have hb := b.toNat_lt
      rw [decodeLE, List.length_cons, pow_succ]
      omega

/-- Every byte string of a width is the encoding of what it decodes to. -/
theorem encodeLE_decodeLE (l : List UInt8) : encodeLE l.length (decodeLE l) = l := by
  induction l with
  | nil => rfl
  | cons b l ih =>
      have hb := b.toNat_lt
      have hfirst : UInt8.ofNat (b.toNat + 256 * decodeLE l) = b := by
        apply UInt8.toNat_inj.mp
        rw [UInt8.toNat_ofNat']
        omega
      have hrest : (b.toNat + 256 * decodeLE l) / 256 = decodeLE l := by omega
      rw [List.length_cons, decodeLE, encodeLE, hfirst, hrest, ih]

theorem decodeLE_replicate_zero (n : Nat) : decodeLE (List.replicate n 0) = 0 := by
  induction n with
  | zero => rfl
  | succ n ih =>
      rw [List.replicate_succ, decodeLE, ih]
      rfl

/-! ### Slices and stores -/

section Slices

variable {α : Type*}

def slice (offset length : Nat) (memory : List α) : List α := (memory.drop offset).take length

def store (offset : Nat) (data memory : List α) : List α :=
  memory.take offset ++ data ++ memory.drop (offset + data.length)

theorem getElem?_slice (offset length i : Nat) (memory : List α) :
    (slice offset length memory)[i]? = if i < length then memory[offset + i]? else none := by
  rw [slice, List.getElem?_take]
  split
  · rw [List.getElem?_drop]
  · rfl

theorem length_slice {offset length : Nat} {memory : List α} (h : offset + length ≤ memory.length) :
    (slice offset length memory).length = length := by
  rw [slice, List.length_take, List.length_drop]
  omega

variable {offset : Nat} {data memory : List α} (h : offset + data.length ≤ memory.length)

include h

@[simp] theorem length_store : (store offset data memory).length = memory.length := by
  rw [store, List.length_append, List.length_append, List.length_take, List.length_drop]
  omega

theorem getElem?_store (i : Nat) : (store offset data memory)[i]? =
    if i < offset then memory[i]? else if i < offset + data.length then data[i - offset]? else memory[i]? := by
  have htake : (memory.take offset).length = offset := by
    rw [List.length_take]
    omega
  rw [store, List.append_assoc]
  split
  · next hlt =>
      rw [List.getElem?_append_left (by omega), List.getElem?_take_of_lt hlt]
  · next hge =>
      rw [List.getElem?_append_right (by omega), htake]
      split
      · rw [List.getElem?_append_left (by omega)]
      · rw [List.getElem?_append_right (by omega), List.getElem?_drop]
        congr 1
        omega

theorem slice_store_of_disjoint {a n : Nat} (hdisjoint : a + n ≤ offset ∨ offset + data.length ≤ a) :
    slice a n (store offset data memory) = slice a n memory := by
  apply List.ext_getElem?
  intro i
  rw [getElem?_slice, getElem?_slice]
  split
  · rw [getElem?_store h]
    split
    · rfl
    · rw [if_neg (by omega)]
  · rfl

theorem slice_store_of_within {a n : Nat} (ha : offset ≤ a) (hn : a + n ≤ offset + data.length) :
    slice a n (store offset data memory) = slice (a - offset) n data := by
  apply List.ext_getElem?
  intro i
  rw [getElem?_slice, getElem?_slice]
  split
  · rw [getElem?_store h, if_neg (by omega), if_pos (by omega)]
    congr 1
    omega
  · rfl

theorem drop_store_of_before {a : Nat} (ha : offset + data.length ≤ a) :
    (store offset data memory).drop a = memory.drop a := by
  apply List.ext_getElem?
  intro i
  rw [List.getElem?_drop, List.getElem?_drop, getElem?_store h, if_neg (by omega), if_neg (by omega)]

theorem drop_store_of_behind {a : Nat} (ha : a ≤ offset) :
    (store offset data memory).drop a = store (offset - a) data (memory.drop a) := by
  have hrest : offset - a + data.length ≤ (memory.drop a).length := by
    rw [List.length_drop]
    omega
  apply List.ext_getElem?
  intro i
  rw [List.getElem?_drop, getElem?_store h, getElem?_store hrest, List.getElem?_drop]
  split
  · rw [if_pos (by omega)]
  · split
    · rw [if_neg (by omega), if_pos (by omega)]
      congr 1
      omega
    · rw [if_neg (by omega), if_neg (by omega)]

theorem store_store {data' : List α} (hlength : data'.length = data.length) :
    store offset data' (store offset data memory) = store offset data' memory := by
  have h' : offset + data'.length ≤ memory.length := by omega
  have hstored : offset + data'.length ≤ (store offset data memory).length := by rwa [length_store h]
  ext1 i
  rw [getElem?_store hstored, getElem?_store h', getElem?_store h]
  split
  · rfl
  · split
    · rfl
    · rw [if_neg (by omega)]

theorem slice_store_same : slice offset data.length (store offset data memory) = data := by
  rw [slice_store_of_within h (Nat.le_refl _) (Nat.le_refl _), Nat.sub_self, slice, List.drop_zero, List.take_length]

/-- A store changes nothing if and only if what it stores is there already. -/
theorem store_eq_self_iff : store offset data memory = memory ↔ slice offset data.length memory = data := by
  constructor
  · intro hsame
    rw [← hsame]
    exact slice_store_same h
  · intro hslice
    ext1 i
    rw [getElem?_store h]
    split
    · rfl
    · split
      · rw [← hslice, getElem?_slice, if_pos (by omega), show offset + (i - offset) = i by omega]
      · rfl

omit h

theorem slice_append_left {a n : Nat} {l : List α} (h : a + n ≤ l.length) (l' : List α) :
    slice a n (l ++ l') = slice a n l := by
  apply List.ext_getElem?
  intro i
  rw [getElem?_slice, getElem?_slice]
  split
  · rw [List.getElem?_append_left (by omega)]
  · rfl

theorem slice_append_right {a n : Nat} {l : List α} (h : l.length ≤ a) (l' : List α) :
    slice a n (l ++ l') = slice (a - l.length) n l' := by
  apply List.ext_getElem?
  intro i
  rw [getElem?_slice, getElem?_slice]
  split
  · rw [List.getElem?_append_right (by omega)]
    congr 1
    omega
  · rfl

theorem slice_append_slice (a n m : Nat) (l : List α) : slice a n l ++ slice (a + n) m l = slice a (n + m) l := by
  rw [slice, slice, slice, ← List.drop_drop, List.take_add]

theorem slice_length (l : List α) : slice 0 l.length l = l := by
  rw [slice, List.drop_zero, List.take_length]

theorem slice_replicate (a n m : Nat) (x : α) : slice a n (List.replicate m x) = List.replicate (min n (m - a)) x := by
  rw [slice, List.drop_replicate, List.take_replicate]

end Slices

theorem encodeLE_decodeLE_slice {a n : Nat} {memory : List UInt8} (h : a + n ≤ memory.length) :
    encodeLE n (decodeLE (slice a n memory)) = slice a n memory := by
  have hencode := encodeLE_decodeLE (slice a n memory)
  rwa [length_slice h] at hencode

theorem decodeLE_slice_lt {a n : Nat} {memory : List UInt8} (h : a + n ≤ memory.length) :
    decodeLE (slice a n memory) < 256 ^ n := by
  have hlt := decodeLE_lt (slice a n memory)
  rwa [length_slice h] at hlt

theorem slice_encodeLE (width n : Nat) : slice 0 width (encodeLE width n) = encodeLE width n := by
  have h := slice_length (encodeLE width n)
  rwa [length_encodeLE] at h

end Bytes
