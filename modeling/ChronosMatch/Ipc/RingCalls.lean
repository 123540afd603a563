import ChronosMatch.Ipc.RingFile

/-!
# Calls on a file with the header of a ring

What a write, a read and a batch read come to once the header is known, whatever stands in the slots. Nothing
else unfolds the methods of an open handle.
-/

namespace ChronosMatch

open Bytes

namespace MmapRingBuffer

variable {shape : RingShape} {head tail dropped : Nat} {file : List UInt8} {h : MmapRingBuffer}

/-! ### Writes -/

section Writes

variable {data : List UInt8}

theorem write_misused (hmisused : h.isClosed = true ∨ data.length ≠ h.recordSize) (overwriteIfFull : Bool)
    (file : List UInt8) : ∃ err, h.write data overwriteIfFull file = (.error err, file) := by
  rw [write]
  by_cases hclosed : h.isClosed = true
  · exact ⟨_, if_pos hclosed⟩
  · rw [if_neg hclosed, if_pos (hmisused.resolve_left hclosed)]
    exact ⟨_, rfl⟩

theorem write_refused (hheader : RingHeader shape head tail dropped file) (hfits : h.Fits shape)
    (htail : tail ≤ head) (hopen : h.isClosed = false) (hdata : data.length = h.recordSize)
    (hfull : shape.capacity ≤ head - tail) : h.write data false file = (.ok false, file) := by
  rw [write, hopen, if_neg Bool.false_ne_true, if_neg (not_not.mpr hdata), hheader.readHeader hopen]
  dsimp only
  rw [hheader.planWrite hfits htail, if_pos hfull]
  rfl

/-- A write that is planned stores its record, and then the counters if they fit their fields. -/
theorem write_planned (hheader : RingHeader shape head tail dropped file) (hfits : h.Fits shape)
    (hopen : h.isClosed = false) (hdata : data.length = h.recordSize) {overwriteIfFull : Bool} {tail' dropped' : Nat}
    (hplan : h.planWrite overwriteIfFull (MmapHeader.unpack file) =
      .ok (some ⟨shape.slot head, head + 1, tail', dropped'⟩)) :
    h.write data overwriteIfFull file =
      if head + 1 < 2 ^ 64 ∧ tail' < 2 ^ 64 ∧ dropped' < 2 ^ 64 then
        (.ok true, store 22 (encodeLE 8 (head + 1) ++ (encodeLE 8 tail' ++ encodeLE 8 dropped'))
          (store (shape.slot head) data file))
      else (.error .structError, store (shape.slot head) data file) := by
  obtain ⟨hstored, -⟩ := hheader.storeSlot (hdata.trans hfits.recordSize) head
  rw [write, hopen, if_neg Bool.false_ne_true, if_neg (not_not.mpr hdata), hheader.readHeader hopen]
  dsimp only
  rw [hplan]
  dsimp only
  rw [hstored]
  dsimp only
  by_cases hfields : head + 1 < 2 ^ 64 ∧ tail' < 2 ^ 64 ∧ dropped' < 2 ^ 64
  · rw [WritePlan.packedUpdate, if_pos hfields, if_pos hfields]
  · rw [WritePlan.packedUpdate, if_neg hfields, if_neg hfields]

end Writes

/-! ### Reads -/

/-- The handle and the file once the records before `next` are handed over; the primary consumer moves its own
sequence and the tail. -/
def moveTo (consumerSeq : Option Nat) (next : Nat) (h : MmapRingBuffer) (file : List UInt8) :
    MmapRingBuffer × List UInt8 :=
  if consumerSeq.isNone then
    ({ h with localReadSeq := next }, storeTail (MmapHeader.unpack file).tailSeq next file)
  else (h, file)

theorem Fits.seqToRead_lt (hfits : h.Fits shape) {seq p : Nat} (hseq : h.seqToRead head seq = some p) :
    p < head ∧ head ≤ p + shape.capacity := by
  have hpos := shape.capacity_pos
  rw [MmapRingBuffer.seqToRead, hfits.capacity] at hseq
  split at hseq
  · cases hseq
  · split at hseq <;> cases hseq <;> omega

theorem Fits.seqToRead_eq (hfits : h.Fits shape) {seq : Nat} (hwindow : head ≤ seq + shape.capacity) :
    h.seqToRead head seq = if head ≤ seq then none else some seq := by
  rw [MmapRingBuffer.seqToRead, hfits.capacity, if_neg (show ¬ shape.capacity < head - seq by omega)]

theorem moveTo_none (hheader : RingHeader shape head tail dropped file) (h : MmapRingBuffer) (next : Nat) :
    h.moveTo none next file = ({ h with localReadSeq := next }, storeTail tail next file) := by
  rw [moveTo, hheader.tailSeq]
  rfl

theorem read_eq (hheader : RingHeader shape head tail dropped file) (hfits : h.Fits shape)
    (hopen : h.isClosed = false) (consumerSeq : Option Nat) : h.read consumerSeq file =
      match h.seqToRead head (consumerSeq.getD h.localReadSeq) with
      | none => (.ok (none, consumerSeq.getD h.localReadSeq), h, file)
      | some p => (.ok (some (h.loadSlot p file), p + 1), h.moveTo consumerSeq (p + 1) file) := by
  have hcapacity : h.capacity ≠ 0 := by
    rw [hfits.capacity]
    exact Nat.ne_of_gt shape.capacity_pos
  rw [read, hopen, if_neg Bool.false_ne_true, hheader.readHeader hopen]
  dsimp only
  rw [hheader.headSeq]
  cases h.seqToRead head (consumerSeq.getD h.localReadSeq) with
  | none => rfl
  | some p => cases consumerSeq <;> simp [hcapacity, moveTo, hopen]

theorem readBatch_eq (hheader : RingHeader shape head tail dropped file) (hfits : h.Fits shape)
    (hopen : h.isClosed = false) (maxRecords : Int) (consumerSeq : Option Nat) :
    h.readBatch maxRecords consumerSeq file =
      match h.seqToRead head (consumerSeq.getD h.localReadSeq) with
      | none => (.ok ([], consumerSeq.getD h.localReadSeq), h, file)
      | some p =>
          let count := (min maxRecords ((head : Int) - p)).toNat
          (.ok (h.loadSlots file count p, p + count), h.moveTo consumerSeq (p + count) file) := by
  have hcapacity : h.capacity ≠ 0 := by
    rw [hfits.capacity]
    exact Nat.ne_of_gt shape.capacity_pos
  rw [readBatch, hheader.readHeader hopen]
  dsimp only
  rw [hheader.headSeq]
  cases h.seqToRead head (consumerSeq.getD h.localReadSeq) with
  | none => rfl
  | some p => cases consumerSeq <;> simp [hcapacity, moveTo, hopen]

theorem read_moves (hheader : RingHeader shape head tail dropped file) (hfits : h.Fits shape)
    (consumerSeq : Option Nat) : (h.read consumerSeq file).2 = (h, file) ∨
      ∃ next ≤ head, (h.read consumerSeq file).2 = h.moveTo consumerSeq next file := by
  cases hopen : h.isClosed with
  | true =>
      left
      rw [read, hopen, if_pos rfl]
  | false =>
      rw [read_eq hheader hfits hopen]
      cases hseq : h.seqToRead head (consumerSeq.getD h.localReadSeq) with
      | none => exact .inl rfl
      | some p =>
          obtain ⟨hlt, -⟩ := hfits.seqToRead_lt hseq
          exact .inr ⟨p + 1, hlt, rfl⟩

theorem readBatch_moves (hheader : RingHeader shape head tail dropped file) (hfits : h.Fits shape)
    (maxRecords : Int) (consumerSeq : Option Nat) : (h.readBatch maxRecords consumerSeq file).2 = (h, file) ∨
      ∃ next ≤ head, (h.readBatch maxRecords consumerSeq file).2 = h.moveTo consumerSeq next file := by
  cases hopen : h.isClosed with
  | true =>
      left
      rw [readBatch, readHeader, hopen, if_pos rfl]
  | false =>
      rw [readBatch_eq hheader hfits hopen]
      cases hseq : h.seqToRead head (consumerSeq.getD h.localReadSeq) with
      | none => exact .inl rfl
      | some p =>
          obtain ⟨hlt, -⟩ := hfits.seqToRead_lt hseq
          exact .inr ⟨_, show p + (min maxRecords ((head : Int) - p)).toNat ≤ head by omega, rfl⟩

/-! ### Where a read leaves the handle and the file -/

theorem Fits.moveTo (hfits : h.Fits shape) (consumerSeq : Option Nat) (next : Nat) (file : List UInt8) :
    (h.moveTo consumerSeq next file).1.Fits shape := by
  rw [MmapRingBuffer.moveTo]
  split
  · exact ⟨hfits.capacity, hfits.recordSize⟩
  · exact hfits

@[simp] theorem isClosed_moveTo (consumerSeq : Option Nat) (next : Nat) (h : MmapRingBuffer) (file : List UInt8) :
    (h.moveTo consumerSeq next file).1.isClosed = h.isClosed := by
  rw [moveTo]
  split <;> rfl

theorem header_moveTo (hheader : RingHeader shape head tail dropped file) (consumerSeq : Option Nat) {next : Nat}
    (hnext : next < 2 ^ 64) : RingHeader shape head (if consumerSeq.isNone then max tail next else tail) dropped
      (h.moveTo consumerSeq next file).2 := by
  rw [moveTo]
  split
  · rw [hheader.tailSeq]
    exact hheader.storeTail hnext
  · exact hheader

end MmapRingBuffer

end ChronosMatch
