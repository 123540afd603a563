import ChronosMatch.Base.Slots
import ChronosMatch.Ipc.MmapBuffer

/-!
# A file that holds a ring

`RingFile` says what the bytes of the file of a ring buffer mean: the counters of the header, and the last
accepted records in their slots. Each store of the code is one lemma about it.
-/

namespace ChronosMatch

open Bytes

/-- How many records of what size a ring has room for. -/
structure RingShape where
  capacity : Nat
  recordSize : Nat
  capacity_pos : 1 ≤ capacity

namespace RingShape

/-- Where the slot of a sequence number starts. -/
def slot (shape : RingShape) (seq : Nat) : Nat := headerSize + seq % shape.capacity * shape.recordSize

def fileLength (shape : RingShape) : Nat := headerSize + shape.capacity * shape.recordSize

/-- The slots behind the header. -/
def layout (shape : RingShape) : SlotLayout where
  header := headerSize
  count := shape.capacity
  size := shape.recordSize
  count_pos := shape.capacity_pos

variable (shape : RingShape)

theorem slot_le (seq : Nat) : shape.slot seq + shape.recordSize ≤ shape.fileLength :=
  shape.layout.offset_le seq

theorem mod_ne_of_lt {a b : Nat} (hlt : a < b) (hlap : b < a + shape.capacity) :
    a % shape.capacity ≠ b % shape.capacity :=
  shape.layout.mod_ne_of_lt hlt hlap

end RingShape

/-- The handle was made for a ring of the shape. -/
structure MmapRingBuffer.Fits (h : MmapRingBuffer) (shape : RingShape) : Prop where
  capacity : h.capacity = shape.capacity
  recordSize : h.recordSize = shape.recordSize

theorem MmapRingBuffer.Fits.slotOffset {h : MmapRingBuffer} {shape : RingShape} (hfits : h.Fits shape) (seq : Nat) :
    h.slotOffset seq = shape.slot seq := by
  rw [MmapRingBuffer.slotOffset, RingShape.slot, hfits.capacity, hfits.recordSize]

theorem MmapRingBuffer.Fits.planWrite {h : MmapRingBuffer} {shape : RingShape} (hfits : h.Fits shape)
    {header : MmapHeader} (hle : header.tailSeq ≤ header.headSeq) (overwriteIfFull : Bool) :
    h.planWrite overwriteIfFull header =
      if shape.capacity ≤ header.headSeq - header.tailSeq then
        if overwriteIfFull then .ok (some ⟨shape.slot header.headSeq, header.headSeq + 1,
          header.headSeq - shape.capacity + 1, header.droppedCount + 1⟩) else .ok none
      else .ok (some ⟨shape.slot header.headSeq, header.headSeq + 1, header.tailSeq, header.droppedCount⟩) := by
  have hpos := shape.capacity_pos
  have hcapacity : shape.capacity ≠ 0 := by omega
  rw [MmapRingBuffer.planWrite]
  simp only [hfits.capacity, hfits.slotOffset, if_neg hcapacity]
  by_cases hfull : shape.capacity ≤ header.headSeq - header.tailSeq
  · have hfull' : (shape.capacity : Int) ≤ (header.headSeq : Int) - header.tailSeq := by omega
    rw [if_pos hfull]
    simp only [hfull', decide_true, if_true]
    cases overwriteIfFull <;> rfl
  · have hfull' : ¬ (shape.capacity : Int) ≤ (header.headSeq : Int) - header.tailSeq := by omega
    rw [if_neg hfull]
    simp only [hfull', decide_false, Bool.false_and, Bool.false_eq_true, if_false]

/-- The local sequence of the primary consumer is at the tail, or writes have passed it and the ring is
full. -/
def Cursor (shape : RingShape) (head tail seq : Nat) : Prop :=
  seq = tail ∨ (seq < tail ∧ head = tail + shape.capacity)

/-- A primary consumer reads on at the tail, wherever its local sequence stands. -/
theorem MmapRingBuffer.Fits.seqToRead {h : MmapRingBuffer} {shape : RingShape} (hfits : h.Fits shape)
    {head tail : Nat} (htail : tail ≤ head) (hwindow : head ≤ tail + shape.capacity)
    (hcursor : Cursor shape head tail h.localReadSeq) :
    h.seqToRead head h.localReadSeq = if tail < head then some tail else none := by
  have hpos := shape.capacity_pos
  rw [MmapRingBuffer.seqToRead, hfits.capacity]
  rcases hcursor with hat | ⟨hbehind, hfull⟩
  · rw [hat]
    by_cases hunread : tail < head
    · rw [if_neg (by omega), if_neg (by omega), if_pos hunread]
    · rw [if_pos (by omega), if_neg hunread]
  · rw [if_neg (by omega), if_pos (by omega), if_pos (by omega)]
    congr 1
    omega

/-! ### The header -/

/-- The file has room for the ring, and its header says how far the ring was written and read. What stands in
the slots is left open. -/
structure RingHeader (shape : RingShape) (head tail dropped : Nat) (file : List UInt8) : Prop where
  length : shape.fileLength ≤ file.length
  magic : (MmapHeader.unpack file).magic = magicBytes
  capacity : (MmapHeader.unpack file).capacity = shape.capacity
  recordSize : (MmapHeader.unpack file).recordSize = shape.recordSize
  headSeq : (MmapHeader.unpack file).headSeq = head
  tailSeq : (MmapHeader.unpack file).tailSeq = tail
  droppedCount : (MmapHeader.unpack file).droppedCount = dropped

theorem slice_slot_store {shape : RingShape} {offset : Nat} {data file : List UInt8}
    (hfile : headerSize ≤ file.length) (hdata : offset + data.length ≤ headerSize) (seq : Nat) :
    slice (shape.slot seq) shape.recordSize (store offset data file) =
      slice (shape.slot seq) shape.recordSize file :=
  shape.layout.slice_offset_store hfile hdata seq

namespace RingHeader

variable {shape : RingShape} {head tail dropped : Nat} {file : List UInt8} {h : MmapRingBuffer}

theorem headerSize_le (hheader : RingHeader shape head tail dropped file) : headerSize ≤ file.length :=
  Nat.le_trans (Nat.le_add_right _ _) hheader.length

theorem readHeader (hheader : RingHeader shape head tail dropped file) (hopen : h.isClosed = false) :
    h.readHeader file = .ok (MmapHeader.unpack file) := by
  rw [MmapRingBuffer.readHeader, hopen, if_neg Bool.false_ne_true, if_neg (Nat.not_lt.mpr hheader.headerSize_le)]

/-- Another file of that length whose header differs in the counters and the flags at most. -/
theorem of_unpack (hheader : RingHeader shape head tail dropped file) (flags : Nat) {file' : List UInt8}
    {head' tail' dropped' : Nat} (hlength : file'.length = file.length)
    (hunpack : MmapHeader.unpack file' = { MmapHeader.unpack file with
      headSeq := head', tailSeq := tail', droppedCount := dropped', flags }) :
    RingHeader shape head' tail' dropped' file' where
  length := hlength ▸ hheader.length
  magic := by rw [hunpack, hheader.magic]
  capacity := by rw [hunpack, hheader.capacity]
  recordSize := by rw [hunpack, hheader.recordSize]
  headSeq := by rw [hunpack]
  tailSeq := by rw [hunpack]
  droppedCount := by rw [hunpack]

theorem attach (hheader : RingHeader shape head tail dropped file) : MmapRingBuffer.attachBuffer file =
    .ok { capacity := shape.capacity, recordSize := shape.recordSize, localReadSeq := tail } := by
  have hlarge : ¬ file.length < headerSize + shape.capacity * shape.recordSize := Nat.not_lt.mpr hheader.length
  rw [MmapRingBuffer.attachBuffer, if_neg (Nat.not_lt.mpr hheader.headerSize_le)]
  simp only [hheader.magic, hheader.capacity, hheader.recordSize, hheader.tailSeq, ne_eq, not_true_eq_false,
    if_false, if_neg hlarge]

theorem planWrite (hheader : RingHeader shape head tail dropped file) (hfits : h.Fits shape) (htail : tail ≤ head)
    (overwriteIfFull : Bool) : h.planWrite overwriteIfFull (MmapHeader.unpack file) =
      if shape.capacity ≤ head - tail then
        if overwriteIfFull then .ok (some ⟨shape.slot head, head + 1, head - shape.capacity + 1, dropped + 1⟩)
        else .ok none
      else .ok (some ⟨shape.slot head, head + 1, tail, dropped⟩) := by
  have hle : (MmapHeader.unpack file).tailSeq ≤ (MmapHeader.unpack file).headSeq := by
    rw [hheader.headSeq, hheader.tailSeq]
    exact htail
  rw [hfits.planWrite hle, hheader.headSeq, hheader.tailSeq, hheader.droppedCount]

theorem storeSlot (hheader : RingHeader shape head tail dropped file) {data : List UInt8}
    (hdata : data.length = shape.recordSize) (seq : Nat) :
    MmapRingBuffer.storeSlot (shape.slot seq) data file = .ok (store (shape.slot seq) data file) ∧
      (store (shape.slot seq) data file).length = file.length ∧
      MmapHeader.unpack (store (shape.slot seq) data file) = MmapHeader.unpack file := by
  have hfits : shape.slot seq + data.length ≤ file.length := by
    rw [hdata]
    exact Nat.le_trans (shape.slot_le seq) hheader.length
  exact ⟨if_pos hfits, length_store hfits, MmapHeader.unpack_store_slot hfits (Nat.le_add_right _ _)⟩

theorem stored (hheader : RingHeader shape head tail dropped file) {data : List UInt8}
    (hdata : data.length = shape.recordSize) (seq : Nat) :
    RingHeader shape head tail dropped (store (shape.slot seq) data file) := by
  obtain ⟨-, hlength, hunpack⟩ := hheader.storeSlot hdata seq
  apply hheader.of_unpack (MmapHeader.unpack file).flags hlength
  rw [hunpack, ← hheader.headSeq, ← hheader.tailSeq, ← hheader.droppedCount]

theorem storeCounters (hheader : RingHeader shape head tail dropped file) {head' tail' dropped' : Nat}
    (hhead : head' < 2 ^ 64) (htail : tail' < 2 ^ 64) (hdropped : dropped' < 2 ^ 64) :
    RingHeader shape head' tail' dropped'
      (store 22 (encodeLE 8 head' ++ (encodeLE 8 tail' ++ encodeLE 8 dropped')) file) := by
  have hfile := hheader.headerSize_le
  apply hheader.of_unpack _ (length_store _) (MmapHeader.unpack_store_counters hfile hhead htail hdropped)
  simp only [List.length_append, length_encodeLE]
  exact Nat.le_trans (by decide) hfile

theorem storeTail (hheader : RingHeader shape head tail dropped file) {next : Nat} (hnext : next < 2 ^ 64) :
    RingHeader shape head (max tail next) dropped (MmapRingBuffer.storeTail tail next file) := by
  have hfile := hheader.headerSize_le
  rw [MmapRingBuffer.storeTail]
  split
  · next hlt =>
      have hunpack := MmapHeader.unpack_store_tail hfile hnext
      rw [max_eq_right hlt.le]
      apply hheader.of_unpack (MmapHeader.unpack file).flags (length_store _)
      · rw [hunpack, ← hheader.headSeq, ← hheader.droppedCount]
      · rw [length_encodeLE]
        exact Nat.le_trans (by decide) hfile
  · next hge => rwa [max_eq_left (Nat.le_of_not_lt hge)]

theorem close (hheader : RingHeader shape head tail dropped file) (h : MmapRingBuffer) :
    RingHeader shape head tail dropped (h.close file).2 := by
  have hfile := hheader.headerSize_le
  rw [MmapRingBuffer.close]
  split
  · exact hheader
  · have hunpack := MmapHeader.unpack_store_flags hfile (show 1 < 2 ^ 32 by decide)
    apply hheader.of_unpack 1 (length_store _)
    · rw [hunpack, ← hheader.headSeq, ← hheader.tailSeq, ← hheader.droppedCount]
    · rw [length_encodeLE]
      exact Nat.le_trans (by decide) hfile

end RingHeader

/-! ### The bytes -/

structure RingFile (shape : RingShape) (accepted : List (List UInt8)) (tail dropped : Nat) (file : List UInt8) :
    Prop where
  length : file.length = shape.fileLength
  magic : (MmapHeader.unpack file).magic = magicBytes
  capacity : (MmapHeader.unpack file).capacity = shape.capacity
  recordSize : (MmapHeader.unpack file).recordSize = shape.recordSize
  headSeq : (MmapHeader.unpack file).headSeq = accepted.length
  tailSeq : (MmapHeader.unpack file).tailSeq = tail
  droppedCount : (MmapHeader.unpack file).droppedCount = dropped
  slots : ∀ seq data, accepted[seq]? = some data → accepted.length ≤ seq + shape.capacity →
    slice (shape.slot seq) shape.recordSize file = data

section RingFile

variable {shape : RingShape} {accepted : List (List UInt8)} {tail dropped : Nat} {file : List UInt8}
  {h : MmapRingBuffer}

theorem RingFile.header (hring : RingFile shape accepted tail dropped file) :
    RingHeader shape accepted.length tail dropped file :=
  ⟨hring.length.ge, hring.magic, hring.capacity, hring.recordSize, hring.headSeq, hring.tailSeq, hring.droppedCount⟩

theorem RingFile.of_header (hheader : RingHeader shape accepted.length tail dropped file)
    (hlength : file.length = shape.fileLength) (hslots : ∀ seq data, accepted[seq]? = some data →
      accepted.length ≤ seq + shape.capacity → slice (shape.slot seq) shape.recordSize file = data) :
    RingFile shape accepted tail dropped file :=
  ⟨hlength, hheader.magic, hheader.capacity, hheader.recordSize, hheader.headSeq, hheader.tailSeq,
    hheader.droppedCount, hslots⟩

theorem RingFile.headerSize_le (hring : RingFile shape accepted tail dropped file) : headerSize ≤ file.length :=
  hring.header.headerSize_le

theorem RingFile.readHeader (hring : RingFile shape accepted tail dropped file) (hopen : h.isClosed = false) :
    h.readHeader file = .ok (MmapHeader.unpack file) :=
  hring.header.readHeader hopen

/-- The header that a buffer of the shape is created with. -/
def RingShape.freshHeader (shape : RingShape) : MmapHeader where
  magic := magicBytes
  version := 1
  recordSize := shape.recordSize
  capacity := shape.capacity
  headSeq := 0
  tailSeq := 0
  droppedCount := 0
  flags := 0

theorem RingFile.created (hcapacity : shape.capacity < 2 ^ 64) (hrecordSize : shape.recordSize < 2 ^ 32) :
    RingFile shape [] 0 0 (shape.freshHeader.pack ++ List.replicate (shape.capacity * shape.recordSize) 0) := by
  have hheader : shape.freshHeader.WellFormed := {
    magic := rfl
    version := Nat.one_lt_two_pow (by decide)
    recordSize := hrecordSize
    capacity := hcapacity
    headSeq := Nat.two_pow_pos 64
    tailSeq := Nat.two_pow_pos 64
    droppedCount := Nat.two_pow_pos 64
    flags := Nat.two_pow_pos 32 }
  have hunpack := MmapHeader.unpack_pack hheader (List.replicate (shape.capacity * shape.recordSize) 0)
  exact {
    length := by rw [List.length_append, MmapHeader.length_pack rfl, List.length_replicate, RingShape.fileLength]
    magic := congrArg MmapHeader.magic hunpack
    capacity := congrArg MmapHeader.capacity hunpack
    recordSize := congrArg MmapHeader.recordSize hunpack
    headSeq := congrArg MmapHeader.headSeq hunpack
    tailSeq := congrArg MmapHeader.tailSeq hunpack
    droppedCount := congrArg MmapHeader.droppedCount hunpack
    slots := fun seq record hrecord => (by cases hrecord) }

theorem RingFile.storeSlot (hring : RingFile shape accepted tail dropped file) {data : List UInt8}
    (hdata : data.length = shape.recordSize) (seq : Nat) :
    MmapRingBuffer.storeSlot (shape.slot seq) data file = .ok (store (shape.slot seq) data file) ∧
      (store (shape.slot seq) data file).length = file.length ∧
      MmapHeader.unpack (store (shape.slot seq) data file) = MmapHeader.unpack file ∧
      ∀ other, slice (shape.slot other) shape.recordSize (store (shape.slot seq) data file) =
        if other % shape.capacity = seq % shape.capacity then data
        else slice (shape.slot other) shape.recordSize file := by
  obtain ⟨hstored, hlength, hunpack⟩ := hring.header.storeSlot hdata seq
  exact ⟨hstored, hlength, hunpack, shape.layout.slice_store hring.length hdata seq⟩

/-- The record and then the counters: one more record is accepted. -/
theorem RingFile.accept (hring : RingFile shape accepted tail dropped file) {data : List UInt8}
    (hdata : data.length = shape.recordSize) {tail' dropped' : Nat} (hhead : accepted.length + 1 < 2 ^ 64)
    (htail : tail' < 2 ^ 64) (hdropped : dropped' < 2 ^ 64) :
    RingFile shape (accepted ++ [data]) tail' dropped' (store 22
      (encodeLE 8 (accepted.length + 1) ++ (encodeLE 8 tail' ++ encodeLE 8 dropped'))
      (store (shape.slot accepted.length) data file)) := by
  obtain ⟨-, hlength, -, hslots⟩ := hring.storeSlot hdata accepted.length
  have hheader := hring.header.stored hdata accepted.length
  set stored := store (shape.slot accepted.length) data file
  have hfile : headerSize ≤ stored.length := hheader.headerSize_le
  have hpacked : 22 + (encodeLE 8 (accepted.length + 1) ++ (encodeLE 8 tail' ++ encodeLE 8 dropped')).length ≤
      headerSize := by
    simp [headerSize]
  have haccepted : (accepted ++ [data]).length = accepted.length + 1 := by simp
  apply RingFile.of_header
  · rw [haccepted]
    exact hheader.storeCounters hhead htail hdropped
  · rw [length_store (Nat.le_trans hpacked hfile), hlength, hring.length]
  · intro seq record hrecord hwindow
    rw [haccepted] at hwindow
    rw [slice_slot_store hfile hpacked, hslots]
    by_cases hnew : seq = accepted.length
    · rw [hnew, List.getElem?_append_right (Nat.le_refl _), Nat.sub_self] at hrecord
      rw [hnew, if_pos rfl]
      exact Option.some.inj hrecord
    · have hlt : seq < accepted.length := by
        have := (List.getElem?_eq_some_iff.mp hrecord).1
        rw [haccepted] at this
        omega
      rw [List.getElem?_append_left hlt] at hrecord
      rw [if_neg (shape.mod_ne_of_lt hlt (by omega))]
      exact hring.slots seq record hrecord (by omega)

theorem RingFile.storeHeader (hring : RingFile shape accepted tail dropped file) {offset : Nat} {data : List UInt8}
    (hdata : offset + data.length ≤ headerSize) {tail' : Nat}
    (hheader : RingHeader shape accepted.length tail' dropped (store offset data file)) :
    RingFile shape accepted tail' dropped (store offset data file) := by
  apply RingFile.of_header hheader
  · rw [length_store (Nat.le_trans hdata hring.headerSize_le), hring.length]
  · intro seq record hrecord hwindow
    rw [slice_slot_store hring.headerSize_le hdata]
    exact hring.slots seq record hrecord hwindow

theorem RingFile.storeTail (hring : RingFile shape accepted tail dropped file) {next : Nat} (hnext : next < 2 ^ 64) :
    RingFile shape accepted (max tail next) dropped (MmapRingBuffer.storeTail tail next file) := by
  have hheader := hring.header.storeTail hnext
  rw [MmapRingBuffer.storeTail] at hheader ⊢
  split at hheader
  · next hlt =>
      rw [if_pos hlt]
      apply hring.storeHeader _ hheader
      simp [headerSize]
  · next hge =>
      rw [if_neg hge, max_eq_left (Nat.le_of_not_lt hge)]
      exact hring

theorem RingFile.close (hring : RingFile shape accepted tail dropped file) (h : MmapRingBuffer) :
    RingFile shape accepted tail dropped (h.close file).2 := by
  have hheader := hring.header.close h
  rw [MmapRingBuffer.close] at hheader ⊢
  split at hheader
  · next hclosed =>
      rw [if_pos hclosed]
      exact hring
  · next hopen =>
      rw [if_neg hopen]
      exact hring.storeHeader (by decide) hheader

end RingFile

end ChronosMatch
