import ChronosMatch.Base.Bytes

/-!
# The sequence-numbered ring buffer

`MmapRingBuffer` of `src/ipc/mmap_buffer.py`, over the bytes of its file. A handle is what one process
keeps of it. Every method is the composition of what it does under its lock: read the header, store or load
a slot, store the counters. Failures of the operating system are left out.
-/

namespace ChronosMatch

open Bytes

/-- The exceptions, with the text or the data of their messages. -/
inductive MmapError
  | inaccessible (message : String)
  | capacity (message : String)
  | fileTooSmall (length : Nat)
  | incompleteHeader
  | invalidMagic (magic : List UInt8)
  | truncated (length expected : Nat)
  | valueError (message : String)
  | indexError
  | zeroDivisionError
  | structError
deriving DecidableEq

/-! ### The header -/

/-- `b"CMMAP\\x01\\x00\\x00"` -/
def magicBytes : List UInt8 := [0x43, 0x4D, 0x4D, 0x41, 0x50, 0x01, 0x00, 0x00]

def headerSize : Nat := 64

structure MmapHeader where
  magic : List UInt8
  version : Nat
  recordSize : Nat
  capacity : Nat
  headSeq : Nat
  tailSeq : Nat
  droppedCount : Nat
  flags : Nat
deriving DecidableEq

namespace MmapHeader

/-- `struct.pack("<8s H I Q Q Q Q I 14s", ...)` on fields that are in range. -/
def pack (header : MmapHeader) : List UInt8 :=
  header.magic ++ (encodeLE 2 header.version ++ (encodeLE 4 header.recordSize ++ (encodeLE 8 header.capacity ++
    (encodeLE 8 header.headSeq ++ (encodeLE 8 header.tailSeq ++ (encodeLE 8 header.droppedCount ++
      (encodeLE 4 header.flags ++ List.replicate 14 0)))))))

/-- The same with what stands in the last 14 bytes, which the code writes once and never looks at. -/
def packWith (header : MmapHeader) (reserved : List UInt8) : List UInt8 :=
  header.magic ++ (encodeLE 2 header.version ++ (encodeLE 4 header.recordSize ++ (encodeLE 8 header.capacity ++
    (encodeLE 8 header.headSeq ++ (encodeLE 8 header.tailSeq ++ (encodeLE 8 header.droppedCount ++
      (encodeLE 4 header.flags ++ reserved)))))))

/-- The fields are in range of the format. -/
structure WellFormed (header : MmapHeader) : Prop where
  magic : header.magic.length = 8
  version : header.version < 2 ^ 16
  recordSize : header.recordSize < 2 ^ 32
  capacity : header.capacity < 2 ^ 64
  headSeq : header.headSeq < 2 ^ 64
  tailSeq : header.tailSeq < 2 ^ 64
  droppedCount : header.droppedCount < 2 ^ 64
  flags : header.flags < 2 ^ 32

/-- `struct.unpack` of the first 64 bytes of the file. -/
def unpack (file : List UInt8) : MmapHeader where
  magic := slice 0 8 file
  version := decodeLE (slice 8 2 file)
  recordSize := decodeLE (slice 10 4 file)
  capacity := decodeLE (slice 14 8 file)
  headSeq := decodeLE (slice 22 8 file)
  tailSeq := decodeLE (slice 30 8 file)
  droppedCount := decodeLE (slice 38 8 file)
  flags := decodeLE (slice 46 4 file)

end MmapHeader

/-! ### Handles -/

structure MmapRingBuffer where
  capacity : Nat
  recordSize : Nat
  localReadSeq : Nat := 0
  isClosed : Bool := false
deriving DecidableEq

namespace MmapRingBuffer

/-- `__init__` with `create=True`: the handle and the file. -/
def createBuffer (capacity recordSize : Int) : Except MmapError (MmapRingBuffer × List UInt8) :=
  if capacity ≤ 0 then .error (.capacity "Capacity must be positive.")
  else if recordSize ≤ 0 then .error (.capacity "Record size must be positive.")
  else
    let handle : MmapRingBuffer := { capacity := capacity.toNat, recordSize := recordSize.toNat }
    if 2 ^ 32 ≤ recordSize ∨ 2 ^ 64 ≤ capacity then .error .structError
    else
      let header : MmapHeader := {
        magic := magicBytes
        version := 1
        recordSize := handle.recordSize
        capacity := handle.capacity
        headSeq := 0
        tailSeq := 0
        droppedCount := 0
        flags := 0 }
      .ok (handle, header.pack ++ List.replicate (handle.capacity * handle.recordSize) 0)

/-- `__init__` with `create=False` on a file that exists. -/
def attachBuffer (file : List UInt8) : Except MmapError MmapRingBuffer :=
  if file.length < headerSize then .error (.fileTooSmall file.length)
  else
    let header := MmapHeader.unpack file
    if header.magic ≠ magicBytes then .error (.invalidMagic header.magic)
    else
      let expectedSize := headerSize + header.capacity * header.recordSize
      if file.length < expectedSize then .error (.truncated file.length expectedSize)
      else .ok {
        capacity := header.capacity
        recordSize := header.recordSize
        localReadSeq := header.tailSeq }

def readHeader (h : MmapRingBuffer) (file : List UInt8) : Except MmapError MmapHeader :=
  if h.isClosed then .error (.inaccessible "Ring buffer is closed.")
  else if file.length < headerSize then .error .incompleteHeader
  else .ok (MmapHeader.unpack file)

/-- Where the record of a sequence number stands. -/
def slotOffset (h : MmapRingBuffer) (seq : Nat) : Nat := headerSize + seq % h.capacity * h.recordSize

/-! ### Writing -/

/-- The slot that a write stores, and the counters it leaves. -/
structure WritePlan where
  offset : Nat
  head : Nat
  tail : Nat
  dropped : Nat
deriving DecidableEq

/-- What `write` decides from the header; nothing when the buffer is full and must not be overwritten. -/
def planWrite (overwriteIfFull : Bool) (h : MmapRingBuffer) (header : MmapHeader) :
    Except MmapError (Option WritePlan) :=
  let head := header.headSeq
  let full : Bool := (h.capacity : Int) ≤ (head : Int) - header.tailSeq
  if full && !overwriteIfFull then .ok none
  else if h.capacity = 0 then .error .zeroDivisionError
  else .ok (some {
    offset := h.slotOffset head
    head := head + 1
    tail := if full then head - h.capacity + 1 else header.tailSeq
    dropped := if full then header.droppedCount + 1 else header.droppedCount })

/-- Assignment to a slice of the memory map, which must fit. -/
def storeSlot (offset : Nat) (data file : List UInt8) : Except MmapError (List UInt8) :=
  if offset + data.length ≤ file.length then .ok (store offset data file) else .error .indexError

/-- The 24 bytes stored over head, tail and dropped. -/
def WritePlan.packedUpdate (plan : WritePlan) : Except MmapError (List UInt8) :=
  if plan.head < 2 ^ 64 ∧ plan.tail < 2 ^ 64 ∧ plan.dropped < 2 ^ 64 then
    .ok (encodeLE 8 plan.head ++ (encodeLE 8 plan.tail ++ encodeLE 8 plan.dropped))
  else .error .structError

def write (data : List UInt8) (overwriteIfFull : Bool) (h : MmapRingBuffer) (file : List UInt8) :
    Except MmapError Bool × List UInt8 :=
  if h.isClosed then (.error (.inaccessible "Cannot write to closed ring buffer."), file)
  else if data.length ≠ h.recordSize then
    (.error (.valueError s!"Record length {data.length} does not match buffer record size {h.recordSize}."), file)
  else
    match h.readHeader file with
    | .error err => (.error err, file)
    | .ok header =>
        match h.planWrite overwriteIfFull header with
        | .error err => (.error err, file)
        | .ok none => (.ok false, file)
        | .ok (some plan) =>
            match storeSlot plan.offset data file with
            | .error err => (.error err, file)
            | .ok file =>
                match plan.packedUpdate with
                | .error err => (.error err, file)
                | .ok packedUpdate => (.ok true, store 22 packedUpdate file)

/-! ### Reading -/

/-- The sequence number to read next, if there is a record; a consumer that fell behind jumps. -/
def seqToRead (h : MmapRingBuffer) (head seq : Nat) : Option Nat :=
  if head ≤ seq then none else if h.capacity < head - seq then some (head - h.capacity) else some seq

def loadSlot (h : MmapRingBuffer) (seq : Nat) (file : List UInt8) : List UInt8 :=
  slice (h.slotOffset seq) h.recordSize file

/-- The primary consumer moves the tail that it has read from the header. It never gets past the head, so
the number is in range. -/
def storeTail (tail nextSeq : Nat) (file : List UInt8) : List UInt8 :=
  if tail < nextSeq then store 30 (encodeLE 8 nextSeq) file else file

def read (consumerSeq : Option Nat) (h : MmapRingBuffer) (file : List UInt8) :
    Except MmapError (Option (List UInt8) × Nat) × MmapRingBuffer × List UInt8 :=
  if h.isClosed then (.error (.inaccessible "Cannot read from closed ring buffer."), h, file)
  else
    match h.readHeader file with
    | .error err => (.error err, h, file)
    | .ok header =>
        let seq := consumerSeq.getD h.localReadSeq
        match h.seqToRead header.headSeq seq with
        | none => (.ok (none, seq), h, file)
        | some seq =>
            if h.capacity = 0 then (.error .zeroDivisionError, h, file)
            else
              let data := h.loadSlot seq file
              let nextSeq := seq + 1
              if consumerSeq.isNone then
                (.ok (some data, nextSeq), { h with localReadSeq := nextSeq }, storeTail header.tailSeq nextSeq file)
              else (.ok (some data, nextSeq), h, file)

/-- The loop of `read_batch`. -/
def loadSlots (h : MmapRingBuffer) (file : List UInt8) : (count seq : Nat) → List (List UInt8)
  | 0, _ => []
  | count + 1, seq => h.loadSlot seq file :: loadSlots h file count (seq + 1)

def readBatch (maxRecords : Int) (consumerSeq : Option Nat) (h : MmapRingBuffer) (file : List UInt8) :
    Except MmapError (List (List UInt8) × Nat) × MmapRingBuffer × List UInt8 :=
  match h.readHeader file with
  | .error err => (.error err, h, file)
  | .ok header =>
      let seq := consumerSeq.getD h.localReadSeq
      match h.seqToRead header.headSeq seq with
      | none => (.ok ([], seq), h, file)
      | some seq =>
          let countToRead := (min maxRecords ((header.headSeq : Int) - seq)).toNat
          if 0 < countToRead ∧ h.capacity = 0 then (.error .zeroDivisionError, h, file)
          else
            let records := h.loadSlots file countToRead seq
            let seq := seq + countToRead
            if consumerSeq.isNone then
              (.ok (records, seq), { h with localReadSeq := seq }, storeTail header.tailSeq seq file)
            else (.ok (records, seq), h, file)

/-- Marks the file as closed, too. -/
def close (h : MmapRingBuffer) (file : List UInt8) : MmapRingBuffer × List UInt8 :=
  if h.isClosed then (h, file) else ({ h with isClosed := true }, store 46 (encodeLE 4 1) file)

end MmapRingBuffer

/-! ### What the stores do to the header and the slots -/

namespace MmapHeader

variable {file : List UInt8}

theorem unpack_store_slot {offset : Nat} {data : List UInt8} (hfits : offset + data.length ≤ file.length)
    (hoffset : headerSize ≤ offset) : unpack (store offset data file) = unpack file := by
  have hfield : ∀ a n, a + n ≤ headerSize → slice a n (store offset data file) = slice a n file :=
    fun a n h => slice_store_of_disjoint hfits (.inl (Nat.le_trans h hoffset))
  simp only [unpack, hfield 0 8 (by decide), hfield 8 2 (by decide), hfield 10 4 (by decide),
    hfield 14 8 (by decide), hfield 22 8 (by decide), hfield 30 8 (by decide), hfield 38 8 (by decide),
    hfield 46 4 (by decide)]

theorem unpack_store_counters (hfile : headerSize ≤ file.length) {head tail dropped : Nat} (hhead : head < 2 ^ 64)
    (htail : tail < 2 ^ 64) (hdropped : dropped < 2 ^ 64) :
    unpack (store 22 (encodeLE 8 head ++ (encodeLE 8 tail ++ encodeLE 8 dropped)) file) =
      { unpack file with headSeq := head, tailSeq := tail, droppedCount := dropped } := by
  set data := encodeLE 8 head ++ (encodeLE 8 tail ++ encodeLE 8 dropped) with hdata
  have hlength : data.length = 24 := by simp [hdata]
  have hfits : 22 + data.length ≤ file.length := by
    rw [hlength]
    exact Nat.le_trans (by decide) hfile
  have hfield : ∀ a n, a + n ≤ 22 ∨ 46 ≤ a → slice a n (store 22 data file) = slice a n file := by
    intro a n h
    apply slice_store_of_disjoint hfits
    omega
  have hheadSeq : slice 22 8 (store 22 data file) = encodeLE 8 head := by
    rw [slice_store_of_within hfits (by omega) (by omega), hdata, slice_append_left (by simp), slice_encodeLE]
  have htailSeq : slice 30 8 (store 22 data file) = encodeLE 8 tail := by
    rw [slice_store_of_within hfits (by omega) (by omega), hdata, slice_append_right (by simp),
      slice_append_left (by simp), length_encodeLE, slice_encodeLE]
  have hdroppedCount : slice 38 8 (store 22 data file) = encodeLE 8 dropped := by
    rw [slice_store_of_within hfits (by omega) (by omega), hdata, slice_append_right (by simp),
      slice_append_right (by simp), length_encodeLE, length_encodeLE, slice_encodeLE]
  simp only [unpack, hfield 0 8 (by decide), hfield 8 2 (by decide), hfield 10 4 (by decide),
    hfield 14 8 (by decide), hfield 46 4 (by decide), hheadSeq, htailSeq, hdroppedCount,
    decodeLE_encodeLE (show head < 256 ^ 8 from hhead), decodeLE_encodeLE (show tail < 256 ^ 8 from htail),
    decodeLE_encodeLE (show dropped < 256 ^ 8 from hdropped)]

theorem unpack_store_tail (hfile : headerSize ≤ file.length) {tail : Nat} (htail : tail < 2 ^ 64) :
    unpack (store 30 (encodeLE 8 tail) file) = { unpack file with tailSeq := tail } := by
  have hfits : 30 + (encodeLE 8 tail).length ≤ file.length := by
    rw [length_encodeLE]
    exact Nat.le_trans (by decide) hfile
  have hfield : ∀ a n, a + n ≤ 30 ∨ 38 ≤ a → slice a n (store 30 (encodeLE 8 tail) file) = slice a n file := by
    intro a n h
    apply slice_store_of_disjoint hfits
    rw [length_encodeLE]
    exact h
  have htailSeq : slice 30 8 (store 30 (encodeLE 8 tail) file) = encodeLE 8 tail := by
    rw [slice_store_of_within hfits (by omega) (by simp), Nat.sub_self, slice_encodeLE]
  simp only [unpack, hfield 0 8 (by decide), hfield 8 2 (by decide), hfield 10 4 (by decide),
    hfield 14 8 (by decide), hfield 22 8 (by decide), hfield 38 8 (by decide), hfield 46 4 (by decide), htailSeq,
    decodeLE_encodeLE (show tail < 256 ^ 8 from htail)]

theorem unpack_store_flags (hfile : headerSize ≤ file.length) {flags : Nat} (hflags : flags < 2 ^ 32) :
    unpack (store 46 (encodeLE 4 flags) file) = { unpack file with flags } := by
  have hfits : 46 + (encodeLE 4 flags).length ≤ file.length := by
    rw [length_encodeLE]
    exact Nat.le_trans (by decide) hfile
  have hfield : ∀ a n, a + n ≤ 46 → slice a n (store 46 (encodeLE 4 flags) file) = slice a n file :=
    fun a n h => slice_store_of_disjoint hfits (.inl h)
  have hflagsField : slice 46 4 (store 46 (encodeLE 4 flags) file) = encodeLE 4 flags := by
    rw [slice_store_of_within hfits (by omega) (by simp), Nat.sub_self, slice_encodeLE]
  simp only [unpack, hfield 0 8 (by decide), hfield 8 2 (by decide), hfield 10 4 (by decide),
    hfield 14 8 (by decide), hfield 22 8 (by decide), hfield 30 8 (by decide), hfield 38 8 (by decide), hflagsField,
    decodeLE_encodeLE (show flags < 256 ^ 4 from hflags)]

theorem length_pack {header : MmapHeader} (hmagic : header.magic.length = 8) : header.pack.length = headerSize := by
  simp [pack, hmagic, headerSize]

/-- What was packed is unpacked again, whatever stands in the reserved bytes. -/
theorem unpack_packWith {header : MmapHeader} (hheader : header.WellFormed) (reserved slots : List UInt8) :
    unpack (header.packWith reserved ++ slots) = header := by
  obtain ⟨hmagic, hversion, hrecord, hcapacity, hhead, htail, hdropped, hflags⟩ := hheader
  have hmagicField : slice 0 8 header.magic = header.magic := by
    rw [← hmagic, slice_length]
  simp (disch := simp [hmagic]) only [unpack, packWith, List.append_assoc, slice_append_left, slice_append_right,
    slice_encodeLE, length_encodeLE, hmagic, hmagicField, Nat.reduceSub, Nat.sub_self,
    decodeLE_encodeLE (show header.version < 256 ^ 2 from hversion),
    decodeLE_encodeLE (show header.recordSize < 256 ^ 4 from hrecord),
    decodeLE_encodeLE (show header.capacity < 256 ^ 8 from hcapacity),
    decodeLE_encodeLE (show header.headSeq < 256 ^ 8 from hhead),
    decodeLE_encodeLE (show header.tailSeq < 256 ^ 8 from htail),
    decodeLE_encodeLE (show header.droppedCount < 256 ^ 8 from hdropped),
    decodeLE_encodeLE (show header.flags < 256 ^ 4 from hflags)]

theorem unpack_pack {header : MmapHeader} (hheader : header.WellFormed) (slots : List UInt8) :
    unpack (header.pack ++ slots) = header :=
  unpack_packWith hheader _ slots

end MmapHeader

end ChronosMatch
