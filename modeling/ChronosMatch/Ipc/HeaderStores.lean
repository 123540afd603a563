import ChronosMatch.Ipc.RingFile

/-!
# The stores over parts of the header

`write`, `read`, `read_batch` and `close` patch the packed header at offsets that are written out in the code.
Each patch leaves what packing the changed header gives, because a file is nothing but its header packed and its
slots: it is enough to compare what unpacks.
-/

namespace ChronosMatch

open Bytes

namespace MmapHeader

variable {header : MmapHeader} {reserved slots file : List UInt8}

/-! ### A file is its header and its slots -/

theorem wellFormed_unpack (hfile : headerSize ≤ file.length) : (unpack file).WellFormed := by
  rw [headerSize] at hfile
  exact {
    magic := length_slice (by omega)
    version := decodeLE_slice_lt (by omega)
    recordSize := decodeLE_slice_lt (by omega)
    capacity := decodeLE_slice_lt (by omega)
    headSeq := decodeLE_slice_lt (by omega)
    tailSeq := decodeLE_slice_lt (by omega)
    droppedCount := decodeLE_slice_lt (by omega)
    flags := decodeLE_slice_lt (by omega) }

theorem packWith_unpack (hfile : headerSize ≤ file.length) :
    (unpack file).packWith (slice 50 14 file) ++ file.drop headerSize = file := by
  have hfield : ∀ a n, a + n ≤ 64 → encodeLE n (decodeLE (slice a n file)) = slice a n file :=
    fun a n h => encodeLE_decodeLE_slice (h.trans hfile)
  have hheader : (unpack file).packWith (slice 50 14 file) = slice 0 64 file := by
    simp only [packWith, unpack, hfield 8 2 (by decide), hfield 10 4 (by decide), hfield 14 8 (by decide),
      hfield 22 8 (by decide), hfield 30 8 (by decide), hfield 38 8 (by decide), hfield 46 4 (by decide)]
    rw [slice_append_slice 46 4 14, slice_append_slice 38 8 18, slice_append_slice 30 8 26,
      slice_append_slice 22 8 34, slice_append_slice 14 8 42, slice_append_slice 10 4 50, slice_append_slice 8 2 54,
      slice_append_slice 0 8 56]
  rw [hheader, slice, List.drop_zero, headerSize, List.take_append_drop]

/-- Every file that is long enough is a header in range, packed, and slots. -/
theorem exists_packWith (hfile : headerSize ≤ file.length) : ∃ header : MmapHeader, ∃ reserved slots,
    header.WellFormed ∧ reserved.length = 14 ∧ file = header.packWith reserved ++ slots := by
  refine ⟨unpack file, slice 50 14 file, file.drop headerSize, wellFormed_unpack hfile, ?_, ?_⟩
  · exact length_slice hfile
  · exact (packWith_unpack hfile).symm

theorem length_packWith (hheader : header.WellFormed) (hreserved : reserved.length = 14) :
    (header.packWith reserved).length = headerSize := by
  simp [packWith, hheader.magic, hreserved, headerSize]

theorem slice_reserved (hheader : header.WellFormed) (hreserved : reserved.length = 14) :
    slice 50 14 (header.packWith reserved ++ slots) = reserved := by
  have hslice : slice 0 14 reserved = reserved := by
    rw [← hreserved, slice_length]
  simp (disch := simp [hheader.magic, hreserved]) only [packWith, List.append_assoc, slice_append_right,
    slice_append_left, length_encodeLE, hheader.magic, Nat.reduceSub, Nat.sub_self, hslice]

theorem drop_packWith (hheader : header.WellFormed) (hreserved : reserved.length = 14) :
    (header.packWith reserved ++ slots).drop headerSize = slots := by
  rw [← length_packWith hheader hreserved, List.drop_left]

theorem headerSize_le_packWith (hheader : header.WellFormed) (hreserved : reserved.length = 14) (slots : List UInt8) :
    headerSize ≤ (header.packWith reserved ++ slots).length := by
  rw [List.length_append, length_packWith hheader hreserved]
  exact Nat.le_add_right _ _

/-- A file is told by what it unpacks to, by its reserved bytes and by what stands behind the header. -/
theorem eq_packWith (hfile : headerSize ≤ file.length) (hunpack : unpack file = header)
    (hreserved : slice 50 14 file = reserved) (hslots : file.drop headerSize = slots) :
    file = header.packWith reserved ++ slots := by
  rw [← hunpack, ← hreserved, ← hslots, packWith_unpack hfile]

/-! ### The four stores -/

section Stores

variable (hheader : header.WellFormed) (hreserved : reserved.length = 14)

include hheader hreserved

theorem store_field {offset : Nat} {data : List UInt8} (hbefore : offset + data.length ≤ 50) {changed : MmapHeader}
    (hunpack : unpack (store offset data (header.packWith reserved ++ slots)) = changed) :
    store offset data (header.packWith reserved ++ slots) = changed.packWith reserved ++ slots := by
  have hfile := headerSize_le_packWith hheader hreserved slots
  have hwithin : offset + data.length ≤ headerSize := hbefore.trans (by decide)
  have hfits : offset + data.length ≤ (header.packWith reserved ++ slots).length := hwithin.trans hfile
  apply eq_packWith _ hunpack
  · rw [slice_store_of_disjoint hfits (.inr hbefore), slice_reserved hheader hreserved]
  · rw [drop_store_of_before hfits hwithin, drop_packWith hheader hreserved]
  · rw [length_store hfits]
    exact hfile

theorem store_counters {head tail dropped : Nat} (hhead : head < 2 ^ 64) (htail : tail < 2 ^ 64)
    (hdropped : dropped < 2 ^ 64) :
    store 22 (encodeLE 8 head ++ (encodeLE 8 tail ++ encodeLE 8 dropped)) (header.packWith reserved ++ slots) =
      packWith { header with headSeq := head, tailSeq := tail, droppedCount := dropped } reserved ++ slots := by
  apply store_field hheader hreserved
  · simp
  · rw [unpack_store_counters (headerSize_le_packWith hheader hreserved slots) hhead htail hdropped,
      unpack_packWith hheader]

theorem store_tail {tail : Nat} (htail : tail < 2 ^ 64) :
    store 30 (encodeLE 8 tail) (header.packWith reserved ++ slots) =
      packWith { header with tailSeq := tail } reserved ++ slots := by
  apply store_field hheader hreserved
  · simp
  · rw [unpack_store_tail (headerSize_le_packWith hheader hreserved slots) htail, unpack_packWith hheader]

theorem store_flags {flags : Nat} (hflags : flags < 2 ^ 32) :
    store 46 (encodeLE 4 flags) (header.packWith reserved ++ slots) =
      packWith { header with flags } reserved ++ slots := by
  apply store_field hheader hreserved
  · simp
  · rw [unpack_store_flags (headerSize_le_packWith hheader hreserved slots) hflags, unpack_packWith hheader]

theorem store_slot {offset : Nat} {data : List UInt8} (hoffset : headerSize ≤ offset)
    (hfits : offset + data.length ≤ (header.packWith reserved ++ slots).length) :
    store offset data (header.packWith reserved ++ slots) =
      header.packWith reserved ++ store (offset - headerSize) data slots := by
  have hfile := headerSize_le_packWith hheader hreserved slots
  apply eq_packWith
  · rw [length_store hfits]
    exact hfile
  · rw [unpack_store_slot hfits hoffset, unpack_packWith hheader]
  · rw [slice_store_of_disjoint hfits (.inl (Nat.le_trans (by decide) hoffset)), slice_reserved hheader hreserved]
  · rw [drop_store_of_behind hfits hoffset, drop_packWith hheader hreserved]

end Stores

end MmapHeader

namespace MmapRingBuffer

/-! ### The operations -/

/-- The header that a write leaves: an accepted one moves the counters as planned. -/
def headerAfterWrite (overwriteIfFull : Bool) (h : MmapRingBuffer) (header : MmapHeader) :
    Except MmapError Bool → MmapHeader
  | .ok true =>
      match h.planWrite overwriteIfFull header with
      | .ok (some plan) => { header with headSeq := plan.head, tailSeq := plan.tail, droppedCount := plan.dropped }
      | _ => header
  | _ => header

/-- The tail that a read leaves: a primary consumer that found a record moves it up to where it reads on. -/
def tailAfterRead {α : Type} (consumerSeq : Option Nat) (h : MmapRingBuffer) (header : MmapHeader) :
    Except MmapError (α × Nat) → Nat
  | .ok (_, nextSeq) =>
      if consumerSeq.isNone ∧ h.localReadSeq < header.headSeq then max header.tailSeq nextSeq else header.tailSeq
  | .error _ => header.tailSeq

/-- What each operation leaves of a file is a header packed in front of the slots, and the header is the one before
with nothing but the operation's own fields replaced. -/
structure StoresHeader (h : MmapRingBuffer) (header : MmapHeader) (reserved slots : List UInt8) : Prop where
  write (data : List UInt8) (overwriteIfFull : Bool) :
    let (result, left) := h.write data overwriteIfFull (header.packWith reserved ++ slots)
    ∃ slots', (result = .ok true → slots' = store (header.headSeq % h.capacity * h.recordSize) data slots) ∧
      left = (h.headerAfterWrite overwriteIfFull header result).packWith reserved ++ slots'
  read (consumerSeq : Option Nat) :
    let (result, _, left) := h.read consumerSeq (header.packWith reserved ++ slots)
    left = { header with tailSeq := h.tailAfterRead consumerSeq header result }.packWith reserved ++ slots
  readBatch (maxRecords : Int) (consumerSeq : Option Nat) :
    let (result, _, left) := h.readBatch maxRecords consumerSeq (header.packWith reserved ++ slots)
    left = { header with tailSeq := h.tailAfterRead consumerSeq header result }.packWith reserved ++ slots
  close : (h.close (header.packWith reserved ++ slots)).2 =
    { header with flags := if h.isClosed then header.flags else 1 }.packWith reserved ++ slots

/-- The store of a record into the slot of any sequence number, in any file with room for the slots. -/
def StoresSlot (h : MmapRingBuffer) : Prop :=
  ∀ (seq : Nat) (data file : List UInt8), data.length = h.recordSize →
    headerSize + h.capacity * h.recordSize ≤ file.length →
      ∃ stored, storeSlot (h.slotOffset seq) data file = .ok stored ∧ stored.length = file.length ∧
        (∀ i < headerSize, stored[i]? = file[i]?) ∧
        ∀ other, other % h.capacity ≠ seq % h.capacity → ∀ i < h.recordSize,
          stored[h.slotOffset other + i]? = file[h.slotOffset other + i]?

/-! ### Each operation -/

theorem seqToRead_eq_none {h : MmapRingBuffer} {head seq : Nat} (hseq : h.seqToRead head seq = none) : head ≤ seq := by
  rw [seqToRead] at hseq
  by_contra hunread
  rw [if_neg hunread] at hseq
  split at hseq <;> cases hseq

theorem seqToRead_eq_some {h : MmapRingBuffer} {head seq start : Nat} (hseq : h.seqToRead head seq = some start) :
    seq < head ∧ start ≤ head ∧ (h.capacity ≠ 0 → start < head) := by
  rw [seqToRead] at hseq
  split at hseq
  · cases hseq
  · next hunread =>
      split at hseq
      · obtain rfl := Option.some.inj hseq
        omega
      · obtain rfl := Option.some.inj hseq
        omega

theorem planWrite_offset {overwriteIfFull : Bool} {h : MmapRingBuffer} {header : MmapHeader} {plan : WritePlan}
    (hplan : h.planWrite overwriteIfFull header = .ok (some plan)) : plan.offset = h.slotOffset header.headSeq := by
  rw [planWrite] at hplan
  split at hplan
  · cases hplan
  · split at hplan
    · cases hplan
    · obtain rfl := Option.some.inj (Except.ok.inj hplan)
      rfl

section TailAfterRead

variable {α : Type} {h : MmapRingBuffer} {header : MmapHeader}

theorem tailAfterRead_idle {consumerSeq : Option Nat} (hread : header.headSeq ≤ consumerSeq.getD h.localReadSeq)
    (result : Except MmapError (α × Nat)) : h.tailAfterRead consumerSeq header result = header.tailSeq := by
  cases result with
  | error err => rfl
  | ok value =>
      apply if_neg
      rintro ⟨hprimary, hunread⟩
      obtain rfl := Option.isNone_iff_eq_none.mp hprimary
      exact Nat.not_lt.mpr hread hunread

theorem tailAfterRead_some (seq : Nat) (result : Except MmapError (α × Nat)) :
    h.tailAfterRead (some seq) header result = header.tailSeq := by
  cases result with
  | error err => rfl
  | ok value => simp [tailAfterRead]

theorem tailAfterRead_none (hunread : h.localReadSeq < header.headSeq) (value : α) (nextSeq : Nat) :
    h.tailAfterRead none header (.ok (value, nextSeq)) = max header.tailSeq nextSeq :=
  if_pos ⟨rfl, hunread⟩

end TailAfterRead

section Operations

variable {header : MmapHeader} {reserved : List UInt8} (hheader : header.WellFormed) (hreserved : reserved.length = 14)
  (slots : List UInt8) (h : MmapRingBuffer)

include hheader hreserved

theorem readHeader_packWith : h.readHeader (header.packWith reserved ++ slots) =
    if h.isClosed then .error (.inaccessible "Ring buffer is closed.") else .ok header := by
  have hfile := MmapHeader.headerSize_le_packWith hheader hreserved slots
  rw [readHeader, if_neg (Nat.not_lt.mpr hfile), MmapHeader.unpack_packWith hheader]

theorem storeTail_packWith {nextSeq : Nat} (hnext : nextSeq ≤ header.headSeq) :
    storeTail header.tailSeq nextSeq (header.packWith reserved ++ slots) =
      MmapHeader.packWith { header with tailSeq := max header.tailSeq nextSeq } reserved ++ slots := by
  rw [storeTail]
  split
  · next hlt =>
      rw [MmapHeader.store_tail hheader hreserved (Nat.lt_of_le_of_lt hnext hheader.headSeq), max_eq_right hlt.le]
  · next hge => rw [max_eq_left (Nat.not_lt.mp hge)]

theorem read_packWith (consumerSeq : Option Nat) :
    let (result, _, left) := h.read consumerSeq (header.packWith reserved ++ slots)
    left = { header with tailSeq := h.tailAfterRead consumerSeq header result }.packWith reserved ++ slots := by
  rw [read, readHeader_packWith hheader hreserved]
  by_cases hclosed : h.isClosed
  · simp only [if_pos hclosed, tailAfterRead]
  simp only [if_neg hclosed]
  cases hseq : h.seqToRead header.headSeq (consumerSeq.getD h.localReadSeq) with
  | none =>
      dsimp only
      rw [tailAfterRead_idle (seqToRead_eq_none hseq)]
  | some start =>
      obtain ⟨hunread, -, hstart⟩ := seqToRead_eq_some hseq
      dsimp only
      by_cases hcapacity : h.capacity = 0
      · simp only [if_pos hcapacity, tailAfterRead]
      cases consumerSeq with
      | none =>
          simp only [if_neg hcapacity, Option.isNone_none, if_true, tailAfterRead_none hunread]
          exact storeTail_packWith hheader hreserved slots (hstart hcapacity)
      | some seq =>
          simp only [if_neg hcapacity, Option.isNone_some, Bool.false_eq_true, if_false, tailAfterRead_some]

theorem readBatch_packWith (maxRecords : Int) (consumerSeq : Option Nat) :
    let (result, _, left) := h.readBatch maxRecords consumerSeq (header.packWith reserved ++ slots)
    left = { header with tailSeq := h.tailAfterRead consumerSeq header result }.packWith reserved ++ slots := by
  rw [readBatch, readHeader_packWith hheader hreserved]
  by_cases hclosed : h.isClosed
  · simp only [if_pos hclosed, tailAfterRead]
  simp only [if_neg hclosed]
  cases hseq : h.seqToRead header.headSeq (consumerSeq.getD h.localReadSeq) with
  | none =>
      dsimp only
      rw [tailAfterRead_idle (seqToRead_eq_none hseq)]
  | some start =>
      obtain ⟨hunread, hstart, -⟩ := seqToRead_eq_some hseq
      dsimp only
      set count := (min maxRecords ((header.headSeq : Int) - start)).toNat
      have hcount : start + count ≤ header.headSeq := by omega
      by_cases hcapacity : 0 < count ∧ h.capacity = 0
      · simp only [if_pos hcapacity, tailAfterRead]
      cases consumerSeq with
      | none =>
          simp only [if_neg hcapacity, Option.isNone_none, if_true, tailAfterRead_none hunread]
          exact storeTail_packWith hheader hreserved slots hcount
      | some seq =>
          simp only [if_neg hcapacity, Option.isNone_some, Bool.false_eq_true, if_false, tailAfterRead_some]

theorem close_packWith : (h.close (header.packWith reserved ++ slots)).2 =
    { header with flags := if h.isClosed then header.flags else 1 }.packWith reserved ++ slots := by
  rw [close]
  by_cases hclosed : h.isClosed
  · simp only [if_pos hclosed]
  · simp only [if_neg hclosed]
    exact MmapHeader.store_flags hheader hreserved (by decide)

/-- A record that is stored goes into the slot of the head, and a plan moves the counters. -/
theorem write_packWith (data : List UInt8) (overwriteIfFull : Bool) :
    let (result, left) := h.write data overwriteIfFull (header.packWith reserved ++ slots)
    ∃ slots', (result = .ok true → slots' = store (header.headSeq % h.capacity * h.recordSize) data slots) ∧
      left = (h.headerAfterWrite overwriteIfFull header result).packWith reserved ++ slots' := by
  rw [write, readHeader_packWith hheader hreserved]
  by_cases hclosed : h.isClosed
  · simp only [if_pos hclosed]
    exact ⟨slots, (by simp), rfl⟩
  simp only [if_neg hclosed]
  by_cases hlength : data.length ≠ h.recordSize
  · simp only [if_pos hlength]
    exact ⟨slots, (by simp), rfl⟩
  simp only [if_neg hlength]
  cases hplan : h.planWrite overwriteIfFull header with
  | error err => exact ⟨slots, (by simp), rfl⟩
  | ok plan =>
      cases plan with
      | none => exact ⟨slots, (by simp), rfl⟩
      | some plan =>
          dsimp only
          rw [planWrite_offset hplan, storeSlot]
          by_cases hfits : h.slotOffset header.headSeq + data.length ≤ (header.packWith reserved ++ slots).length
          · have hoffset : headerSize ≤ h.slotOffset header.headSeq := Nat.le_add_right _ _
            have hslot : h.slotOffset header.headSeq - headerSize = header.headSeq % h.capacity * h.recordSize := by
              rw [slotOffset, Nat.add_sub_cancel_left]
            rw [if_pos hfits, MmapHeader.store_slot hheader hreserved hoffset hfits, hslot]
            dsimp only
            rw [WritePlan.packedUpdate]
            by_cases hrange : plan.head < 2 ^ 64 ∧ plan.tail < 2 ^ 64 ∧ plan.dropped < 2 ^ 64
            · simp only [if_pos hrange, headerAfterWrite, hplan]
              obtain ⟨hhead, htail, hdropped⟩ := hrange
              exact ⟨_, fun _ => rfl, MmapHeader.store_counters hheader hreserved hhead htail hdropped⟩
            · simp only [if_neg hrange]
              exact ⟨_, fun _ => rfl, rfl⟩
          · rw [if_neg hfits]
            exact ⟨slots, (by simp), rfl⟩

end Operations

/-- The slots of a capacity of at least one lie apart, behind the header and within the file. -/
theorem storesSlot {h : MmapRingBuffer} (hcapacity : 1 ≤ h.capacity) : h.StoresSlot := by
  intro seq data file hdata hfile
  let layout : SlotLayout := ⟨headerSize, h.capacity, h.recordSize, hcapacity⟩
  have hwithin : h.slotOffset seq + h.recordSize ≤ headerSize + h.capacity * h.recordSize := layout.offset_le seq
  have hfits : h.slotOffset seq + data.length ≤ file.length := by omega
  refine ⟨store (h.slotOffset seq) data file, if_pos hfits, length_store hfits, ?_, ?_⟩
  · intro i hi
    have hbefore : i < h.slotOffset seq := Nat.lt_of_lt_of_le hi (layout.header_le_offset seq)
    rw [getElem?_store hfits, if_pos hbefore]
  · intro other hother i hi
    have hapart : h.slotOffset other + h.recordSize ≤ h.slotOffset seq ∨
        h.slotOffset seq + h.recordSize ≤ h.slotOffset other := layout.offset_disjoint hother
    rw [getElem?_store hfits]
    split
    · rfl
    · rw [if_neg (by omega)]

/-- Every store of a part of the header leaves what packing the changed header gives, and the store of a record
keeps to its slot. -/
theorem headerStores_agree {header : MmapHeader} (hheader : header.WellFormed) {reserved : List UInt8}
    (hreserved : reserved.length = 14) (slots : List UInt8) (h : MmapRingBuffer) :
    h.StoresHeader header reserved slots ∧ (1 ≤ h.capacity → h.StoresSlot) where
  left := {
    write := write_packWith hheader hreserved slots h
    read := read_packWith hheader hreserved slots h
    readBatch := readBatch_packWith hheader hreserved slots h
    close := close_packWith hheader hreserved slots h }
  right := storesSlot

/-- A full ring of two records. -/
def fullHeader : MmapHeader where
  magic := magicBytes
  version := 1
  recordSize := 3
  capacity := 2
  headSeq := 7
  tailSeq := 5
  droppedCount := 4
  flags := 0

theorem headerStores_agree_fullHeader :
    MmapRingBuffer.StoresHeader { capacity := 2, recordSize := 3, localReadSeq := 5 } fullHeader
        (List.replicate 14 0) [1, 2, 3, 4, 5, 6] ∧
      MmapRingBuffer.StoresSlot { capacity := 2, recordSize := 3, localReadSeq := 5 } := by
  have hheader : fullHeader.WellFormed := by
    constructor <;> decide
  obtain ⟨hstores, hslot⟩ := headerStores_agree hheader (List.length_replicate (n := 14)) [1, 2, 3, 4, 5, 6]
    { capacity := 2, recordSize := 3, localReadSeq := 5 }
  exact ⟨hstores, hslot (by decide)⟩

end MmapRingBuffer

end ChronosMatch
