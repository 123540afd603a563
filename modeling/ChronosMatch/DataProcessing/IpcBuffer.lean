import ChronosMatch.Base.Slots
import ChronosMatch.Base.Transition
import ChronosMatch.DataProcessing.Processor

/-!
# The pipeline buffer

`RingBuffer` of `src/data_processing/ipc_buffer.py`, which one writer process and one reader process share
without a lock. Each of `write` and `read` is taken apart at its accesses to the mapped file, and the two
processes interleave between them.
-/

namespace ChronosMatch

open Bytes DataProcessor

/-- What a process keeps of the buffer. -/
structure RingBuffer where
  numSlots : Nat
deriving DecidableEq

namespace RingBuffer

/-- The write index at 0 and the read index at 8, each a uint64. -/
def headerSize : Nat := 16

/-- `__init__` with `create=True`. -/
def create (numSlots : Nat) : RingBuffer × List UInt8 :=
  (⟨numSlots⟩, List.replicate (headerSize + orderSize * numSlots) 0)

/-- `__init__` with `create=False` takes the number of slots from the size of the file. -/
def attach (file : List UInt8) : RingBuffer := ⟨(file.length - headerSize) / orderSize⟩

def getWriteIndex (file : List UInt8) : Nat := decodeLE (slice 0 8 file)

def getReadIndex (file : List UInt8) : Nat := decodeLE (slice 8 8 file)

/-- `struct.pack("<Q", value)` raises beyond 64 bits, before anything is stored. -/
def setIndex (offset value : Nat) (file : List UInt8) : Except PipelineError (List UInt8) :=
  if value < 2 ^ 64 then .ok (store offset (encodeLE 8 value) file) else .error .structError

def setWriteIndex (value : Nat) (file : List UInt8) : Except PipelineError (List UInt8) := setIndex 0 value file

def setReadIndex (value : Nat) (file : List UInt8) : Except PipelineError (List UInt8) := setIndex 8 value file

def slotOffset (buffer : RingBuffer) (slotIndex : Nat) : Nat :=
  let slot := slotIndex % buffer.numSlots
  headerSize + slot * orderSize

def pendingCount (file : List UInt8) : Int := getWriteIndex file - getReadIndex file

/-- The header and the slots behind it. -/
def layout (numSlots : Nat) (hslots : 0 < numSlots) : SlotLayout where
  header := headerSize
  count := numSlots
  size := orderSize
  count_pos := hslots

theorem slotOffset_eq {buffer : RingBuffer} {numSlots : Nat} (hbuffer : buffer.numSlots = numSlots)
    (hslots : 0 < numSlots) (seq : Nat) : buffer.slotOffset seq = (layout numSlots hslots).offset seq := by
  rw [slotOffset, SlotLayout.offset, hbuffer]
  rfl

theorem setIndex_eq_ok {offset value : Nat} {file stored : List UInt8} (h : setIndex offset value file = .ok stored) :
    value < 2 ^ 64 ∧ stored = store offset (encodeLE 8 value) file := by
  rw [setIndex] at h
  split at h
  · next hvalue => exact ⟨hvalue, (Except.ok.inj h).symm⟩
  · cases h

theorem decodeLE_setIndex {offset value : Nat} {file : List UInt8} (hfile : offset + 8 ≤ file.length)
    (hvalue : value < 2 ^ 64) :
    decodeLE (slice offset 8 (store offset (encodeLE 8 value) file)) = value := by
  rw [slice_store_of_within (by simpa using hfile) (Nat.le_refl _) (by simp), Nat.sub_self, slice_encodeLE,
    decodeLE_encodeLE hvalue]

end RingBuffer

/-! ### The two processes -/

/-- Where the writer stands in `write`. -/
inductive WriterPc
  | idle
  | storing (packedOrder : List UInt8) (writeIndex : Nat)
  | publishing (packedOrder : List UInt8) (writeIndex : Nat)
deriving DecidableEq

/-- Where the reader stands in `read`. -/
inductive ReaderPc
  | idle
  | comparing (writeIndex : Nat)
  | loading (readIndex : Nat)
  | publishing (readIndex : Nat) (data : List UInt8)
deriving DecidableEq

inductive PipelineAction
  | startWrite (packedOrder : List UInt8)
  | writer
  | startRead
  | reader
deriving DecidableEq

/-- The processes and their file, with the records that `write` has returned from and the records that `read`
has returned. -/
structure Pipeline where
  file : List UInt8
  writer : RingBuffer
  reader : RingBuffer
  writerPc : WriterPc := .idle
  readerPc : ReaderPc := .idle
  written : List (List UInt8) := []
  returned : List (List UInt8) := []
deriving DecidableEq

namespace Pipeline

open RingBuffer

/-- The writer creates the buffer and the reader attaches to it. -/
def initial (numSlots : Nat) : Pipeline :=
  let (writer, file) := RingBuffer.create numSlots
  { file, writer, reader := RingBuffer.attach file }

/-- The call of `write` up to its load of the write index. -/
def startWrite (packedOrder : List UInt8) (p : Pipeline) : Pipeline :=
  if packedOrder.length ≠ orderSize then p
  else { p with writerPc := .storing packedOrder (getWriteIndex p.file) }

def stepWriter (p : Pipeline) : Option Pipeline :=
  match p.writerPc with
  | .idle => none
  | .storing packedOrder writeIndex => some { p with
      file := store (p.writer.slotOffset writeIndex) packedOrder p.file
      writerPc := .publishing packedOrder writeIndex }
  | .publishing packedOrder writeIndex =>
      match setWriteIndex (writeIndex + 1) p.file with
      | .error _ => some { p with writerPc := .idle }
      | .ok file => some { p with file, writerPc := .idle, written := p.written ++ [packedOrder] }

/-- After `comparing`, a read that finds nothing new returns `None`. -/
def stepReader (p : Pipeline) : Option Pipeline :=
  match p.readerPc with
  | .idle => none
  | .comparing writeIndex =>
      let readIndex := getReadIndex p.file
      if writeIndex ≤ readIndex then some { p with readerPc := .idle }
      else some { p with readerPc := .loading readIndex }
  | .loading readIndex => some { p with
      readerPc := .publishing readIndex (slice (p.reader.slotOffset readIndex) orderSize p.file) }
  | .publishing readIndex data =>
      match setReadIndex (readIndex + 1) p.file with
      | .error _ => some { p with readerPc := .idle }
      | .ok file => some { p with file, readerPc := .idle, returned := p.returned ++ [data] }

def step : PipelineAction → Pipeline → Option Pipeline
  | .startWrite packedOrder, p => if p.writerPc = .idle then some (p.startWrite packedOrder) else none
  | .writer, p => p.stepWriter
  | .startRead, p =>
      if p.readerPc = .idle then some { p with readerPc := .comparing (getWriteIndex p.file) } else none
  | .reader, p => p.stepReader

/-- A write is started only when there is room, as the sizes that the writers choose make sure. -/
def WriteFindsRoom (numSlots : Nat) : PipelineAction → Pipeline → Prop
  | .startWrite _, p => pendingCount p.file < numSlots
  | _, _ => True

instance (numSlots : Nat) : ∀ action p, Decidable (WriteFindsRoom numSlots action p)
  | .startWrite _, _ => inferInstanceAs (Decidable (_ < _))
  | .writer, _ => .isTrue trivial
  | .startRead, _ => .isTrue trivial
  | .reader, _ => .isTrue trivial

/-! ### What holds between the steps -/

section Invariant

variable (numSlots : Nat) (hslots : 0 < numSlots)

/-- What the writer is about to publish. -/
def WriterInv (p : Pipeline) : Prop :=
  match p.writerPc with
  | .idle => True
  | .storing packedOrder writeIndex =>
      packedOrder.length = orderSize ∧ writeIndex = p.written.length ∧
        p.written.length < p.returned.length + numSlots
  | .publishing packedOrder writeIndex =>
      writeIndex = p.written.length ∧ p.written.length < p.returned.length + numSlots ∧
        slice ((layout numSlots hslots).offset writeIndex) orderSize p.file = packedOrder

/-- What the reader knows of the file. -/
def ReaderInv (p : Pipeline) : Prop :=
  match p.readerPc with
  | .idle => True
  | .comparing writeIndex => writeIndex ≤ p.written.length
  | .loading readIndex => readIndex = p.returned.length ∧ readIndex < p.written.length
  | .publishing readIndex data => readIndex = p.returned.length ∧ p.written[readIndex]? = some data

structure Inv (p : Pipeline) : Prop where
  length : p.file.length = (layout numSlots hslots).length
  writer : p.writer.numSlots = numSlots
  reader : p.reader.numSlots = numSlots
  writeIndex : getWriteIndex p.file = p.written.length
  readIndex : getReadIndex p.file = p.returned.length
  fifo : p.returned <+: p.written
  window : p.written.length ≤ p.returned.length + numSlots
  slots : ∀ seq data, p.returned.length ≤ seq → p.written[seq]? = some data →
    slice ((layout numSlots hslots).offset seq) orderSize p.file = data
  writerPc : p.WriterInv numSlots hslots
  readerPc : p.ReaderInv

end Invariant

section Steps

variable {numSlots : Nat} {hslots : 0 < numSlots} {p p' : Pipeline}

theorem Inv.headerSize_le (hinv : p.Inv numSlots hslots) : headerSize ≤ p.file.length := by
  rw [hinv.length]
  exact (layout numSlots hslots).header_le_length

theorem inv_initial (numSlots : Nat) (hslots : 0 < numSlots) : (initial numSlots).Inv numSlots hslots := by
  have hlength : (initial numSlots).file.length = (layout numSlots hslots).length := by
    rw [initial, RingBuffer.create, List.length_replicate, SlotLayout.length, Nat.mul_comm]
    rfl
  have hindex : ∀ a, decodeLE (slice a 8 (initial numSlots).file) = 0 := by
    intro a
    rw [initial, RingBuffer.create, slice_replicate, decodeLE_replicate_zero]
  have hreader : (initial numSlots).reader.numSlots = numSlots := by
    have hdiv : (headerSize + orderSize * numSlots - headerSize) / orderSize = numSlots := by
      rw [Nat.add_sub_cancel_left, Nat.mul_div_cancel_left _ (by decide)]
    simpa only [initial, RingBuffer.create, attach, List.length_replicate] using hdiv
  exact {
    length := hlength
    writer := rfl
    reader := hreader
    writeIndex := hindex 0
    readIndex := hindex 8
    fifo := List.prefix_rfl
    window := Nat.zero_le _
    slots := fun seq data _ hdata => (by cases hdata)
    writerPc := trivial
    readerPc := trivial }

theorem Inv.startWrite (hinv : p.Inv numSlots hslots) {packedOrder : List UInt8}
    (hroom : WriteFindsRoom numSlots (.startWrite packedOrder) p) : (p.startWrite packedOrder).Inv numSlots hslots := by
  rw [Pipeline.startWrite]
  split
  · exact hinv
  · next hlength =>
      have hpending : pendingCount p.file < numSlots := hroom
      rw [pendingCount, hinv.writeIndex, hinv.readIndex] at hpending
      have hwindow : p.written.length < p.returned.length + numSlots := by omega
      exact { hinv with writerPc := ⟨not_not.mp hlength, hinv.writeIndex, hwindow⟩ }

theorem slot_free (hslots : 0 < numSlots) (hroom : p.written.length < p.returned.length + numSlots)
    {seq : Nat} (hunread : p.returned.length ≤ seq) (hseq : seq < p.written.length) :
    seq % numSlots ≠ p.written.length % numSlots :=
  (layout numSlots hslots).mod_ne_of_lt hseq (lt_of_lt_of_le hroom (Nat.add_le_add_right hunread numSlots))

/-- The reader does not notice that another record is published. -/
theorem ReaderInv.append (hpc : p.ReaderInv) (packedOrder : List UInt8) (file : List UInt8) :
    ReaderInv { p with file, writerPc := .idle, written := p.written ++ [packedOrder] } := by
  rw [ReaderInv] at hpc ⊢
  have hlength : p.written.length ≤ (p.written ++ [packedOrder]).length := by simp
  dsimp only
  split at hpc
  · trivial
  · exact hpc.trans hlength
  · exact ⟨hpc.1, hpc.2.trans_le hlength⟩
  · next heq =>
      refine ⟨hpc.1, ?_⟩
      rw [List.getElem?_append_left (List.getElem?_eq_some_iff.mp hpc.2).1]
      exact hpc.2

theorem WriterInv.append (hpc : p.WriterInv numSlots hslots) (data : List UInt8) {file : List UInt8}
    (hslot : ∀ seq, slice ((layout numSlots hslots).offset seq) orderSize file =
      slice ((layout numSlots hslots).offset seq) orderSize p.file) :
    WriterInv numSlots hslots { p with file, readerPc := .idle, returned := p.returned ++ [data] } := by
  rw [WriterInv] at hpc ⊢
  have hlength : p.returned.length + numSlots ≤ (p.returned ++ [data]).length + numSlots := by simp
  dsimp only
  split at hpc
  · trivial
  · exact ⟨hpc.1, hpc.2.1, hpc.2.2.trans_le hlength⟩
  · exact ⟨hpc.1, hpc.2.1.trans_le hlength, (hslot _).trans hpc.2.2⟩

theorem Inv.storeIndex (hinv : p.Inv numSlots hslots) (offset : Nat) {value : Nat} (hoffset : offset + 8 ≤ headerSize)
    (hvalue : value < 2 ^ 64) :
    (store offset (encodeLE 8 value) p.file).length = (layout numSlots hslots).length ∧
      decodeLE (slice offset 8 (store offset (encodeLE 8 value) p.file)) = value ∧
      (∀ other, other + 8 ≤ offset ∨ offset + 8 ≤ other →
        slice other 8 (store offset (encodeLE 8 value) p.file) = slice other 8 p.file) ∧
      ∀ seq, slice ((layout numSlots hslots).offset seq) orderSize (store offset (encodeLE 8 value) p.file) =
        slice ((layout numSlots hslots).offset seq) orderSize p.file := by
  have hfile : offset + 8 ≤ p.file.length := hoffset.trans hinv.headerSize_le
  have hfits : offset + (encodeLE 8 value).length ≤ p.file.length := by rwa [length_encodeLE]
  refine ⟨(length_store hfits).trans hinv.length, decodeLE_setIndex hfile hvalue, fun other hother => ?_,
    fun seq => ?_⟩
  · apply slice_store_of_disjoint hfits
    rwa [length_encodeLE]
  · apply (layout numSlots hslots).slice_offset_store hinv.headerSize_le
    rw [length_encodeLE]
    exact hoffset

theorem Inv.storeSlot (hinv : p.Inv numSlots hslots) {packedOrder : List UInt8} (hdata : packedOrder.length = orderSize)
    (hroom : p.written.length < p.returned.length + numSlots) :
    Inv numSlots hslots { p with
      file := store ((layout numSlots hslots).offset p.written.length) packedOrder p.file
      writerPc := .publishing packedOrder p.written.length } := by
  have hslot : ∀ seq, _ = if seq % numSlots = p.written.length % numSlots then packedOrder else
      slice ((layout numSlots hslots).offset seq) orderSize p.file :=
    (layout numSlots hslots).slice_store hinv.length hdata p.written.length
  have hheader : ∀ {a}, a + 8 ≤ headerSize → _ :=
    (layout numSlots hslots).slice_header_store hinv.length hdata p.written.length
  have hlength : (store ((layout numSlots hslots).offset p.written.length) packedOrder p.file).length =
      p.file.length := by
    apply length_store
    rw [hinv.length, hdata]
    exact (layout numSlots hslots).offset_le _
  exact {
    length := hlength.trans hinv.length
    writer := hinv.writer
    reader := hinv.reader
    writeIndex := (congrArg decodeLE (hheader (by decide))).trans hinv.writeIndex
    readIndex := (congrArg decodeLE (hheader (by decide))).trans hinv.readIndex
    fifo := hinv.fifo
    window := hinv.window
    slots := by
      intro seq data hunread hread
      refine (hslot seq).trans ?_
      rw [if_neg (slot_free hslots hroom hunread (List.getElem?_eq_some_iff.mp hread).1)]
      exact hinv.slots seq data hunread hread
    writerPc := ⟨rfl, hroom, (hslot _).trans (if_pos rfl)⟩
    readerPc := hinv.readerPc }

theorem Inv.publishWrite (hinv : p.Inv numSlots hslots) {packedOrder : List UInt8}
    (hroom : p.written.length < p.returned.length + numSlots)
    (hstored : slice ((layout numSlots hslots).offset p.written.length) orderSize p.file = packedOrder)
    (hvalue : p.written.length + 1 < 2 ^ 64) :
    Inv numSlots hslots { p with
      file := store 0 (encodeLE 8 (p.written.length + 1)) p.file
      writerPc := .idle
      written := p.written ++ [packedOrder] } := by
  obtain ⟨hlength, hindex, hother, hslot⟩ := hinv.storeIndex 0 (by decide) hvalue
  exact {
    length := hlength
    writer := hinv.writer
    reader := hinv.reader
    writeIndex := hindex.trans (by rw [List.length_append, List.length_singleton])
    readIndex := (congrArg decodeLE (hother 8 (by decide))).trans hinv.readIndex
    fifo := hinv.fifo.trans (List.prefix_append _ _)
    window := by
      rw [List.length_append, List.length_singleton]
      exact hroom
    slots := by
      intro seq data hunread hread
      refine (hslot seq).trans ?_
      rcases Nat.lt_or_ge seq p.written.length with hold | hnew
      · rw [List.getElem?_append_left hold] at hread
        exact hinv.slots seq data hunread hread
      · rw [List.getElem?_append_right hnew, List.getElem?_singleton] at hread
        split at hread
        · next hlast =>
            rw [← Option.some.inj hread, ← hstored, Nat.le_antisymm (Nat.le_of_sub_eq_zero hlast) hnew]
        · cases hread
    writerPc := trivial
    readerPc := hinv.readerPc.append packedOrder _ }

theorem Inv.publishRead (hinv : p.Inv numSlots hslots) {data : List UInt8}
    (hread : p.written[p.returned.length]? = some data) (hvalue : p.returned.length + 1 < 2 ^ 64) :
    Inv numSlots hslots { p with
      file := store 8 (encodeLE 8 (p.returned.length + 1)) p.file
      readerPc := .idle
      returned := p.returned ++ [data] } := by
  obtain ⟨hlength, hindex, hother, hslot⟩ := hinv.storeIndex 8 (by decide) hvalue
  exact {
    length := hlength
    writer := hinv.writer
    reader := hinv.reader
    writeIndex := (congrArg decodeLE (hother 0 (by decide))).trans hinv.writeIndex
    readIndex := hindex.trans (by rw [List.length_append, List.length_singleton])
    fifo := by
      have htake := List.take_add_one (l := p.written) (i := p.returned.length)
      rw [hread, ← List.prefix_iff_eq_take.mp hinv.fifo] at htake
      exact htake ▸ List.take_prefix _ _
    window := by
      rw [List.length_append]
      exact hinv.window.trans (by omega)
    slots := by
      intro seq data' hseq hread'
      rw [List.length_append, List.length_singleton] at hseq
      exact (hslot seq).trans (hinv.slots seq data' (by omega) hread')
    writerPc := hinv.writerPc.append data hslot
    readerPc := trivial }

theorem Inv.stepWriter (hinv : p.Inv numSlots hslots) (hstep : p.stepWriter = some p') : p'.Inv numSlots hslots := by
  have hpc := hinv.writerPc
  rw [Pipeline.stepWriter] at hstep
  rw [WriterInv] at hpc
  split at hstep
  · cases hstep
  · next packedOrder writeIndex heq =>
      rw [heq] at hpc
      obtain ⟨hdata, rfl, hroom⟩ := hpc
      rw [slotOffset_eq hinv.writer hslots] at hstep
      cases hstep
      exact hinv.storeSlot hdata hroom
  · next packedOrder writeIndex heq =>
      rw [heq] at hpc
      obtain ⟨rfl, hroom, hstored⟩ := hpc
      split at hstep
      · cases hstep
        exact { hinv with writerPc := trivial }
      · next file hset =>
          obtain ⟨hvalue, rfl⟩ := setIndex_eq_ok hset
          cases hstep
          exact hinv.publishWrite hroom hstored hvalue

theorem Inv.stepReader (hinv : p.Inv numSlots hslots) (hstep : p.stepReader = some p') : p'.Inv numSlots hslots := by
  have hpc := hinv.readerPc
  rw [Pipeline.stepReader] at hstep
  rw [ReaderInv] at hpc
  split at hstep
  · cases hstep
  · next writeIndex heq =>
      rw [heq] at hpc
      dsimp only at hstep
      split at hstep
      · cases hstep
        exact { hinv with readerPc := trivial }
      · next hnew =>
          cases hstep
          have hunread : p.returned.length < p.written.length := by
            rw [hinv.readIndex] at hnew
            exact lt_of_lt_of_le (Nat.lt_of_not_le hnew) hpc
          exact { hinv with readerPc := ⟨hinv.readIndex, by rwa [hinv.readIndex]⟩ }
  · next readIndex heq =>
      rw [heq] at hpc
      obtain ⟨rfl, hunread⟩ := hpc
      cases hstep
      have hread := List.getElem?_eq_getElem hunread
      refine { hinv with readerPc := ⟨rfl, hread.trans (congrArg some ?_)⟩ }
      rw [slotOffset_eq hinv.reader hslots]
      exact (hinv.slots _ _ (Nat.le_refl _) hread).symm
  · next readIndex data heq =>
      rw [heq] at hpc
      obtain ⟨rfl, hread⟩ := hpc
      split at hstep
      · cases hstep
        exact { hinv with readerPc := trivial }
      · next file hset =>
          obtain ⟨hvalue, rfl⟩ := setIndex_eq_ok hset
          cases hstep
          exact hinv.publishRead hread hvalue

theorem Inv.step (hinv : p.Inv numSlots hslots) {action : PipelineAction} (hroom : WriteFindsRoom numSlots action p)
    (hstep : step action p = some p') : p'.Inv numSlots hslots := by
  cases action with
  | startWrite packedOrder =>
      rw [Pipeline.step] at hstep
      split at hstep
      · cases hstep
        exact hinv.startWrite hroom
      · cases hstep
  | writer => exact hinv.stepWriter hstep
  | startRead =>
      rw [Pipeline.step] at hstep
      split at hstep
      · cases hstep
        exact { hinv with readerPc := hinv.writeIndex.le }
      · cases hstep
  | reader => exact hinv.stepReader hstep

end Steps

/-! ### Safety -/

/-- The slot of a write that is under way. -/
def slotWritten (p : Pipeline) : Option Nat :=
  match p.writerPc with
  | .idle => none
  | .storing _ writeIndex => some (p.writer.slotOffset writeIndex)
  | .publishing _ writeIndex => some (p.writer.slotOffset writeIndex)

/-- The slot that the reader is about to copy. -/
def slotRead (p : Pipeline) : Option Nat :=
  match p.readerPc with
  | .loading readIndex => some (p.reader.slotOffset readIndex)
  | _ => none

/-- What one writer and one reader rely on. -/
structure Safe (numSlots : Nat) (p : Pipeline) : Prop where
  /-- The records come out as they went in, each once and in order. -/
  fifo : p.returned <+: p.written
  readIndex_le : getReadIndex p.file ≤ getWriteIndex p.file
  writeIndex_le : getWriteIndex p.file ≤ getReadIndex p.file + numSlots
  /-- No slot is copied in the middle of a write to it. -/
  apart : ∀ r ∈ p.slotRead, ∀ w ∈ p.slotWritten, r + orderSize ≤ w ∨ w + orderSize ≤ r

theorem Inv.safe {numSlots : Nat} {hslots : 0 < numSlots} {p : Pipeline} (hinv : p.Inv numSlots hslots) :
    p.Safe numSlots where
  fifo := hinv.fifo
  readIndex_le := by
    rw [hinv.readIndex, hinv.writeIndex]
    exact hinv.fifo.length_le
  writeIndex_le := by
    rw [hinv.readIndex, hinv.writeIndex]
    exact hinv.window
  apart := by
    intro r hr w hw
    have hreader := hinv.readerPc
    have hwriter := hinv.writerPc
    rw [ReaderInv] at hreader
    rw [slotRead] at hr
    split at hr
    · next readIndex heq =>
        rw [heq] at hreader
        obtain ⟨rfl, hunread⟩ := hreader
        cases hr
        rw [slotOffset_eq hinv.reader hslots]
        -- the write under way is to the slot behind the records written
        obtain ⟨hroom, rfl⟩ : p.written.length < p.returned.length + numSlots ∧
            w = p.writer.slotOffset p.written.length := by
          rw [WriterInv] at hwriter
          rw [slotWritten] at hw
          split at hw
          · cases hw
          · next heq' =>
              rw [heq'] at hwriter
              obtain ⟨-, rfl, hroom⟩ := hwriter
              exact ⟨hroom, (Option.some.inj hw).symm⟩
          · next heq' =>
              rw [heq'] at hwriter
              obtain ⟨rfl, hroom, -⟩ := hwriter
              exact ⟨hroom, (Option.some.inj hw).symm⟩
        rw [slotOffset_eq hinv.writer hslots]
        exact (layout numSlots hslots).offset_disjoint (slot_free hslots hroom (Nat.le_refl _) hunread)
    · cases hr

/-- Whatever the interleaving of a writer that finds room and a reader, they are safe. -/
theorem pipeline_run_safe {numSlots : Nat} (hslots : 1 ≤ numSlots) {actions : List PipelineAction} {p : Pipeline}
    (hrun : Transition.run step actions (initial numSlots) = some p)
    (hroom : Transition.Throughout step (WriteFindsRoom numSlots) actions (initial numSlots)) : p.Safe numSlots :=
  (Transition.invariant_throughout (fun hroom' hstep' hinv => Inv.step hinv hroom' hstep') hrun hroom
    (inv_initial numSlots hslots)).safe

theorem pipeline_run_safe_secondLap :
    ∃ p, Transition.run step [.startWrite (List.replicate 33 1), .writer, .writer, .startWrite (List.replicate 33 2),
        .startRead, .writer, .reader, .reader, .writer, .reader, .startWrite (List.replicate 33 3), .startRead,
        .writer, .reader, .writer, .reader, .reader] (initial 2) = some p ∧
      p.returned = [List.replicate 33 1, List.replicate 33 2] ∧ p.Safe 2 := by
  have hreturned : (Transition.run step [.startWrite (List.replicate 33 1), .writer, .writer,
      .startWrite (List.replicate 33 2), .startRead, .writer, .reader, .reader, .writer, .reader,
      .startWrite (List.replicate 33 3), .startRead, .writer, .reader, .writer, .reader, .reader]
      (initial 2)).map Pipeline.returned = some [List.replicate 33 1, List.replicate 33 2] := by decide
  obtain ⟨p, hrun, hp⟩ := Option.map_eq_some_iff.mp hreturned
  exact ⟨p, hrun, hp, pipeline_run_safe (by decide) hrun (by decide)⟩

end Pipeline

end ChronosMatch
