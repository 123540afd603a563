import ChronosMatch.Ipc.RingConservation

/-!
# A writer and a reader that race

The lock of a buffer belongs to a handle, so two processes on one file do not exclude each other: the three
steps of a write (header, slot, counters) and the three of a primary read (header, slot, tail) interleave. Both
store a tail that they have derived from the header they read, and the later store wins.
-/

namespace ChronosMatch

open Bytes

/-! ### Interleaved operations -/

/-- Where a write stands: the header it has read, and its plan. -/
inductive Writing
  | idle
  | planned (header : MmapHeader) (plan : MmapRingBuffer.WritePlan) (data : List UInt8)
  | stored (header : MmapHeader) (plan : MmapRingBuffer.WritePlan)

/-- Where a read stands: the header it has read, and the sequence number that it reads. -/
inductive Reading
  | idle
  | found (header : MmapHeader) (seq : Nat)
  | loaded (header : MmapHeader) (seq : Nat) (data : List UInt8)

def Writing.inFlight : Writing → Option (MmapHeader × MmapRingBuffer.WritePlan)
  | idle => none
  | planned header plan _ => some (header, plan)
  | stored header plan => some (header, plan)

def Reading.inFlight : Reading → Option (MmapHeader × Nat)
  | idle => none
  | found header seq => some (header, seq)
  | loaded header seq _ => some (header, seq)

/-- The file, a handle in each of two processes, and the records that the reader has finished reading. -/
structure RaceSystem where
  file : List UInt8
  writer : MmapRingBuffer
  reader : MmapRingBuffer
  writing : Writing := .idle
  reading : Reading := .idle
  finished : List (Nat × List UInt8) := []

def RaceSystem.header (s : RaceSystem) : MmapHeader := MmapHeader.unpack s.file

inductive RaceAction
  | write (data : List UInt8) (overwriteIfFull : Bool)
  | storeSlot
  | storeCounters
  | read
  | loadSlot
  | storeTail
  | attach

/-- A call that raises or has nothing to do returns at its first step. A new reader may take over between
two reads. -/
def RaceAction.step : RaceAction → RaceSystem → Option RaceSystem
  | .write data overwriteIfFull, s =>
      match s.writing with
      | .idle =>
          if s.writer.isClosed then some s
          else if data.length ≠ s.writer.recordSize then some s
          else
            match s.writer.readHeader s.file with
            | .error _ => some s
            | .ok header =>
                match s.writer.planWrite overwriteIfFull header with
                | .ok (some plan) => some { s with writing := .planned header plan data }
                | _ => some s
      | _ => none
  | .storeSlot, s =>
      match s.writing with
      | .planned header plan data =>
          match MmapRingBuffer.storeSlot plan.offset data s.file with
          | .ok file => some { s with file, writing := .stored header plan }
          | .error _ => some { s with writing := .idle }
      | _ => none
  | .storeCounters, s =>
      match s.writing with
      | .stored _ plan =>
          match plan.packedUpdate with
          | .ok packedUpdate => some { s with file := store 22 packedUpdate s.file, writing := .idle }
          | .error _ => some { s with writing := .idle }
      | _ => none
  | .read, s =>
      match s.reading with
      | .idle =>
          match s.reader.readHeader s.file with
          | .error _ => some s
          | .ok header =>
              match s.reader.seqToRead header.headSeq s.reader.localReadSeq with
              | none => some s
              | some seq =>
                  if s.reader.capacity = 0 then some s else some { s with reading := .found header seq }
      | _ => none
  | .loadSlot, s =>
      match s.reading with
      | .found header seq => some { s with reading := .loaded header seq (s.reader.loadSlot seq s.file) }
      | _ => none
  | .storeTail, s =>
      match s.reading with
      | .loaded header seq data => some { s with
          file := MmapRingBuffer.storeTail header.tailSeq (seq + 1) s.file
          reader := { s.reader with localReadSeq := seq + 1 }
          reading := .idle
          finished := s.finished ++ [(seq, data)] }
      | _ => none
  | .attach, s =>
      match s.reading with
      | .idle =>
          match MmapRingBuffer.attachBuffer s.file with
          | .ok reader => some { s with reader }
          | .error _ => some s
      | _ => none

/-! ### Uninterrupted operations -/

section Uninterrupted

variable (s : RaceSystem)

/-- Some of the leading steps of a write, with nothing in between, are `write`. -/
theorem RaceAction.write_uninterrupted (hidle : s.writing = .idle) (data : List UInt8) (overwriteIfFull : Bool) :
    ∃ n, Transition.run RaceAction.step ([.write data overwriteIfFull, .storeSlot, .storeCounters].take (n + 1)) s =
      some { s with file := (s.writer.write data overwriteIfFull s.file).2 } := by
  obtain ⟨file, writer, reader, writing, reading, finished⟩ := s
  cases hidle
  rw [MmapRingBuffer.write]
  by_cases hclosed : writer.isClosed = true
  · refine ⟨0, ?_⟩
    simp [Transition.run, RaceAction.step, hclosed]
  by_cases hlength : data.length ≠ writer.recordSize
  · refine ⟨0, ?_⟩
    simp [Transition.run, RaceAction.step, hclosed, hlength]
  rw [if_neg hclosed, if_neg hlength]
  cases hheader : writer.readHeader file with
  | error err =>
      refine ⟨0, ?_⟩
      simp [Transition.run, RaceAction.step, hclosed, hlength, hheader]
  | ok header =>
      cases hplan : writer.planWrite overwriteIfFull header with
      | error err =>
          refine ⟨0, ?_⟩
          simp [Transition.run, RaceAction.step, hclosed, hlength, hheader, hplan]
      | ok plan =>
          cases plan with
          | none =>
              refine ⟨0, ?_⟩
              simp [Transition.run, RaceAction.step, hclosed, hlength, hheader, hplan]
          | some plan =>
              cases hstore : MmapRingBuffer.storeSlot plan.offset data file with
              | error err =>
                  refine ⟨1, ?_⟩
                  simp [Transition.run, RaceAction.step, hclosed, hlength, hheader, hplan, hstore]
              | ok stored =>
                  refine ⟨2, ?_⟩
                  cases hpack : plan.packedUpdate <;>
                    simp [Transition.run, RaceAction.step, hclosed, hlength, hheader, hplan, hstore, hpack]

theorem RaceAction.read_uninterrupted (hidle : s.reading = .idle) :
    ∃ n finished, Transition.run RaceAction.step ([.read, .loadSlot, .storeTail].take (n + 1)) s =
      some { s with
        file := (s.reader.read none s.file).2.2
        reader := (s.reader.read none s.file).2.1
        finished := s.finished ++ finished } := by
  obtain ⟨file, writer, reader, writing, reading, finished⟩ := s
  cases hidle
  rw [MmapRingBuffer.read]
  by_cases hclosed : reader.isClosed = true
  · refine ⟨0, [], ?_⟩
    simp [Transition.run, RaceAction.step, MmapRingBuffer.readHeader, hclosed]
  rw [if_neg hclosed]
  cases hheader : reader.readHeader file with
  | error err =>
      refine ⟨0, [], ?_⟩
      simp [Transition.run, RaceAction.step, hheader]
  | ok header =>
      dsimp only
      cases hseq : reader.seqToRead header.headSeq reader.localReadSeq with
      | none =>
          refine ⟨0, [], ?_⟩
          simp [Transition.run, RaceAction.step, hheader, hseq]
      | some seq =>
          by_cases hcapacity : reader.capacity = 0
          · refine ⟨0, [], ?_⟩
            simp [Transition.run, RaceAction.step, hheader, hseq, hcapacity]
          · refine ⟨2, [(seq, reader.loadSlot seq file)], ?_⟩
            simp [Transition.run, RaceAction.step, hheader, hseq, hcapacity]

end Uninterrupted

/-! ### What a step does to the header -/

/-- The counters stand as in a ring, and no more was dropped than lies before the tail. -/
structure RingCounters (shape : RingShape) (header : MmapHeader) : Prop where
  capacity : header.capacity = shape.capacity
  recordSize : header.recordSize = shape.recordSize
  tail_le : header.tailSeq ≤ header.headSeq
  window : header.headSeq ≤ header.tailSeq + shape.capacity
  dropped_le : header.droppedCount ≤ header.tailSeq
  bounded : header.headSeq < 2 ^ 64

/-- The plan that a write has made from the header that it found. -/
structure PlannedFrom (shape : RingShape) (header : MmapHeader) (plan : MmapRingBuffer.WritePlan) : Prop where
  offset : plan.offset = shape.slot header.headSeq
  head : plan.head = header.headSeq + 1
  counters : (header.headSeq = header.tailSeq + shape.capacity ∧ plan.tail = header.tailSeq + 1 ∧
      plan.dropped = header.droppedCount + 1) ∨
    (header.headSeq < header.tailSeq + shape.capacity ∧ plan.tail = header.tailSeq ∧
      plan.dropped = header.droppedCount)

section Header

variable {shape : RingShape} {header : MmapHeader} {plan : MmapRingBuffer.WritePlan} {h : MmapRingBuffer}

theorem RingCounters.plannedFrom (hcounters : RingCounters shape header) (hfits : h.Fits shape)
    {overwriteIfFull : Bool} (hplan : h.planWrite overwriteIfFull header = .ok (some plan)) :
    PlannedFrom shape header plan := by
  have hwindow := hcounters.window
  have hpos := shape.capacity_pos
  rw [hfits.planWrite hcounters.tail_le] at hplan
  by_cases hfull : shape.capacity ≤ header.headSeq - header.tailSeq
  · rw [if_pos hfull] at hplan
    cases overwriteIfFull with
    | false => cases hplan
    | true =>
        cases hplan
        exact ⟨rfl, rfl, .inl ⟨by omega, show header.headSeq - shape.capacity + 1 = header.tailSeq + 1 by omega, rfl⟩⟩
  · rw [if_neg hfull] at hplan
    cases hplan
    exact ⟨rfl, rfl, .inr ⟨by omega, rfl, rfl⟩⟩

theorem PlannedFrom.packedUpdate (hplan : PlannedFrom shape header plan) (hcounters : RingCounters shape header) :
    plan.packedUpdate = if header.headSeq + 1 < 2 ^ 64 then
      .ok (encodeLE 8 plan.head ++ (encodeLE 8 plan.tail ++ encodeLE 8 plan.dropped)) else .error .structError := by
  have htail := hcounters.tail_le
  have hdropped := hcounters.dropped_le
  have hhead := hplan.head
  rw [MmapRingBuffer.WritePlan.packedUpdate]
  rcases hplan.counters with ⟨-, htail', hdropped'⟩ | ⟨-, htail', hdropped'⟩
  · exact if_congr (by omega) rfl rfl
  · exact if_congr (by omega) rfl rfl

/-- The tail that a plan stores is the one that was found or, when a record is dropped, the next. -/
theorem PlannedFrom.tail_le (hplan : PlannedFrom shape header plan) : header.tailSeq ≤ plan.tail := by
  rcases hplan.counters with ⟨-, htail, -⟩ | ⟨-, htail, -⟩ <;> omega

theorem PlannedFrom.ringCounters (hplan : PlannedFrom shape header plan) {current : MmapHeader}
    (hcurrent : RingCounters shape current) (hhead : current.headSeq = header.headSeq)
    (htail : current.tailSeq = header.tailSeq) (hdropped : current.droppedCount = header.droppedCount)
    (hroom : header.headSeq + 1 < 2 ^ 64) :
    RingCounters shape { current with headSeq := plan.head, tailSeq := plan.tail, droppedCount := plan.dropped } := by
  have hplanHead := hplan.head
  have htailLe := hcurrent.tail_le
  have hdroppedLe := hcurrent.dropped_le
  have hpos := shape.capacity_pos
  rcases hplan.counters with ⟨hfull, hplanTail, hplanDropped⟩ | ⟨hfree, hplanTail, hplanDropped⟩
  · refine ⟨hcurrent.capacity, hcurrent.recordSize, ?_, ?_, ?_, ?_⟩ <;> dsimp only <;> omega
  · refine ⟨hcurrent.capacity, hcurrent.recordSize, ?_, ?_, ?_, ?_⟩ <;> dsimp only <;> omega

/-- A write that drops the record at the cursor leaves the cursor behind a full ring. -/
theorem PlannedFrom.cursor (hplan : PlannedFrom shape header plan) {seq : Nat}
    (hcursor : Cursor shape header.headSeq header.tailSeq seq) : Cursor shape plan.head plan.tail seq := by
  have hplanHead := hplan.head
  rcases hplan.counters with ⟨hfull, hplanTail, -⟩ | ⟨hfree, hplanTail, -⟩
  · right
    rcases hcursor with hat | ⟨hbehind, -⟩
    · exact ⟨by omega, by omega⟩
    · exact ⟨by omega, by omega⟩
  · left
    rcases hcursor with hat | ⟨-, hfull⟩
    · omega
    · omega

end Header

/-! ### The invariant -/

/-- Since a write found its header, only the reader has moved the tail, past records that it has finished. -/
structure WriteInFlight (shape : RingShape) (finished : List (Nat × List UInt8)) (current header : MmapHeader)
    (plan : MmapRingBuffer.WritePlan) : Prop where
  found : RingCounters shape header
  planned : PlannedFrom shape header plan
  headSeq : current.headSeq = header.headSeq
  droppedCount : current.droppedCount = header.droppedCount
  tail_le : header.tailSeq ≤ current.tailSeq
  finished : ∀ seq, header.tailSeq ≤ seq → seq < current.tailSeq → seq ∈ finished.map Prod.fst

/-- A read in flight reads the record at the tail that it found. -/
structure ReadInFlight (current header : MmapHeader) (seq : Nat) : Prop where
  seq_eq : seq = header.tailSeq
  unread : header.tailSeq < header.headSeq
  head_le : header.headSeq ≤ current.headSeq
  tail_le : header.tailSeq ≤ current.tailSeq

structure RaceInvariant (shape : RingShape) (s : RaceSystem) : Prop where
  length : s.file.length = shape.fileLength
  counters : RingCounters shape s.header
  writer : s.writer.Fits shape
  reader : s.reader.Fits shape
  cursor : Cursor shape s.header.headSeq s.header.tailSeq s.reader.localReadSeq
  finished : ∀ d ∈ s.finished, d.1 < s.header.tailSeq
  writing : ∀ p ∈ s.writing.inFlight, WriteInFlight shape s.finished s.header p.1 p.2
  reading : ∀ p ∈ s.reading.inFlight, ReadInFlight s.header p.1 p.2

/-- The tail does not go back, and when a drop is counted, the record that goes, a lap before the head, is not
one that the reader has finished reading. -/
structure AcknowledgementsKept (s s' : RaceSystem) : Prop where
  tail : s.header.tailSeq ≤ s'.header.tailSeq
  dropped : s.header.droppedCount < s'.header.droppedCount →
    s.header.headSeq - s.writer.capacity ∉ s.finished.map Prod.fst

/-- No other step has moved the tail since a write that stores its counters found it, and at most one has since
a read that stores its tail found it. -/
def RaceAction.timely : RaceAction → RaceSystem → Prop
  | .storeCounters, s => ∀ p ∈ s.writing.inFlight,
      p.1.headSeq + 1 < 2 ^ 64 → s.header.tailSeq = p.1.tailSeq
  | .storeTail, s => ∀ p ∈ s.reading.inFlight, s.header.tailSeq ≤ p.1.tailSeq + 1
  | _, _ => True

instance RaceAction.decidableTimely : ∀ action s, Decidable (RaceAction.timely action s)
  | .storeCounters, s => inferInstanceAs (Decidable (∀ p ∈ s.writing.inFlight,
      p.1.headSeq + 1 < 2 ^ 64 → s.header.tailSeq = p.1.tailSeq))
  | .storeTail, s => inferInstanceAs (Decidable (∀ p ∈ s.reading.inFlight, s.header.tailSeq ≤ p.1.tailSeq + 1))
  | .write _ _, _ => .isTrue trivial
  | .storeSlot, _ => .isTrue trivial
  | .read, _ => .isTrue trivial
  | .loadSlot, _ => .isTrue trivial
  | .attach, _ => .isTrue trivial

section Steps

variable {shape : RingShape} {s : RaceSystem}

theorem AcknowledgementsKept.of_header_eq {s' : RaceSystem} (hheader : s'.header = s.header) :
    AcknowledgementsKept s s' := by
  refine ⟨?_, ?_⟩
  · rw [hheader]
  · rw [hheader]
    exact fun hlt => absurd hlt (Nat.lt_irrefl _)

theorem RaceInvariant.headerSize_le (h : RaceInvariant shape s) : headerSize ≤ s.file.length := by
  rw [h.length]
  exact Nat.le_add_right _ _

theorem RaceInvariant.of_header {s' : RaceSystem} {header : MmapHeader} (hheader : s'.header = header)
    (hlength : s'.file.length = shape.fileLength) (hcounters : RingCounters shape header)
    (hwriter : s'.writer.Fits shape) (hreader : s'.reader.Fits shape)
    (hcursor : Cursor shape header.headSeq header.tailSeq s'.reader.localReadSeq)
    (hfinished : ∀ d ∈ s'.finished, d.1 < header.tailSeq)
    (hwriting : ∀ p ∈ s'.writing.inFlight, WriteInFlight shape s'.finished header p.1 p.2)
    (hreading : ∀ p ∈ s'.reading.inFlight, ReadInFlight header p.1 p.2) : RaceInvariant shape s' := by
  subst hheader
  exact ⟨hlength, hcounters, hwriter, hreader, hcursor, hfinished, hwriting, hreading⟩

theorem RaceInvariant.sameHeader (h : RaceInvariant shape s) {file : List UInt8} {writing : Writing}
    {reading : Reading} (hlength : file.length = s.file.length) (hheader : MmapHeader.unpack file = s.header)
    (hwriting : ∀ p ∈ writing.inFlight, WriteInFlight shape s.finished s.header p.1 p.2)
    (hreading : ∀ p ∈ reading.inFlight, ReadInFlight s.header p.1 p.2) :
    RaceInvariant shape { s with file, writing, reading } :=
  .of_header hheader (hlength.trans h.length) h.counters h.writer h.reader h.cursor h.finished hwriting hreading

theorem readHeader_eq {handle : MmapRingBuffer} {file : List UInt8} {header : MmapHeader}
    (hread : handle.readHeader file = .ok header) : header = MmapHeader.unpack file := by
  rw [MmapRingBuffer.readHeader] at hread
  split at hread
  · cases hread
  · split at hread <;> cases hread
    rfl

theorem RaceInvariant.write (h : RaceInvariant shape s) {header : MmapHeader}
    (hheader : s.writer.readHeader s.file = .ok header) {overwriteIfFull : Bool} {plan : MmapRingBuffer.WritePlan}
    (hplan : s.writer.planWrite overwriteIfFull header = .ok (some plan)) (data : List UInt8) :
    RaceInvariant shape { s with writing := .planned header plan data } := by
  cases readHeader_eq hheader
  refine h.sameHeader rfl rfl ?_ h.reading
  rintro p ⟨⟩
  refine ⟨h.counters, h.counters.plannedFrom h.writer hplan, rfl, rfl, Nat.le_refl _, ?_⟩
  intro seq hle hlt
  exact absurd hlt (Nat.not_lt.mpr hle)

theorem RaceInvariant.storeSlot (h : RaceInvariant shape s) {header : MmapHeader} {plan : MmapRingBuffer.WritePlan}
    {data file : List UInt8} (hwriting : s.writing = .planned header plan data)
    (hstore : MmapRingBuffer.storeSlot plan.offset data s.file = .ok file) :
    file.length = s.file.length ∧ MmapHeader.unpack file = s.header := by
  have hinFlight := h.writing (header, plan) (by rw [hwriting]; rfl)
  rw [MmapRingBuffer.storeSlot] at hstore
  split at hstore
  · next hfits =>
      cases hstore
      refine ⟨length_store hfits, MmapHeader.unpack_store_slot hfits ?_⟩
      rw [hinFlight.planned.offset]
      exact Nat.le_add_right _ _
  · cases hstore

theorem RaceInvariant.read (h : RaceInvariant shape s) {header : MmapHeader}
    (hheader : s.reader.readHeader s.file = .ok header) {seq : Nat}
    (hseq : s.reader.seqToRead header.headSeq s.reader.localReadSeq = some seq) :
    RaceInvariant shape { s with reading := .found header seq } := by
  cases readHeader_eq hheader
  apply h.sameHeader rfl rfl h.writing
  rintro p ⟨⟩
  have hat := h.reader.seqToRead h.counters.tail_le h.counters.window h.cursor
  rw [RaceSystem.header, hseq] at hat
  split at hat
  · next hunread =>
      cases hat
      exact ⟨rfl, hunread, Nat.le_refl _, Nat.le_refl _⟩
  · cases hat

theorem RaceInvariant.attach (h : RaceInvariant shape s) {reader : MmapRingBuffer}
    (hattach : MmapRingBuffer.attachBuffer s.file = .ok reader) : RaceInvariant shape { s with reader } := by
  have hreader : reader.Fits shape ∧ reader.localReadSeq = s.header.tailSeq := by
    rw [MmapRingBuffer.attachBuffer] at hattach
    split at hattach
    · cases hattach
    · dsimp only at hattach
      split at hattach
      · cases hattach
      · split at hattach <;> cases hattach
        exact ⟨⟨h.counters.capacity, h.counters.recordSize⟩, rfl⟩
  exact ⟨h.length, h.counters, h.writer, hreader.1, .inl hreader.2, h.finished, h.writing, h.reading⟩

/-! ### The stores over the tail -/

theorem RaceInvariant.storeCounters_header (h : RaceInvariant shape s) {header : MmapHeader}
    {plan : MmapRingBuffer.WritePlan} {packedUpdate : List UInt8}
    (hinFlight : s.writing.inFlight = some (header, plan)) (hpack : plan.packedUpdate = .ok packedUpdate) :
    header.headSeq + 1 < 2 ^ 64 ∧ (store 22 packedUpdate s.file).length = s.file.length ∧
      MmapHeader.unpack (store 22 packedUpdate s.file) =
        { s.header with headSeq := plan.head, tailSeq := plan.tail, droppedCount := plan.dropped } := by
  have hfields : plan.head < 2 ^ 64 ∧ plan.tail < 2 ^ 64 ∧ plan.dropped < 2 ^ 64 := by
    rw [MmapRingBuffer.WritePlan.packedUpdate] at hpack
    split at hpack
    · assumption
    · cases hpack
  have hwrite : WriteInFlight shape s.finished s.header header plan := h.writing (header, plan) hinFlight
  have hupdate := hwrite.planned.packedUpdate hwrite.found
  have hhead := hwrite.planned.head
  rw [hpack, if_pos (by omega)] at hupdate
  cases hupdate
  refine ⟨by omega, length_store ?_, ?_⟩
  · have hfile := h.headerSize_le
    simp only [List.length_append, length_encodeLE]
    exact Nat.le_trans (by decide) hfile
  · exact MmapHeader.unpack_store_counters h.headerSize_le hfields.1 hfields.2.1 hfields.2.2

/-- The store of the counters keeps what the reader has acknowledged when it has not moved the tail, and only
then: it moved past records that it has finished. -/
theorem RaceInvariant.storeCounters_kept_iff (h : RaceInvariant shape s) {header : MmapHeader}
    {plan : MmapRingBuffer.WritePlan} {packedUpdate : List UInt8}
    (hinFlight : s.writing.inFlight = some (header, plan)) (hpack : plan.packedUpdate = .ok packedUpdate)
    {writing : Writing} :
    AcknowledgementsKept s { s with file := store 22 packedUpdate s.file, writing } ↔
      s.header.tailSeq = header.tailSeq := by
  obtain ⟨-, -, hheader⟩ := h.storeCounters_header hinFlight hpack
  have hwrite : WriteInFlight shape s.finished s.header header plan := h.writing (header, plan) hinFlight
  have hhead := hwrite.headSeq
  have hdropped := hwrite.droppedCount
  have htail := hwrite.tail_le
  have hafter : RaceSystem.header { s with file := store 22 packedUpdate s.file, writing } =
    { s.header with headSeq := plan.head, tailSeq := plan.tail, droppedCount := plan.dropped } := hheader
  constructor
  · intro hkept
    have hkeptTail := hkept.tail
    have hkeptDropped := hkept.dropped
    rw [hafter] at hkeptTail hkeptDropped
    dsimp only at hkeptTail hkeptDropped
    rcases hwrite.planned.counters with ⟨hfull, hplanTail, hplanDropped⟩ | ⟨-, hplanTail, -⟩
    · by_contra hmoved
      have hoverwritten := hkeptDropped (by omega)
      rw [hhead, h.writer.capacity, hfull, Nat.add_sub_cancel] at hoverwritten
      exact hoverwritten (hwrite.finished _ (Nat.le_refl _) (by omega))
    · omega
  · intro hsame
    refine ⟨?_, ?_⟩
    · rw [hafter, hsame]
      exact hwrite.planned.tail_le
    · rw [hafter]
      intro hdrop hmem
      dsimp only at hdrop
      obtain ⟨d, hd, hseq⟩ := List.mem_map.mp hmem
      have hbefore := h.finished d hd
      rcases hwrite.planned.counters with ⟨hfull, -, -⟩ | ⟨-, -, hplanDropped⟩
      · rw [hhead, h.writer.capacity, hfull] at hseq
        omega
      · omega

theorem RaceInvariant.storeCounters (h : RaceInvariant shape s) {header : MmapHeader}
    {plan : MmapRingBuffer.WritePlan} {packedUpdate : List UInt8}
    (hinFlight : s.writing.inFlight = some (header, plan)) (hpack : plan.packedUpdate = .ok packedUpdate)
    (hsame : s.header.tailSeq = header.tailSeq) :
    RaceInvariant shape { s with file := store 22 packedUpdate s.file, writing := .idle } := by
  obtain ⟨hroom, hlength, hheader⟩ := h.storeCounters_header hinFlight hpack
  have hwrite : WriteInFlight shape s.finished s.header header plan := h.writing (header, plan) hinFlight
  have htail : s.header.tailSeq ≤ plan.tail := hsame ▸ hwrite.planned.tail_le
  have hcounters := hwrite.planned.ringCounters h.counters hwrite.headSeq hsame hwrite.droppedCount hroom
  have hcursor := h.cursor
  rw [hwrite.headSeq, hsame] at hcursor
  refine .of_header hheader (hlength.trans h.length) hcounters h.writer h.reader (hwrite.planned.cursor hcursor)
    ?_ ?_ ?_
  · intro d hd
    exact lt_of_lt_of_le (h.finished d hd) htail
  · rintro p ⟨⟩
  · intro p hp
    obtain ⟨hseq, hunread, hheadLe, htailLe⟩ := h.reading p hp
    have hplanHead := hwrite.planned.head
    have hhead := hwrite.headSeq
    exact ⟨hseq, hunread, show p.1.headSeq ≤ plan.head by omega, Nat.le_trans htailLe htail⟩

theorem RaceInvariant.storeTail_header (h : RaceInvariant shape s) {header : MmapHeader} {seq : Nat}
    (hinFlight : s.reading.inFlight = some (header, seq)) :
    (MmapRingBuffer.storeTail header.tailSeq (seq + 1) s.file).length = s.file.length ∧
      MmapHeader.unpack (MmapRingBuffer.storeTail header.tailSeq (seq + 1) s.file) =
        { s.header with tailSeq := header.tailSeq + 1 } := by
  have hread : ReadInFlight s.header header seq := h.reading (header, seq) hinFlight
  have hunread := hread.unread
  have hhead := hread.head_le
  have hbounded := h.counters.bounded
  have hfile := h.headerSize_le
  rw [hread.seq_eq, MmapRingBuffer.storeTail, if_pos (Nat.lt_succ_self _)]
  refine ⟨length_store ?_, MmapHeader.unpack_store_tail hfile (by omega)⟩
  rw [length_encodeLE]
  exact Nat.le_trans (by decide) hfile

theorem RaceInvariant.storeTail_kept_iff (h : RaceInvariant shape s) {header : MmapHeader} {seq : Nat}
    (hinFlight : s.reading.inFlight = some (header, seq)) {reader : MmapRingBuffer} {reading : Reading}
    {finished : List (Nat × List UInt8)} :
    AcknowledgementsKept s { s with
        file := MmapRingBuffer.storeTail header.tailSeq (seq + 1) s.file, reader, reading, finished } ↔
      s.header.tailSeq ≤ header.tailSeq + 1 := by
  obtain ⟨-, hheader⟩ := h.storeTail_header hinFlight
  have hafter : RaceSystem.header { s with
      file := MmapRingBuffer.storeTail header.tailSeq (seq + 1) s.file, reader, reading, finished } =
    { s.header with tailSeq := header.tailSeq + 1 } := hheader
  constructor
  · intro hkept
    have htail := hkept.tail
    rwa [hafter] at htail
  · intro hle
    refine ⟨?_, ?_⟩
    · rw [hafter]
      exact hle
    · rw [hafter]
      exact fun hdrop => absurd hdrop (Nat.lt_irrefl _)

theorem RaceInvariant.storeTail (h : RaceInvariant shape s) {header : MmapHeader} {seq : Nat}
    (hinFlight : s.reading.inFlight = some (header, seq)) (htimely : s.header.tailSeq ≤ header.tailSeq + 1)
    (data : List UInt8) :
    RaceInvariant shape { s with
      file := MmapRingBuffer.storeTail header.tailSeq (seq + 1) s.file
      reader := { s.reader with localReadSeq := seq + 1 }
      reading := .idle
      finished := s.finished ++ [(seq, data)] } := by
  obtain ⟨hlength, hheader⟩ := h.storeTail_header hinFlight
  have hread : ReadInFlight s.header header seq := h.reading (header, seq) hinFlight
  have hseq := hread.seq_eq
  have hunread := hread.unread
  have hheadLe := hread.head_le
  have htailLe := hread.tail_le
  have hwindow := h.counters.window
  have hdroppedLe := h.counters.dropped_le
  refine .of_header hheader (hlength.trans h.length) ?_ h.writer ⟨h.reader.capacity, h.reader.recordSize⟩ ?_ ?_ ?_ ?_
  · refine ⟨h.counters.capacity, h.counters.recordSize, ?_, ?_, ?_, h.counters.bounded⟩ <;> dsimp only <;> omega
  · exact .inl (congrArg Nat.succ hseq)
  · intro d hd
    show d.1 < header.tailSeq + 1
    rcases List.mem_append.mp hd with hold | hnew
    · exact lt_of_lt_of_le (h.finished d hold) htimely
    · rw [List.mem_singleton.mp hnew]
      exact Nat.lt_succ_of_le hseq.le
  · intro p hp
    obtain ⟨hfound, hplanned, hhead, hdropped, hle, hfinished⟩ := h.writing p hp
    refine ⟨hfound, hplanned, hhead, hdropped, Nat.le_trans hle htimely, ?_⟩
    intro other hother hlt
    have hlt' : other < header.tailSeq + 1 := hlt
    rw [List.map_append, List.mem_append]
    by_cases hold : other < s.header.tailSeq
    · exact .inl (hfinished other hother hold)
    · exact .inr (List.mem_singleton.mpr (show other = seq by omega))
  · rintro p ⟨⟩

/-! ### Steps and runs -/

/-- What a step does: it leaves the header as it is, or it is one of the two stores over the tail. -/
inductive RaceEffect (shape : RingShape) (s : RaceSystem) : RaceAction → RaceSystem → Prop
  | quiet {action : RaceAction} {s' : RaceSystem} (hheader : s'.header = s.header) (htimely : action.timely s)
      (hinvariant : RaceInvariant shape s') : RaceEffect shape s action s'
  | storeCounters {header : MmapHeader} {plan : MmapRingBuffer.WritePlan} {packedUpdate : List UInt8}
      (hinFlight : s.writing.inFlight = some (header, plan)) (hpack : plan.packedUpdate = .ok packedUpdate) :
      RaceEffect shape s .storeCounters { s with file := store 22 packedUpdate s.file, writing := .idle }
  | storeTail {header : MmapHeader} {seq : Nat} (hinFlight : s.reading.inFlight = some (header, seq))
      (data : List UInt8) : RaceEffect shape s .storeTail { s with
        file := MmapRingBuffer.storeTail header.tailSeq (seq + 1) s.file
        reader := { s.reader with localReadSeq := seq + 1 }
        reading := .idle
        finished := s.finished ++ [(seq, data)] }

theorem RaceInvariant.effect (h : RaceInvariant shape s) {action : RaceAction} {s' : RaceSystem}
    (hstep : action.step s = some s') : RaceEffect shape s action s' := by
  have hidle : RaceInvariant shape { s with writing := .idle } :=
    h.sameHeader rfl rfl (fun p hp => (by cases hp)) h.reading
  cases action with
  | write data overwriteIfFull =>
      simp only [RaceAction.step] at hstep
      split at hstep
      · split at hstep
        · cases hstep
          exact .quiet rfl trivial h
        · split at hstep
          · cases hstep
            exact .quiet rfl trivial h
          · split at hstep
            · cases hstep
              exact .quiet rfl trivial h
            · next header hheader =>
                split at hstep
                · next plan hplan =>
                    cases hstep
                    exact .quiet rfl trivial (h.write hheader hplan data)
                · cases hstep
                  exact .quiet rfl trivial h
      · cases hstep
  | storeSlot =>
      simp only [RaceAction.step] at hstep
      split at hstep
      · next header plan data hwriting =>
          split at hstep
          · next file hstore =>
              cases hstep
              obtain ⟨hlength, hheader⟩ := h.storeSlot hwriting hstore
              refine .quiet hheader trivial (h.sameHeader hlength hheader ?_ h.reading)
              intro p hp
              exact h.writing p (by rw [hwriting]; exact hp)
          · cases hstep
            exact .quiet rfl trivial hidle
      · cases hstep
  | storeCounters =>
      simp only [RaceAction.step] at hstep
      split at hstep
      · next header plan hwriting =>
          have hinFlight : s.writing.inFlight = some (header, plan) := by rw [hwriting, Writing.inFlight]
          split at hstep
          · next packedUpdate hpack =>
              cases hstep
              exact .storeCounters hinFlight hpack
          · next err hpack =>
              cases hstep
              refine .quiet rfl ?_ hidle
              -- the head does not fit its field, and nothing is stored
              intro p hp hroom
              have hwrite := h.writing p hp
              cases hinFlight.symm.trans hp
              have hupdate := hwrite.planned.packedUpdate hwrite.found
              rw [if_pos hroom] at hupdate
              cases hpack.symm.trans hupdate
      · cases hstep
  | read =>
      simp only [RaceAction.step] at hstep
      split at hstep
      · split at hstep
        · cases hstep
          exact .quiet rfl trivial h
        · next header hheader =>
            split at hstep
            · cases hstep
              exact .quiet rfl trivial h
            · next seq hseq =>
                split at hstep
                · cases hstep
                  exact .quiet rfl trivial h
                · cases hstep
                  exact .quiet rfl trivial (h.read hheader hseq)
      · cases hstep
  | loadSlot =>
      simp only [RaceAction.step] at hstep
      split at hstep
      · next header seq hreading =>
          cases hstep
          refine .quiet rfl trivial (h.sameHeader rfl rfl h.writing ?_)
          intro p hp
          exact h.reading p (by rw [hreading]; exact hp)
      · cases hstep
  | storeTail =>
      simp only [RaceAction.step] at hstep
      split at hstep
      · next header seq data hreading =>
          cases hstep
          exact .storeTail (by rw [hreading, Reading.inFlight]) data
      · cases hstep
  | attach =>
      simp only [RaceAction.step] at hstep
      split at hstep
      · split at hstep
        · next reader hattach =>
            cases hstep
            exact .quiet rfl trivial (h.attach hattach)
        · cases hstep
          exact .quiet rfl trivial h
      · cases hstep

theorem RaceInvariant.step {action : RaceAction} {s' : RaceSystem} (htimely : action.timely s)
    (hstep : action.step s = some s') (h : RaceInvariant shape s) : RaceInvariant shape s' := by
  cases h.effect hstep with
  | quiet hheader _ hinvariant => exact hinvariant
  | storeCounters hinFlight hpack =>
      obtain ⟨hroom, -⟩ := h.storeCounters_header hinFlight hpack
      exact h.storeCounters hinFlight hpack (htimely _ hinFlight hroom)
  | storeTail hinFlight data => exact h.storeTail hinFlight (htimely _ hinFlight) data

/-- A step keeps what the reader has acknowledged if and only if it is timely. -/
theorem RaceInvariant.kept_iff (h : RaceInvariant shape s) {action : RaceAction} {s' : RaceSystem}
    (hstep : action.step s = some s') : AcknowledgementsKept s s' ↔ action.timely s := by
  cases h.effect hstep with
  | quiet hheader htimely _ => exact iff_of_true (.of_header_eq hheader) htimely
  | storeCounters hinFlight hpack =>
      obtain ⟨hroom, -⟩ := h.storeCounters_header hinFlight hpack
      rw [h.storeCounters_kept_iff hinFlight hpack]
      constructor
      · intro hsame p hp _
        cases hinFlight.symm.trans hp
        exact hsame
      · intro htimely
        exact htimely _ hinFlight hroom
  | storeTail hinFlight data =>
      rw [h.storeTail_kept_iff hinFlight]
      constructor
      · intro hle p hp
        cases hinFlight.symm.trans hp
        exact hle
      · intro htimely
        exact htimely _ hinFlight

end Steps

/-- A new file, the handle that has created it and one that was attached to it. -/
def RaceSystem.start (writer reader : MmapRingBuffer) (file : List UInt8) : RaceSystem where
  file
  writer
  reader

theorem RaceInvariant.start {shape : RingShape} {writer reader : MmapRingBuffer} {file : List UInt8}
    (hring : RingFile shape [] 0 0 file) (hwriter : writer.Fits shape)
    (hattach : MmapRingBuffer.attachBuffer file = .ok reader) : RaceInvariant shape (.start writer reader file) := by
  have hreader := hring.header.attach
  rw [hattach] at hreader
  cases hreader
  have hhead : (MmapHeader.unpack file).headSeq = 0 := hring.headSeq
  have htail := hring.tailSeq
  have hdropped := hring.droppedCount
  refine ⟨hring.length, ⟨hring.capacity, hring.recordSize, ?_, ?_, ?_, ?_⟩, hwriter, ⟨rfl, rfl⟩, .inl htail.symm,
    ?_, ?_, ?_⟩
  · exact le_of_eq (htail.trans hhead.symm)
  · exact le_of_eq_of_le hhead (Nat.zero_le _)
  · exact le_of_eq_of_le hdropped (Nat.zero_le _)
  · exact lt_of_eq_of_lt hhead (Nat.two_pow_pos 64)
  · intro d hd
    cases hd
  · rintro p ⟨⟩
  · rintro p ⟨⟩

/-- A run keeps what the reader has acknowledged if and only if its stores over the tail are timely. -/
theorem race_run_kept_iff {capacity recordSize : Int} {writer reader : MmapRingBuffer} {file : List UInt8}
    (hcreate : MmapRingBuffer.createBuffer capacity recordSize = .ok (writer, file))
    (hattach : MmapRingBuffer.attachBuffer file = .ok reader) {actions : List RaceAction} {s : RaceSystem}
    (hrun : Transition.run RaceAction.step actions (.start writer reader file) = some s) :
    Transition.Throughout RaceAction.step (fun action t =>
        ∀ t', action.step t = some t' → AcknowledgementsKept t t') actions (.start writer reader file) ↔
      Transition.Throughout RaceAction.step RaceAction.timely actions (.start writer reader file) := by
  obtain ⟨shape, -, -, hring, rfl⟩ := createBuffer_ringFile hcreate
  refine Transition.throughout_iff RaceInvariant.step ?_ hrun (RaceInvariant.start hring ⟨rfl, rfl⟩ hattach)
  intro action t t' h hstep
  rw [← h.kept_iff hstep]
  constructor
  · intro hall
    exact hall t' hstep
  · intro hkept u hu
    cases hstep.symm.trans hu
    exact hkept

theorem race_run_kept_iff_overwrittenDuringRead :
    Transition.Throughout RaceAction.step (fun action t =>
      ∀ t', action.step t = some t' → AcknowledgementsKept t t')
      [.write [7] true, .storeSlot, .storeCounters, .read, .write [8] true, .storeSlot, .loadSlot, .storeCounters,
        .storeTail] (.start oneSlotHandle oneSlotHandle oneSlotFile) := by
  have hsome : (Transition.run RaceAction.step [.write [7] true, .storeSlot, .storeCounters, .read, .write [8] true,
      .storeSlot, .loadSlot, .storeCounters, .storeTail]
      (.start oneSlotHandle oneSlotHandle oneSlotFile)).isSome := by decide
  exact (race_run_kept_iff oneSlot_created rfl (Option.some_get hsome).symm).mpr (by decide)

def twoSlots : RingShape := ⟨2, 1, Nat.succ_pos 1⟩

def twoSlotsHandle : MmapRingBuffer := { capacity := 2, recordSize := 1 }

def twoSlotsFile : List UInt8 := twoSlots.freshHeader.pack ++ [0, 0]

/-- The reader acknowledges a record while a write is under way. In a ring with room the write stores the tail
from before, and in a full ring it counts the record as dropped. -/
theorem not_race_run_kept_acknowledgedDuringWrite :
    (∃ s s', Transition.run RaceAction.step [.write [1] true, .storeSlot, .storeCounters, .write [2] true, .read,
        .loadSlot, .storeTail, .storeSlot] (.start twoSlotsHandle twoSlotsHandle twoSlotsFile) = some s ∧
      RaceAction.storeCounters.step s = some s' ∧
      MmapRingBuffer.createBuffer 2 1 = .ok (twoSlotsHandle, twoSlotsFile) ∧
      MmapRingBuffer.attachBuffer twoSlotsFile = .ok twoSlotsHandle ∧
      s.header.tailSeq = 1 ∧ s'.header.tailSeq = 0 ∧ ¬ AcknowledgementsKept s s') ∧
    (∃ s s', Transition.run RaceAction.step [.write [1] true, .storeSlot, .storeCounters, .write [2] true, .read,
        .loadSlot, .storeTail, .storeSlot] (.start oneSlotHandle oneSlotHandle oneSlotFile) = some s ∧
      RaceAction.storeCounters.step s = some s' ∧
      MmapRingBuffer.createBuffer 1 1 = .ok (oneSlotHandle, oneSlotFile) ∧
      MmapRingBuffer.attachBuffer oneSlotFile = .ok oneSlotHandle ∧
      s.finished = [(0, [1])] ∧ s'.header.droppedCount = 1 ∧ ¬ AcknowledgementsKept s s') := by
  constructor
  · refine ⟨_, _, rfl, rfl, rfl, rfl, rfl, rfl, fun hkept => ?_⟩
    exact absurd hkept.tail (by decide)
  · refine ⟨_, _, rfl, rfl, rfl, rfl, rfl, rfl, fun hkept => ?_⟩
    exact absurd (hkept.dropped (by decide)) (by decide)

end ChronosMatch
