import ChronosMatch.Base.Transition
import ChronosMatch.Ipc.RingCalls
import Mathlib.Data.Finset.Card

/-!
# Conservation in the ring buffer

Any number of handles on one file, one of which at a time is the primary consumer; a handle that is attached
may take that part over. Each operation is one step. The tail is what was delivered and what was dropped:
an overwriting write moves it to where a consumer that it has passed will jump.
-/

namespace ChronosMatch

open Bytes

/-- The file and its handles, the records accepted so far, and the records delivered with their sequence
numbers. -/
structure RingSystem where
  file : List UInt8
  handles : List MmapRingBuffer
  consumer : Nat := 0
  accepted : List (List UInt8) := []
  delivered : List (Nat × List UInt8) := []

inductive RingAction
  | write (handle : Nat) (data : List UInt8) (overwriteIfFull : Bool)
  | read
  | readBatch (maxRecords : Int)
  | attach (primary : Bool)
  | close (handle : Nat)

def RingAction.isWrite : RingAction → Bool
  | write _ _ _ => true
  | _ => false

/-- Records with the sequence numbers that end before `next`. -/
def numbered (next : Nat) (records : List (List UInt8)) : List (Nat × List UInt8) :=
  records.mapIdx fun i data => (next - records.length + i, data)

/-- An operation on a handle that exists; one that raises leaves the file as it has left it. -/
def RingAction.step : RingAction → RingSystem → Option RingSystem
  | .write handle data overwriteIfFull, s => do
      let h ← s.handles[handle]?
      match h.write data overwriteIfFull s.file with
      | (.ok true, file) => some { s with file, accepted := s.accepted ++ [data] }
      | (_, file) => some { s with file }
  | .read, s => do
      let h ← s.handles[s.consumer]?
      match h.read none s.file with
      | (.ok (some data, next), h, file) => some { s with
          file
          handles := s.handles.set s.consumer h
          delivered := s.delivered ++ numbered next [data] }
      | (_, h, file) => some { s with file, handles := s.handles.set s.consumer h }
  | .readBatch maxRecords, s => do
      let h ← s.handles[s.consumer]?
      match h.readBatch maxRecords none s.file with
      | (.ok (records, next), h, file) => some { s with
          file
          handles := s.handles.set s.consumer h
          delivered := s.delivered ++ numbered next records }
      | (_, h, file) => some { s with file, handles := s.handles.set s.consumer h }
  | .attach primary, s =>
      match MmapRingBuffer.attachBuffer s.file with
      | .ok h => some { s with
          handles := s.handles ++ [h]
          consumer := if primary then s.handles.length else s.consumer }
      | .error _ => some s
  | .close handle, s => do
      let h ← s.handles[handle]?
      let (h, file) := h.close s.file
      some { s with file, handles := s.handles.set handle h }

/-! ### The invariant -/

/-- Every record delivered is the one accepted under its number, before the tail, and the numbers increase. -/
structure Delivered (accepted : List (List UInt8)) (tail : Nat) (delivered : List (Nat × List UInt8)) : Prop where
  records : ∀ d ∈ delivered, accepted[d.1]? = some d.2
  before : ∀ d ∈ delivered, d.1 < tail
  increasing : delivered.Pairwise fun d d' => d.1 < d'.1

structure RingInvariant (shape : RingShape) (s : RingSystem) : Prop where
  ring : ∃ tail dropped, RingFile shape s.accepted tail dropped s.file ∧ tail ≤ s.accepted.length ∧
    s.accepted.length ≤ tail + shape.capacity ∧ tail = s.delivered.length + dropped ∧
    Delivered s.accepted tail s.delivered ∧
    ∀ h, s.handles[s.consumer]? = some h → Cursor shape s.accepted.length tail h.localReadSeq
  handles : ∀ h ∈ s.handles, h.Fits shape
  bounded : s.accepted.length < 2 ^ 64

/-! ### Writes -/

/-- What a write does: it raises before it touches the file, finds the ring full, or accepts the record and,
when the ring was full, drops the oldest. -/
inductive WriteEffect (shape : RingShape) (accepted : List (List UInt8)) (tail dropped : Nat) (h : MmapRingBuffer)
    (data : List UInt8) (overwriteIfFull : Bool) (file : List UInt8) : Except MmapError Bool → List UInt8 → Prop
  | raised (err : MmapError) (hmisused : h.isClosed = true ∨ data.length ≠ h.recordSize) :
      WriteEffect shape accepted tail dropped h data overwriteIfFull file (.error err) file
  | refused (hfull : shape.capacity ≤ accepted.length - tail) (hkeep : overwriteIfFull = false) :
      WriteEffect shape accepted tail dropped h data overwriteIfFull file (.ok false) file
  | appended {file' : List UInt8} (hroom : accepted.length - tail < shape.capacity)
      (hring : RingFile shape (accepted ++ [data]) tail dropped file') :
      WriteEffect shape accepted tail dropped h data overwriteIfFull file (.ok true) file'
  | overwrote {file' : List UInt8} (hfull : shape.capacity ≤ accepted.length - tail)
      (hring : RingFile shape (accepted ++ [data]) (accepted.length - shape.capacity + 1) (dropped + 1) file') :
      WriteEffect shape accepted tail dropped h data overwriteIfFull file (.ok true) file'

section Operations

variable {shape : RingShape} {accepted : List (List UInt8)} {tail dropped : Nat} {file : List UInt8}
  {h : MmapRingBuffer}

theorem RingFile.write (hring : RingFile shape accepted tail dropped file) (hfits : h.Fits shape)
    (htail : tail ≤ accepted.length) (hdropped : dropped ≤ tail) (hroom : accepted.length + 1 < 2 ^ 64)
    (data : List UInt8) (overwriteIfFull : Bool) :
    WriteEffect shape accepted tail dropped h data overwriteIfFull file (h.write data overwriteIfFull file).1
      (h.write data overwriteIfFull file).2 := by
  by_cases hmisused : h.isClosed = true ∨ data.length ≠ h.recordSize
  · obtain ⟨err, hwrite⟩ := MmapRingBuffer.write_misused hmisused overwriteIfFull file
    rw [hwrite]
    exact .raised err hmisused
  · obtain ⟨hopen, hsize⟩ := not_or.mp hmisused
    rw [Bool.not_eq_true] at hopen
    rw [not_not] at hsize
    have hdata : data.length = shape.recordSize := hsize.trans hfits.recordSize
    have hplan := hring.header.planWrite hfits htail overwriteIfFull
    by_cases hfull : shape.capacity ≤ accepted.length - tail
    · rw [if_pos hfull] at hplan
      cases overwriteIfFull with
      | false =>
          rw [MmapRingBuffer.write_refused hring.header hfits htail hopen hsize hfull]
          exact .refused hfull rfl
      | true =>
          have htail' : accepted.length - shape.capacity + 1 < 2 ^ 64 := by omega
          have hdropped' : dropped + 1 < 2 ^ 64 := by omega
          rw [MmapRingBuffer.write_planned hring.header hfits hopen hsize hplan, if_pos ⟨hroom, htail', hdropped'⟩]
          exact .overwrote hfull (hring.accept hdata hroom htail' hdropped')
    · have htail' : tail < 2 ^ 64 := by omega
      have hdropped' : dropped < 2 ^ 64 := by omega
      rw [if_neg hfull] at hplan
      rw [MmapRingBuffer.write_planned hring.header hfits hopen hsize hplan, if_pos ⟨hroom, htail', hdropped'⟩]
      exact .appended (by omega) (hring.accept hdata hroom htail' hdropped')

/-! ### Reads -/

theorem RingFile.loadSlots (hring : RingFile shape accepted tail dropped file) (hfits : h.Fits shape) (count : Nat)
    {seq : Nat} (hwindow : accepted.length ≤ seq + shape.capacity) (hcount : seq + count ≤ accepted.length) :
    h.loadSlots file count seq = slice seq count accepted := by
  induction count generalizing seq with
  | zero => rfl
  | succ count ih =>
      have hlt : seq < accepted.length := by omega
      have hload : h.loadSlot seq file = accepted[seq] := by
        rw [MmapRingBuffer.loadSlot, hfits.slotOffset, hfits.recordSize]
        exact hring.slots seq _ (List.getElem?_eq_getElem hlt) hwindow
      rw [MmapRingBuffer.loadSlots, ih (by omega) (by omega), hload, slice, slice, List.drop_eq_getElem_cons hlt,
        List.take_succ_cons]

/-- What a read of the primary consumer does: it raises, finds nothing, or delivers the records from the tail
on and moves the tail and its own sequence behind them. -/
inductive ReadEffect (accepted : List (List UInt8)) (tail : Nat) (h : MmapRingBuffer) (file : List UInt8) :
    Except MmapError (List (List UInt8) × Nat) → MmapRingBuffer → List UInt8 → Prop
  | raised (err : MmapError) : ReadEffect accepted tail h file (.error err) h file
  | nothing (seq : Nat) : ReadEffect accepted tail h file (.ok ([], seq)) h file
  | delivered (count : Nat) (hcount : tail + count ≤ accepted.length) :
      ReadEffect accepted tail h file (.ok (slice tail count accepted, tail + count))
        { h with localReadSeq := tail + count } (MmapRingBuffer.storeTail tail (tail + count) file)

/-- The result of a single read as that of a batch. -/
def asBatch : Except MmapError (Option (List UInt8) × Nat) → Except MmapError (List (List UInt8) × Nat)
  | .ok (data, next) => .ok (data.toList, next)
  | .error err => .error err

/-- The records that a result hands over, with their sequence numbers. -/
def deliveries : Except MmapError (List (List UInt8) × Nat) → List (Nat × List UInt8)
  | .ok (records, next) => numbered next records
  | .error _ => []

theorem RingFile.read (hring : RingFile shape accepted tail dropped file) (hfits : h.Fits shape)
    (htail : tail ≤ accepted.length) (hwindow : accepted.length ≤ tail + shape.capacity)
    (hcursor : Cursor shape accepted.length tail h.localReadSeq) :
    ReadEffect accepted tail h file (asBatch (h.read none file).1) (h.read none file).2.1 (h.read none file).2.2 := by
  by_cases hclosed : h.isClosed = true
  · rw [MmapRingBuffer.read, if_pos hclosed]
    exact .raised _
  · rw [MmapRingBuffer.read_eq hring.header hfits (Bool.not_eq_true _ ▸ hclosed), Option.getD_none,
      hfits.seqToRead htail hwindow hcursor]
    by_cases hunread : tail < accepted.length
    · have hload := hring.loadSlots hfits 1 hwindow (by omega)
      rw [MmapRingBuffer.loadSlots, MmapRingBuffer.loadSlots] at hload
      have heffect : ReadEffect accepted tail h file (.ok (slice tail 1 accepted, tail + 1))
          { h with localReadSeq := tail + 1 } (MmapRingBuffer.storeTail tail (tail + 1) file) :=
        .delivered 1 (by omega)
      rw [if_pos hunread]
      dsimp only
      rw [MmapRingBuffer.moveTo_none hring.header]
      rwa [← hload] at heffect
    · rw [if_neg hunread]
      exact .nothing _

theorem RingFile.readBatch (hring : RingFile shape accepted tail dropped file) (hfits : h.Fits shape)
    (htail : tail ≤ accepted.length) (hwindow : accepted.length ≤ tail + shape.capacity)
    (hcursor : Cursor shape accepted.length tail h.localReadSeq) (maxRecords : Int) :
    ReadEffect accepted tail h file (h.readBatch maxRecords none file).1 (h.readBatch maxRecords none file).2.1
      (h.readBatch maxRecords none file).2.2 := by
  by_cases hclosed : h.isClosed = true
  · rw [MmapRingBuffer.readBatch, MmapRingBuffer.readHeader, if_pos hclosed]
    exact .raised _
  · rw [MmapRingBuffer.readBatch_eq hring.header hfits (Bool.not_eq_true _ ▸ hclosed), Option.getD_none,
      hfits.seqToRead htail hwindow hcursor]
    by_cases hunread : tail < accepted.length
    · have hcount : tail + (min maxRecords ((accepted.length : Int) - tail)).toNat ≤ accepted.length := by omega
      rw [if_pos hunread]
      dsimp only
      rw [MmapRingBuffer.moveTo_none hring.header, hring.loadSlots hfits _ hwindow hcount]
      exact .delivered _ hcount
    · rw [if_neg hunread]
      exact .nothing _

end Operations

/-! ### Steps -/

theorem Delivered.extend {accepted : List (List UInt8)} {tail count : Nat} {delivered : List (Nat × List UInt8)}
    (h : Delivered accepted tail delivered) (hcount : tail + count ≤ accepted.length) :
    Delivered accepted (tail + count) (delivered ++ numbered (tail + count) (slice tail count accepted)) := by
  have hlength : (slice tail count accepted).length = count := length_slice hcount
  have hnew : ∀ d ∈ numbered (tail + count) (slice tail count accepted),
      accepted[d.1]? = some d.2 ∧ tail ≤ d.1 ∧ d.1 < tail + count := by
    intro d hd
    obtain ⟨i, hi, rfl⟩ := List.mem_mapIdx.mp hd
    have hrecord := getElem?_slice tail count i accepted
    rw [List.getElem?_eq_getElem hi, if_pos (by omega)] at hrecord
    refine ⟨?_, ?_, ?_⟩
    · dsimp only
      rw [hlength, Nat.add_sub_cancel]
      exact hrecord.symm
    · dsimp only
      omega
    · dsimp only
      omega
  refine ⟨?_, ?_, ?_⟩
  · intro d hd
    rcases List.mem_append.mp hd with hold | hd
    · exact h.records d hold
    · exact (hnew d hd).1
  · intro d hd
    rcases List.mem_append.mp hd with hold | hd
    · have := h.before d hold
      omega
    · exact (hnew d hd).2.2
  · rw [List.pairwise_append]
    refine ⟨h.increasing, ?_, ?_⟩
    · rw [numbered, List.pairwise_iff_getElem]
      intro i j hi hj hij
      simp only [List.getElem_mapIdx]
      omega
    · intro d hd d' hd'
      have := h.before d hd
      have := (hnew d' hd').2.1
      omega

/-- One more accepted record and a tail that moves up leave what was delivered as it was. -/
theorem Delivered.accept {accepted : List (List UInt8)} {tail tail' : Nat} {delivered : List (Nat × List UInt8)}
    (h : Delivered accepted tail delivered) (htail : tail ≤ tail') (data : List UInt8) :
    Delivered (accepted ++ [data]) tail' delivered := by
  refine ⟨?_, fun d hd => lt_of_lt_of_le (h.before d hd) htail, h.increasing⟩
  intro d hd
  have hrecord := h.records d hd
  rw [List.getElem?_append_left (List.getElem?_eq_some_iff.mp hrecord).1]
  exact hrecord

section Steps

variable {shape : RingShape} {s : RingSystem}

theorem RingInvariant.sameFile (h : RingInvariant shape s) {handles : List MmapRingBuffer} {consumer : Nat}
    {file : List UInt8} (hfile : ∀ tail dropped, RingFile shape s.accepted tail dropped s.file →
      RingFile shape s.accepted tail dropped file)
    (hhandles : ∀ h' ∈ handles, h'.Fits shape)
    (hcursor : ∀ h', handles[consumer]? = some h' →
      (∃ old, s.handles[s.consumer]? = some old ∧ h'.localReadSeq = old.localReadSeq) ∨
        h'.localReadSeq = (MmapHeader.unpack s.file).tailSeq) :
    RingInvariant shape { s with file, handles, consumer } := by
  obtain ⟨tail, dropped, hring, htail, hwindow, haccount, hdelivered, hseq⟩ := h.ring
  refine ⟨⟨tail, dropped, hfile tail dropped hring, htail, hwindow, haccount, hdelivered, ?_⟩, hhandles, h.bounded⟩
  intro h' hh'
  rcases hcursor h' hh' with ⟨old, hold, hsame⟩ | htailSeq
  · rw [hsame]
    exact hseq old hold
  · left
    rw [htailSeq, hring.tailSeq]

theorem RingInvariant.write (h : RingInvariant shape s) {handle : MmapRingBuffer} (hfits : handle.Fits shape)
    (hroom : s.accepted.length + 1 < 2 ^ 64) {data : List UInt8} {overwriteIfFull : Bool} {file : List UInt8}
    (hwrite : handle.write data overwriteIfFull s.file = (.ok true, file)) :
    RingInvariant shape { s with file, accepted := s.accepted ++ [data] } := by
  obtain ⟨tail, dropped, hring, htail, hwindow, haccount, hdelivered, hcursor⟩ := h.ring
  have heffect := hring.write hfits htail (by omega) hroom data overwriteIfFull
  have hlength : (s.accepted ++ [data]).length = s.accepted.length + 1 := by simp
  rw [hwrite] at heffect
  refine ⟨?_, h.handles, by rw [hlength]; exact hroom⟩
  cases heffect with
  | appended hfree hring' =>
      refine ⟨tail, dropped, hring', ?_, ?_, haccount, hdelivered.accept (Nat.le_refl _) data, ?_⟩
      · rw [hlength]
        omega
      · rw [hlength]
        omega
      · intro h' hh'
        rcases hcursor h' hh' with hat | ⟨-, hfull⟩
        · exact .inl hat
        · omega
  | overwrote hfull hring' =>
      have htail' : s.accepted.length - shape.capacity + 1 = tail + 1 := by omega
      have haccount' : tail + 1 = s.delivered.length + (dropped + 1) := by omega
      rw [htail'] at hring'
      refine ⟨tail + 1, dropped + 1, hring', ?_, ?_, haccount', hdelivered.accept (Nat.le_succ _) data, ?_⟩
      · rw [hlength]
        have := shape.capacity_pos
        omega
      · rw [hlength]
        omega
      · intro h' hh'
        right
        rw [hlength]
        rcases hcursor h' hh' with hat | ⟨hbehind, -⟩
        · exact ⟨by omega, by omega⟩
        · exact ⟨by omega, by omega⟩

theorem RingInvariant.deliver (h : RingInvariant shape s) {handle : MmapRingBuffer}
    (hhandle : s.handles[s.consumer]? = some handle) {result : Except MmapError (List (List UInt8) × Nat)}
    {handle' : MmapRingBuffer} {file : List UInt8} (hread : ∀ tail dropped,
      RingFile shape s.accepted tail dropped s.file → tail ≤ s.accepted.length →
      s.accepted.length ≤ tail + shape.capacity → Cursor shape s.accepted.length tail handle.localReadSeq →
      ReadEffect s.accepted tail handle s.file result handle' file) :
    RingInvariant shape { s with
      file
      handles := s.handles.set s.consumer handle'
      delivered := s.delivered ++ deliveries result } := by
  obtain ⟨tail, dropped, hring, htail, hwindow, haccount, hdelivered, hcursor⟩ := h.ring
  have hfits := h.handles handle (List.mem_of_getElem? hhandle)
  obtain ⟨hlt, hget⟩ := List.getElem?_eq_some_iff.mp hhandle
  have hsame : s.handles.set s.consumer handle = s.handles := by rw [← hget, List.set_getElem_self]
  cases hread tail dropped hring htail hwindow (hcursor handle hhandle) with
  | raised err =>
      rw [hsame]
      simp only [deliveries, List.append_nil]
      exact ⟨⟨tail, dropped, hring, htail, hwindow, haccount, hdelivered, hcursor⟩, h.handles, h.bounded⟩
  | nothing seq =>
      rw [hsame]
      simp only [deliveries, numbered, List.mapIdx_nil, List.append_nil]
      exact ⟨⟨tail, dropped, hring, htail, hwindow, haccount, hdelivered, hcursor⟩, h.handles, h.bounded⟩
  | delivered count hcount =>
      have hbounded := h.bounded
      have hlength : (numbered (tail + count) (slice tail count s.accepted)).length = count := by
        rw [numbered, List.length_mapIdx, length_slice hcount]
      have hwindow' : s.accepted.length ≤ tail + count + shape.capacity := by omega
      have hring' := hring.storeTail (show tail + count < 2 ^ 64 by omega)
      rw [max_eq_right (Nat.le_add_right _ _)] at hring'
      refine ⟨⟨tail + count, dropped, hring', hcount, hwindow', ?_,
        hdelivered.extend hcount, ?_⟩, ?_, h.bounded⟩
      · show tail + count = (s.delivered ++ numbered (tail + count) (slice tail count s.accepted)).length + dropped
        rw [List.length_append, hlength]
        omega
      · intro h' hh'
        rw [List.getElem?_set_self hlt] at hh'
        cases hh'
        exact .inl rfl
      · intro h' hh'
        rcases List.mem_or_eq_of_mem_set hh' with hold | rfl
        · exact h.handles h' hold
        · exact ⟨hfits.capacity, hfits.recordSize⟩

theorem RingInvariant.attach (h : RingInvariant shape s) (primary : Bool) {handle : MmapRingBuffer}
    (hattach : MmapRingBuffer.attachBuffer s.file = .ok handle) : RingInvariant shape { s with
      handles := s.handles ++ [handle]
      consumer := if primary then s.handles.length else s.consumer } := by
  obtain ⟨tail, dropped, hring, -⟩ := h.ring
  have heq := hring.header.attach
  rw [hattach] at heq
  cases heq
  refine h.sameFile (fun _ _ h => h) ?_ ?_
  · intro h' hh'
    rcases List.mem_append.mp hh' with hold | hnew
    · exact h.handles h' hold
    · rw [List.mem_singleton.mp hnew]
      exact ⟨rfl, rfl⟩
  · intro h' hh'
    rcases Nat.lt_or_ge (if primary then s.handles.length else s.consumer) s.handles.length with hlt | hge
    · rw [List.getElem?_append_left hlt] at hh'
      cases primary with
      | true => exact absurd hlt (Nat.lt_irrefl _)
      | false => exact .inl ⟨h', hh', rfl⟩
    · rw [List.getElem?_append_right hge] at hh'
      rw [List.mem_singleton.mp (List.mem_of_getElem? hh')]
      exact .inr hring.tailSeq.symm

theorem RingInvariant.close (h : RingInvariant shape s) {index : Nat} {handle : MmapRingBuffer}
    (hhandle : s.handles[index]? = some handle) : RingInvariant shape { s with
      file := (handle.close s.file).2
      handles := s.handles.set index (handle.close s.file).1 } := by
  have hclosed : (handle.close s.file).1.localReadSeq = handle.localReadSeq ∧
      (handle.close s.file).1.capacity = handle.capacity ∧
      (handle.close s.file).1.recordSize = handle.recordSize := by
    rw [MmapRingBuffer.close]
    split <;> exact ⟨rfl, rfl, rfl⟩
  have hfits := h.handles handle (List.mem_of_getElem? hhandle)
  refine h.sameFile (fun _ _ hring => hring.close handle) ?_ ?_
  · intro h' hh'
    rcases List.mem_or_eq_of_mem_set hh' with hold | rfl
    · exact h.handles h' hold
    · exact ⟨hclosed.2.1.trans hfits.capacity, hclosed.2.2.trans hfits.recordSize⟩
  · intro h' hh'
    left
    by_cases hindex : index = s.consumer
    · rw [hindex] at hhandle hh'
      rw [List.getElem?_set_self (List.getElem?_eq_some_iff.mp hhandle).1] at hh'
      cases hh'
      exact ⟨handle, hhandle, hclosed.1⟩
    · rw [List.getElem?_set_ne hindex] at hh'
      exact ⟨h', hh', rfl⟩

theorem RingAction.step_read (s : RingSystem) : RingAction.read.step s = s.handles[s.consumer]?.map fun h =>
    { s with
      file := (h.read none s.file).2.2
      handles := s.handles.set s.consumer (h.read none s.file).2.1
      delivered := s.delivered ++ deliveries (asBatch (h.read none s.file).1) } := by
  rw [RingAction.step]
  cases s.handles[s.consumer]? with
  | none => rfl
  | some h =>
      simp only [Option.bind_eq_bind, Option.bind_some, Option.map_some]
      rcases h.read none s.file with ⟨err | ⟨_ | data, next⟩, h', file⟩
      · simp [asBatch, deliveries]
      · simp [asBatch, deliveries, numbered]
      · simp [asBatch, deliveries]

theorem RingAction.step_readBatch (maxRecords : Int) (s : RingSystem) :
    (RingAction.readBatch maxRecords).step s = s.handles[s.consumer]?.map fun h => { s with
      file := (h.readBatch maxRecords none s.file).2.2
      handles := s.handles.set s.consumer (h.readBatch maxRecords none s.file).2.1
      delivered := s.delivered ++ deliveries (h.readBatch maxRecords none s.file).1 } := by
  rw [RingAction.step]
  cases s.handles[s.consumer]? with
  | none => rfl
  | some h =>
      simp only [Option.bind_eq_bind, Option.bind_some, Option.map_some]
      rcases h.readBatch maxRecords none s.file with ⟨err | ⟨records, next⟩, h', file⟩
      · simp [deliveries]
      · simp [deliveries]

theorem RingInvariant.step {action : RingAction} {s' : RingSystem}
    (hroom : action.isWrite → s.accepted.length + 1 < 2 ^ 64) (hstep : action.step s = some s')
    (h : RingInvariant shape s) : RingInvariant shape s' := by
  cases action with
  | write index data overwriteIfFull =>
      simp only [RingAction.step, Option.bind_eq_bind, Option.bind_eq_some_iff] at hstep
      obtain ⟨handle, hhandle, hstep⟩ := hstep
      have hfits := h.handles handle (List.mem_of_getElem? hhandle)
      rcases hwrite : handle.write data overwriteIfFull s.file with ⟨result, file⟩
      rw [hwrite] at hstep
      obtain ⟨tail, dropped, hring, htail, hwindow, haccount, hrest⟩ := h.ring
      have heffect := hring.write hfits htail (by omega) (hroom rfl) data overwriteIfFull
      rw [hwrite] at heffect
      cases heffect with
      | raised err =>
          cases hstep
          exact h
      | refused =>
          cases hstep
          exact h
      | appended =>
          cases hstep
          exact h.write hfits (hroom rfl) hwrite
      | overwrote =>
          cases hstep
          exact h.write hfits (hroom rfl) hwrite
  | read =>
      simp only [RingAction.step_read, Option.map_eq_some_iff] at hstep
      obtain ⟨handle, hhandle, rfl⟩ := hstep
      have hfits := h.handles handle (List.mem_of_getElem? hhandle)
      apply h.deliver hhandle
      intro tail dropped hring htail hwindow hcursor
      exact hring.read hfits htail hwindow hcursor
  | readBatch maxRecords =>
      simp only [RingAction.step_readBatch, Option.map_eq_some_iff] at hstep
      obtain ⟨handle, hhandle, rfl⟩ := hstep
      have hfits := h.handles handle (List.mem_of_getElem? hhandle)
      apply h.deliver hhandle
      intro tail dropped hring htail hwindow hcursor
      exact hring.readBatch hfits htail hwindow hcursor maxRecords
  | attach primary =>
      rw [RingAction.step] at hstep
      split at hstep
      · next handle hattach =>
          cases hstep
          exact h.attach primary hattach
      · cases hstep
        exact h
  | close index =>
      simp only [RingAction.step, Option.bind_eq_bind, Option.bind_eq_some_iff] at hstep
      obtain ⟨handle, hhandle, hstep⟩ := hstep
      cases hstep
      exact h.close hhandle

end Steps

/-! ### Runs -/

/-- The buffer after its creation. -/
def RingSystem.created (handle : MmapRingBuffer) (file : List UInt8) : RingSystem where
  file
  handles := [handle]

theorem createBuffer_ringFile {capacity recordSize : Int} {handle : MmapRingBuffer} {file : List UInt8}
    (hcreate : MmapRingBuffer.createBuffer capacity recordSize = .ok (handle, file)) :
    ∃ shape : RingShape, shape.capacity = capacity ∧ shape.recordSize = recordSize ∧ RingFile shape [] 0 0 file ∧
      handle = { capacity := shape.capacity, recordSize := shape.recordSize } := by
  rw [MmapRingBuffer.createBuffer] at hcreate
  split at hcreate
  · cases hcreate
  · next hcapacity =>
      split at hcreate
      · cases hcreate
      · next hrecordSize =>
          dsimp only at hcreate
          split at hcreate
          · cases hcreate
          · next hbounds =>
              cases hcreate
              refine ⟨⟨capacity.toNat, recordSize.toNat, by omega⟩, Int.toNat_of_nonneg (by omega),
                Int.toNat_of_nonneg (by omega), RingFile.created ?_ ?_, rfl⟩
              · dsimp only
                omega
              · dsimp only
                omega

theorem RingInvariant.created {shape : RingShape} {file : List UInt8} (hring : RingFile shape [] 0 0 file) :
    RingInvariant shape (.created { capacity := shape.capacity, recordSize := shape.recordSize } file) := by
  refine ⟨⟨0, 0, hring, Nat.le_refl _, Nat.zero_le _, rfl, ⟨?_, ?_, List.Pairwise.nil⟩, ?_⟩, ?_, ?_⟩
  · intro d hd
    cases hd
  · intro d hd
    cases hd
  · intro h hh
    cases hh
    exact .inl rfl
  · intro h hh
    rw [List.mem_singleton.mp hh]
    exact ⟨rfl, rfl⟩
  · exact Nat.two_pow_pos 64

/-- Every record whose number lies below the tail was delivered or dropped. -/
theorem Delivered.card_dropped {accepted : List (List UInt8)} {tail : Nat} {delivered : List (Nat × List UInt8)}
    (h : Delivered accepted tail delivered) :
    ((Finset.range tail).filter fun seq => seq ∉ delivered.map Prod.fst).card = tail - delivered.length := by
  have hnodup : (delivered.map Prod.fst).Nodup := by
    rw [List.Nodup, List.pairwise_map]
    exact h.increasing.imp fun hlt => Nat.ne_of_lt hlt
  have hsubset : (delivered.map Prod.fst).toFinset ⊆ Finset.range tail := by
    intro seq hseq
    obtain ⟨d, hd, rfl⟩ := List.mem_map.mp (List.mem_toFinset.mp hseq)
    exact Finset.mem_range.mpr (h.before d hd)
  have hfilter : ((Finset.range tail).filter fun seq => seq ∉ delivered.map Prod.fst) =
      Finset.range tail \ (delivered.map Prod.fst).toFinset := by
    ext seq
    rw [Finset.mem_filter, Finset.mem_sdiff, List.mem_toFinset]
  rw [hfilter, Finset.card_sdiff_of_subset hsubset, List.toFinset_card_of_nodup hnodup, List.length_map,
    Finset.card_range]

theorem ring_run_conserved {capacity recordSize : Int} {handle : MmapRingBuffer} {file : List UInt8}
    (hcreate : MmapRingBuffer.createBuffer capacity recordSize = .ok (handle, file)) {actions : List RingAction}
    (hroom : Transition.Throughout RingAction.step (fun action s =>
      action.isWrite → (MmapHeader.unpack s.file).headSeq < 2 ^ 64 - 1) actions (.created handle file))
    {s : RingSystem} (hrun : Transition.run RingAction.step actions (.created handle file) = some s) :
    let header := MmapHeader.unpack s.file
    header.headSeq = s.accepted.length ∧
      header.tailSeq ≤ header.headSeq ∧
      (header.headSeq : Int) ≤ header.tailSeq + capacity ∧
      (∀ d ∈ s.delivered, s.accepted[d.1]? = some d.2) ∧
      (s.delivered.Pairwise fun d d' => d.1 < d'.1) ∧
      header.tailSeq = s.delivered.length + header.droppedCount ∧
      (∀ d ∈ s.delivered, d.1 < header.tailSeq) ∧
      ((Finset.range header.tailSeq).filter fun seq => seq ∉ s.delivered.map Prod.fst).card =
        header.droppedCount := by
  obtain ⟨shape, hcapacity, -, hring, rfl⟩ := createBuffer_ringFile hcreate
  have hinvariant : RingInvariant shape s := by
    refine Transition.invariant_throughout ?_ hrun hroom (RingInvariant.created hring)
    intro action t t' hcondition hstep h
    refine h.step (fun hwrite => ?_) hstep
    obtain ⟨tail, dropped, hring, -⟩ := h.ring
    have hlt := hcondition hwrite
    rw [hring.headSeq] at hlt
    omega
  obtain ⟨tail, dropped, hring, htail, hwindow, haccount, hdelivered, -⟩ := hinvariant.ring
  have hdropped := hdelivered.card_dropped
  simp only [hring.headSeq, hring.tailSeq, hring.droppedCount]
  exact ⟨trivial, htail, by omega, hdelivered.records, hdelivered.increasing, haccount, hdelivered.before, by omega⟩

/-- A ring for one record of one byte. -/
def oneSlot : RingShape := ⟨1, 1, Nat.le_refl 1⟩

def oneSlotHandle : MmapRingBuffer := { capacity := 1, recordSize := 1 }

def oneSlotFile : List UInt8 := oneSlot.freshHeader.pack ++ [0]

theorem oneSlot_created : MmapRingBuffer.createBuffer 1 1 = .ok (oneSlotHandle, oneSlotFile) := by
  rfl

theorem ring_run_conserved_overwrittenThenRestarted :
    ∃ s, Transition.run RingAction.step [.write 0 [7] true, .write 0 [8] true, .read, .close 0, .attach true,
        .write 1 [9] false, .readBatch 5] (.created oneSlotHandle oneSlotFile) = some s ∧
      s.delivered = [(1, [8]), (2, [9])] ∧
      (MmapHeader.unpack s.file).tailSeq = s.delivered.length + (MmapHeader.unpack s.file).droppedCount := by
  have hsome : (Transition.run RingAction.step [.write 0 [7] true, .write 0 [8] true, .read, .close 0, .attach true,
      .write 1 [9] false, .readBatch 5] (.created oneSlotHandle oneSlotFile)).isSome := by decide
  have hconserved := ring_run_conserved oneSlot_created (by decide) (Option.some_get hsome).symm
  exact ⟨_, (Option.some_get hsome).symm, rfl, hconserved.2.2.2.2.2.1⟩

/-! ### The last sequence number -/

/-- When the head does not fit its field any more, the record has been stored and the counters have not. -/
theorem RingFile.write_headOverflow {shape : RingShape} {accepted : List (List UInt8)} {tail dropped : Nat}
    {file : List UInt8} {h : MmapRingBuffer} (hring : RingFile shape accepted tail dropped file)
    (hfits : h.Fits shape) (htail : tail ≤ accepted.length) (hopen : h.isClosed = false) {data : List UInt8}
    (hdata : data.length = shape.recordSize) (hlast : accepted.length + 1 = 2 ^ 64) :
    h.write data true file = (.error .structError, store (shape.slot accepted.length) data file) := by
  have hsize : data.length = h.recordSize := hdata.trans hfits.recordSize.symm
  have hplan := hring.header.planWrite hfits htail true
  have hoverflow : ¬ accepted.length + 1 < 2 ^ 64 := by omega
  rw [if_pos rfl] at hplan
  split at hplan
  · rw [MmapRingBuffer.write_planned hring.header hfits hopen hsize hplan, if_neg fun hfields => hoverflow hfields.1]
  · rw [MmapRingBuffer.write_planned hring.header hfits hopen hsize hplan, if_neg fun hfields => hoverflow hfields.1]

theorem overwritten_run (n : Nat) (hn : n < 2 ^ 64) :
    ∃ s, Transition.run RingAction.step (List.replicate n (.write 0 [0] true))
        (.created oneSlotHandle oneSlotFile) = some s ∧
      RingInvariant oneSlot s ∧ s.handles = [oneSlotHandle] ∧ s.consumer = 0 ∧
      s.accepted = List.replicate n [0] := by
  induction n with
  | zero =>
      have hcapacity : oneSlot.capacity < 2 ^ 64 := Nat.one_lt_two_pow (by decide)
      have hrecordSize : oneSlot.recordSize < 2 ^ 32 := Nat.one_lt_two_pow (by decide)
      exact ⟨_, rfl, RingInvariant.created (RingFile.created hcapacity hrecordSize), rfl, rfl, rfl⟩
  | succ n ih =>
      obtain ⟨s, hrun, hinvariant, hhandles, hconsumer, haccepted⟩ := ih (by omega)
      obtain ⟨tail, dropped, hring, htail, -, haccount, -⟩ := hinvariant.ring
      have hfits : oneSlotHandle.Fits oneSlot := ⟨rfl, rfl⟩
      have hlength : s.accepted.length = n := by rw [haccepted, List.length_replicate]
      have heffect := hring.write hfits htail (by omega) (by omega) [0] true
      rcases hwrite : oneSlotHandle.write [0] true s.file with ⟨result, file⟩
      rw [hwrite] at heffect
      have haccepts : result = .ok true := by
        cases heffect with
        | raised err hmisused => cases hmisused <;> contradiction
        | refused hfull hkeep => cases hkeep
        | appended => rfl
        | overwrote => rfl
      rw [haccepts] at hwrite
      have hstep : (RingAction.write 0 [0] true).step s =
          some { s with file, accepted := s.accepted ++ [[0]] } := by
        simp only [RingAction.step, hhandles, List.getElem?_cons_zero, Option.bind_eq_bind, Option.bind_some, hwrite]
      refine ⟨_, ?_, hinvariant.write hfits (by omega) hwrite, hhandles, hconsumer, ?_⟩
      · rw [List.replicate_succ', Transition.run_concat]
        exact ⟨s, hrun, hstep⟩
      · rw [haccepted, List.replicate_succ']

/-- One record more than the head can count: its write raises after it has stored the record in the slot of the
one before. -/
theorem overflowed_write {n : Nat} (hlast : n + 1 = 2 ^ 64) :
    ∃ s, Transition.run RingAction.step (List.replicate n (.write 0 [0] true) ++ [.write 0 [1] true])
        (.created oneSlotHandle oneSlotFile) = some s ∧
      s.handles = [oneSlotHandle] ∧ s.consumer = 0 ∧ s.accepted = List.replicate n [0] ∧
      (∃ tail dropped, RingHeader oneSlot n tail dropped s.file) ∧ oneSlotHandle.loadSlot (n - 1) s.file = [1] := by
  obtain ⟨s, hrun, hinvariant, hhandles, hconsumer, haccepted⟩ := overwritten_run n (by omega)
  obtain ⟨tail, dropped, hring, htail, -⟩ := hinvariant.ring
  have hlength : s.accepted.length = n := by rw [haccepted, List.length_replicate]
  have hdata : [(1 : UInt8)].length = oneSlot.recordSize := rfl
  have hwrite := hring.write_headOverflow (h := oneSlotHandle) ⟨rfl, rfl⟩ htail rfl hdata (by omega)
  obtain ⟨-, -, -, hslots⟩ := hring.storeSlot hdata s.accepted.length
  have hheader := hring.header.stored hdata s.accepted.length
  set stored := store (oneSlot.slot s.accepted.length) [1] s.file
  refine ⟨{ s with file := stored }, ?_, hhandles, hconsumer, haccepted, ⟨tail, dropped, ?_⟩, ?_⟩
  · rw [Transition.run_concat]
    refine ⟨s, hrun, ?_⟩
    simp only [RingAction.step, hhandles, List.getElem?_cons_zero, Option.bind_eq_bind, Option.bind_some, hwrite]
  · rwa [hlength] at hheader
  · have hslot := hslots (n - 1)
    rwa [if_pos (by rw [show oneSlot.capacity = 1 from rfl, Nat.mod_one, Nat.mod_one])] at hslot

theorem oneSlotHandle_seqToRead {n : Nat} (hlast : n + 1 = 2 ^ 64) : oneSlotHandle.seqToRead n 0 = some (n - 1) := by
  rw [MmapRingBuffer.seqToRead, if_neg (by omega)]
  exact if_pos (show 1 < n - 0 by omega)

theorem overflowed_run {n : Nat} (hlast : n + 1 = 2 ^ 64) :
    ∃ s, Transition.run RingAction.step (List.replicate n (.write 0 [0] true) ++ [.write 0 [1] true, .read])
        (.created oneSlotHandle oneSlotFile) = some s ∧
      ∃ d ∈ s.delivered, s.accepted[d.1]? ≠ some d.2 := by
  obtain ⟨s, hrun, hhandles, hconsumer, haccepted, ⟨tail, dropped, hheader⟩, hload⟩ := overflowed_write hlast
  have hread : ∃ file, oneSlotHandle.read none s.file =
      (.ok (some [1], n), { oneSlotHandle with localReadSeq := n }, file) := by
    rw [MmapRingBuffer.read, if_neg (by decide), hheader.readHeader rfl]
    dsimp only
    rw [hheader.headSeq, Option.getD_none, show oneSlotHandle.localReadSeq = 0 from rfl, oneSlotHandle_seqToRead hlast]
    dsimp only
    rw [if_neg (by decide), hload, Option.isNone_none, if_pos rfl, Nat.sub_add_cancel (by omega)]
    exact ⟨_, rfl⟩
  obtain ⟨file, hread⟩ := hread
  have hnumbered : (n - 1, [1]) ∈ s.delivered ++ numbered n [[1]] :=
    List.mem_append_right _ List.mem_cons_self
  refine ⟨{ s with
    file
    handles := s.handles.set s.consumer { oneSlotHandle with localReadSeq := n }
    delivered := s.delivered ++ numbered n [[1]] }, ?_, _, hnumbered, ?_⟩
  · rw [show ([.write 0 [1] true, .read] : List RingAction) = [.write 0 [1] true] ++ [.read] from rfl,
      ← List.append_assoc, Transition.run_concat]
    refine ⟨s, hrun, ?_⟩
    simp only [RingAction.step, hhandles, hconsumer, List.getElem?_cons_zero, Option.bind_eq_bind, Option.bind_some,
      hread]
  · rw [haccepted, List.getElem?_replicate, if_pos (by omega)]
    exact (by decide : some [(0 : UInt8)] ≠ some [1])

/-- A run in which the consumer is handed a record that was never accepted. -/
theorem not_ring_run_conserved_lastSequenceNumber :
    ∃ s, Transition.run RingAction.step
        (List.replicate (2 ^ 64 - 1) (.write 0 [0] true) ++ [.write 0 [1] true, .read])
        (.created oneSlotHandle oneSlotFile) = some s ∧
      MmapRingBuffer.createBuffer 1 1 = .ok (oneSlotHandle, oneSlotFile) ∧
      ¬ ∀ d ∈ s.delivered, s.accepted[d.1]? = some d.2 := by
  have hlast : 2 ^ 64 - 1 + 1 = 2 ^ 64 := Nat.sub_add_cancel (Nat.two_pow_pos 64)
  obtain ⟨s, hrun, d, hd, hrecord⟩ := overflowed_run hlast
  exact ⟨s, hrun, rfl, fun hall => hrecord (hall d hd)⟩

end ChronosMatch
