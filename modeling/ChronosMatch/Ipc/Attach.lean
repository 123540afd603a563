import ChronosMatch.Ipc.BatchRead

/-!
# Attaching to any file

What `MmapRingBuffer(path, create=False)` makes of a file that may hold anything. Of the header it checks the magic
and that the slots fit in the file, so it accepts counters and sizes that no ring has. A file that it refuses after
it was mapped is still written to, when the handle that was never finished is finalised.
-/

namespace ChronosMatch

open Bytes

/-- Is the exception an `MmapError`? -/
def MmapError.isMmapError : MmapError → Bool
  | .valueError _ | .indexError | .zeroDivisionError | .structError => false
  | _ => true

/-! ### Calls on an attached handle -/

structure AttachedRing where
  handle : MmapRingBuffer
  file : List UInt8

inductive MmapCall
  | write (data : List UInt8) (overwriteIfFull : Bool)
  | read (consumerSeq : Option Nat)
  | readBatch (maxRecords : Int) (consumerSeq : Option Nat)

namespace MmapCall

/-- The call, with the records that it returns. -/
def perform : MmapCall → AttachedRing → Except MmapError (List (List UInt8)) × AttachedRing
  | .write data overwriteIfFull, s =>
      let (result, file) := s.handle.write data overwriteIfFull s.file
      (result.map fun _ => [], { s with file })
  | .read consumerSeq, s =>
      let (result, handle, file) := s.handle.read consumerSeq s.file
      (result.map fun found => found.1.toList, { handle, file })
  | .readBatch maxRecords consumerSeq, s =>
      let (result, handle, file) := s.handle.readBatch maxRecords consumerSeq s.file
      (result.map Prod.fst, { handle, file })

def step (call : MmapCall) (s : AttachedRing) : Option AttachedRing := some (call.perform s).2

/-- Does the call write a record of the size that the handle takes, if it writes? -/
def rightSize : MmapCall → AttachedRing → Bool
  | .write data _, s => data.length == s.handle.recordSize
  | _, _ => true

end MmapCall

/-- The tail is not past the head, and no more than the capacity behind it. -/
structure MmapHeader.InWindow (header : MmapHeader) : Prop where
  tail_le : header.tailSeq ≤ header.headSeq
  window : header.headSeq ≤ header.tailSeq + header.capacity

structure MmapHeader.Usable (header : MmapHeader) : Prop extends header.InWindow where
  capacity : 1 ≤ header.capacity
  recordSize : 1 ≤ header.recordSize

/-- A call with a record of the right size, or none, returns, hands over whole records only, and leaves the
counters in their window. -/
def MmapCall.Normal (call : MmapCall) (s : AttachedRing) : Prop :=
  call.rightSize s = true →
    (∃ records, (call.perform s).1 = .ok records ∧ ∀ record ∈ records, record.length = s.handle.recordSize) ∧
    (MmapHeader.unpack (call.perform s).2.file).InWindow

/-- Attaching raises an `MmapError`, or finds a usable header and every call of the run is normal. -/
def AttachDetects (file : List UInt8) (calls : List MmapCall) : Prop :=
  (∃ err, MmapRingBuffer.attachBuffer file = .error err ∧ err.isMmapError = true) ∨
  ∃ handle, MmapRingBuffer.attachBuffer file = .ok handle ∧ (MmapHeader.unpack file).Usable ∧
    Transition.Throughout MmapCall.step MmapCall.Normal calls { handle, file }

/-- The counters that the call stores fit their fields. -/
def MmapCall.CountersFit : MmapCall → AttachedRing → Prop
  | .write data overwriteIfFull, s =>
      let header := MmapHeader.unpack s.file
      let full := s.handle.capacity ≤ header.headSeq - header.tailSeq
      data.length = s.handle.recordSize → (full → overwriteIfFull = true) →
        header.headSeq + 1 < 2 ^ 64 ∧ (full → header.droppedCount + 1 < 2 ^ 64)
  | _, _ => True

/-! ### What attaching accepts -/

/-- Attaching refuses a short file, a wrong magic, and slots that do not fit. -/
def AttachRefuses (file : List UInt8) : Prop :=
  let header := MmapHeader.unpack file
  file.length < headerSize ∨ header.magic ≠ magicBytes ∨
    file.length < headerSize + header.capacity * header.recordSize

instance (file : List UInt8) : Decidable (AttachRefuses file) := inferInstanceAs (Decidable (_ ∨ _))

namespace MmapRingBuffer

/-- The handle that attaching yields. -/
def attachedTo (header : MmapHeader) : MmapRingBuffer where
  capacity := header.capacity
  recordSize := header.recordSize
  localReadSeq := header.tailSeq

theorem attachBuffer_refuses {file : List UInt8} (h : AttachRefuses file) :
    ∃ err, attachBuffer file = .error err ∧ err.isMmapError = true := by
  rw [attachBuffer]
  split
  · exact ⟨_, rfl, rfl⟩
  · next hlong =>
      dsimp only
      split
      · exact ⟨_, rfl, rfl⟩
      · next hmagic =>
          have htruncated := (h.resolve_left hlong).resolve_left hmagic
          exact ⟨_, if_pos htruncated, rfl⟩

theorem attachBuffer_accepts {file : List UInt8} (h : ¬ AttachRefuses file) :
    attachBuffer file = .ok (attachedTo (MmapHeader.unpack file)) := by
  rw [AttachRefuses] at h
  push Not at h
  obtain ⟨hlong, hmagic, hfits⟩ := h
  rw [attachBuffer, if_neg (Nat.not_lt.mpr hlong)]
  simp only [hmagic, ne_eq, not_true_eq_false, if_false, if_neg (Nat.not_lt.mpr hfits)]
  rfl

end MmapRingBuffer

/-! ### Calls on a handle that fits -/

theorem SoundHeader.inWindow {shape : RingShape} {file : List UInt8} (hsound : SoundHeader shape file) :
    (MmapHeader.unpack file).InWindow := by
  obtain ⟨head, tail, dropped, hheader, htail, hwindow, -⟩ := hsound
  constructor
  · rwa [hheader.headSeq, hheader.tailSeq]
  · rwa [hheader.headSeq, hheader.tailSeq, hheader.capacity]

theorem RingHeader.length_loadSlot {shape : RingShape} {head tail dropped : Nat} {file : List UInt8}
    (hheader : RingHeader shape head tail dropped file) {h : MmapRingBuffer} (hfits : h.Fits shape) (seq : Nat) :
    (h.loadSlot seq file).length = h.recordSize := by
  apply length_slice
  rw [hfits.slotOffset, hfits.recordSize]
  exact (shape.slot_le seq).trans hheader.length

theorem RingHeader.length_of_mem_loadSlots {shape : RingShape} {head tail dropped : Nat} {file : List UInt8}
    (hheader : RingHeader shape head tail dropped file) {h : MmapRingBuffer} (hfits : h.Fits shape) {count seq : Nat}
    {record : List UInt8} (hrecord : record ∈ h.loadSlots file count seq) : record.length = h.recordSize := by
  induction count generalizing seq with
  | zero => cases hrecord
  | succ count ih =>
      obtain rfl | hlater := List.mem_cons.mp hrecord
      · exact hheader.length_loadSlot hfits seq
      · exact ih hlater

structure AttachedRing.Invariant (shape : RingShape) (s : AttachedRing) : Prop where
  sound : SoundHeader shape s.file
  fits : s.handle.Fits shape
  isOpen : s.handle.isClosed = false

namespace AttachedRing.Invariant

variable {shape : RingShape} {s : AttachedRing}

theorem moved (h : s.Invariant shape) {consumerSeq : Option Nat} {moved : MmapRingBuffer × List UInt8}
    (hmoves : moved = (s.handle, s.file) ∨ ∃ next ≤ (MmapHeader.unpack s.file).headSeq,
      moved = s.handle.moveTo consumerSeq next s.file) : Invariant shape ⟨moved.1, moved.2⟩ := by
  obtain rfl | ⟨next, hnext, rfl⟩ := hmoves
  · exact h
  · refine ⟨h.sound.moveTo s.handle consumerSeq hnext, h.fits.moveTo consumerSeq next s.file, ?_⟩
    simp [h.isOpen]

theorem perform (h : s.Invariant shape) (call : MmapCall) : (call.perform s).2.Invariant shape := by
  obtain ⟨head, tail, dropped, hheader, -⟩ := h.sound
  cases call with
  | write data overwriteIfFull => exact ⟨h.sound.write h.fits data overwriteIfFull, h.fits, h.isOpen⟩
  | read consumerSeq =>
      apply h.moved
      rw [hheader.headSeq]
      exact MmapRingBuffer.read_moves hheader h.fits consumerSeq
  | readBatch maxRecords consumerSeq =>
      apply h.moved
      rw [hheader.headSeq]
      exact MmapRingBuffer.readBatch_moves hheader h.fits maxRecords consumerSeq

theorem normal_write_iff (h : s.Invariant shape) (data : List UInt8) (overwriteIfFull : Bool) :
    (MmapCall.write data overwriteIfFull).Normal s ↔ (MmapCall.write data overwriteIfFull).CountersFit s := by
  have hafter := (h.perform (.write data overwriteIfFull)).sound.inWindow
  obtain ⟨head, tail, dropped, hheader, htail, hwindow, hhead, hdropped⟩ := h.sound
  have heffect := hheader.write h.fits htail hhead hdropped data overwriteIfFull
  have hnormal : (MmapCall.write data overwriteIfFull).Normal s ↔ (data.length = s.handle.recordSize →
      ∃ stored, (s.handle.write data overwriteIfFull s.file).1 = .ok stored) := by
    simp only [MmapCall.Normal, MmapCall.rightSize, beq_iff_eq, hafter, and_true]
    apply imp_congr_right
    intro _
    have hresult : ((MmapCall.write data overwriteIfFull).perform s).1 =
        (s.handle.write data overwriteIfFull s.file).1.map fun _ => [] := rfl
    rw [hresult]
    cases (s.handle.write data overwriteIfFull s.file).1 with
    | error err => simp [Except.map]
    | ok stored => simp [Except.map]
  rw [hnormal, MmapCall.CountersFit, hheader.headSeq, hheader.tailSeq, hheader.droppedCount, h.fits.capacity]
  apply imp_congr_right
  intro hlength
  generalize (s.handle.write data overwriteIfFull s.file).1 = result at heffect ⊢
  generalize (s.handle.write data overwriteIfFull s.file).2 = file' at heffect
  cases heffect with
  | misused err hmisused =>
      obtain hclosed | hsize := hmisused
      · simp [h.isOpen] at hclosed
      · exact absurd hlength hsize
  | refused hfull hkeep =>
      apply iff_of_true ⟨false, rfl⟩
      intro hstores
      exact absurd (hstores hfull) (by simp [hkeep])
  | appended hroom hhead' hheader' =>
      apply iff_of_true ⟨true, rfl⟩
      exact fun _ => ⟨hhead', fun hfull => absurd hfull (Nat.not_le.mpr hroom)⟩
  | overwrote hfull hhead' hdropped' hheader' =>
      apply iff_of_true ⟨true, rfl⟩
      exact fun _ => ⟨hhead', fun _ => hdropped'⟩
  | overflowed hstores hoverflow hheader' =>
      simp only [reduceCtorEq, exists_false, false_iff]
      intro hfit
      obtain ⟨hroom, hcount⟩ := hfit hstores
      obtain ⟨hfull, hlast⟩ := hoverflow hroom
      have := hcount hfull
      omega

theorem normal_read (h : s.Invariant shape) (consumerSeq : Option Nat) : (MmapCall.read consumerSeq).Normal s := by
  intro _
  refine ⟨?_, (h.perform (.read consumerSeq)).sound.inWindow⟩
  obtain ⟨head, tail, dropped, hheader, -⟩ := h.sound
  rw [MmapCall.perform, MmapRingBuffer.read_eq hheader h.fits h.isOpen]
  cases s.handle.seqToRead head (consumerSeq.getD s.handle.localReadSeq) with
  | none => exact ⟨[], rfl, by simp⟩
  | some p =>
      refine ⟨[s.handle.loadSlot p s.file], rfl, ?_⟩
      simp [hheader.length_loadSlot h.fits]

theorem normal_readBatch (h : s.Invariant shape) (maxRecords : Int) (consumerSeq : Option Nat) :
    (MmapCall.readBatch maxRecords consumerSeq).Normal s := by
  intro _
  refine ⟨?_, (h.perform (.readBatch maxRecords consumerSeq)).sound.inWindow⟩
  obtain ⟨head, tail, dropped, hheader, -⟩ := h.sound
  rw [MmapCall.perform, MmapRingBuffer.readBatch_eq hheader h.fits h.isOpen]
  cases s.handle.seqToRead head (consumerSeq.getD s.handle.localReadSeq) with
  | none => exact ⟨[], rfl, by simp⟩
  | some p => exact ⟨_, rfl, fun record hrecord => hheader.length_of_mem_loadSlots h.fits hrecord⟩

theorem normal_iff (h : s.Invariant shape) (call : MmapCall) : call.Normal s ↔ call.CountersFit s := by
  cases call with
  | write data overwriteIfFull => exact h.normal_write_iff data overwriteIfFull
  | read consumerSeq => exact iff_of_true (h.normal_read consumerSeq) trivial
  | readBatch maxRecords consumerSeq => exact iff_of_true (h.normal_readBatch maxRecords consumerSeq) trivial

end AttachedRing.Invariant

/-- Attaching detects an unusable header, and what follows is normal, if and only if the file is refused, or its
header is usable and no write stores a counter past its field. -/
theorem attachDetects_iff (file : List UInt8) (calls : List MmapCall) : AttachDetects file calls ↔
    AttachRefuses file ∨ ((MmapHeader.unpack file).Usable ∧ Transition.Throughout MmapCall.step MmapCall.CountersFit
      calls { handle := .attachedTo (MmapHeader.unpack file), file }) := by
  by_cases hrefuses : AttachRefuses file
  · exact iff_of_true (.inl (MmapRingBuffer.attachBuffer_refuses hrefuses)) (.inl hrefuses)
  · have haccepts := MmapRingBuffer.attachBuffer_accepts hrefuses
    have hdetects : AttachDetects file calls ↔ (MmapHeader.unpack file).Usable ∧
        Transition.Throughout MmapCall.step MmapCall.Normal calls
          { handle := .attachedTo (MmapHeader.unpack file), file } := by
      simp [AttachDetects, haccepts]
    rw [hdetects, or_iff_right hrefuses]
    apply and_congr_right
    intro husable
    rw [AttachRefuses] at hrefuses
    push Not at hrefuses
    obtain ⟨hlong, hmagic, hfits⟩ := hrefuses
    have hbounded : ∀ a, a + 8 ≤ headerSize → decodeLE (slice a 8 file) < 2 ^ 64 := by
      intro a ha
      have hlt := decodeLE_lt (slice a 8 file)
      rwa [length_slice (ha.trans hlong)] at hlt
    let shape : RingShape := ⟨(MmapHeader.unpack file).capacity, (MmapHeader.unpack file).recordSize, husable.capacity⟩
    have hinvariant : AttachedRing.Invariant shape { handle := .attachedTo (MmapHeader.unpack file), file } :=
      ⟨⟨_, _, _, ⟨hfits, hmagic, rfl, rfl, rfl, rfl, rfl⟩, husable.tail_le, husable.window, hbounded 22 (by decide),
        hbounded 38 (by decide)⟩, ⟨rfl, rfl⟩, rfl⟩
    obtain ⟨s', hrun⟩ := Transition.exists_run_of_total (fun call s => ⟨_, rfl⟩) calls
      ({ handle := .attachedTo (MmapHeader.unpack file), file } : AttachedRing)
    apply Transition.throughout_iff _ _ hrun hinvariant
    · intro call s s' _ hstep h
      cases hstep
      exact h.perform call
    · intro call s s' h _
      exact h.normal_iff call

/-- A header that says there is no slot, and nothing behind it. -/
def zeroCapacityFile : List UInt8 :=
  MmapHeader.pack {
    magic := magicBytes
    version := 1
    recordSize := 1
    capacity := 0
    headSeq := 0
    tailSeq := 0
    droppedCount := 0
    flags := 0 }

/-- The file is accepted, and the first write divides by zero. -/
theorem not_attachDetects_zeroCapacity :
    MmapRingBuffer.attachBuffer zeroCapacityFile = .ok { capacity := 0, recordSize := 1 } ∧
      (MmapRingBuffer.write [7] true { capacity := 0, recordSize := 1 } zeroCapacityFile).1 =
        .error .zeroDivisionError ∧
      ¬ AttachDetects zeroCapacityFile [.write [7] true] := by
  have hattach : MmapRingBuffer.attachBuffer zeroCapacityFile = .ok { capacity := 0, recordSize := 1 } := by decide
  refine ⟨hattach, by decide, ?_⟩
  rintro (⟨err, hrefused, -⟩ | ⟨handle, -, husable, -⟩)
  · rw [hattach] at hrefused
    cases hrefused
  · exact absurd husable.capacity (by decide)

/-! ### The handle that was never finished -/

/-- Does the operating system open and map the file? -/
inductive MapOutcome
  | granted
  | refused (exc : String)

/-- What `close` looks at of a handle whose constructor may not have come to its end: is `_mm` set? -/
structure HalfBuilt where
  mapped : Bool := false
  isClosed : Bool := false
deriving DecidableEq

/-- `close`, which the finaliser calls. -/
def HalfBuilt.close (half : HalfBuilt) (file : List UInt8) : HalfBuilt × List UInt8 :=
  if half.isClosed then (half, file)
  else ({ mapped := false, isClosed := true }, if half.mapped then store 46 (encodeLE 4 1) file else file)

/-- `_attach_buffer` step by step: what it returns or raises, how far the handle got, and the file. -/
def attachSteps (filePath : String) (outcome : MapOutcome) (file : List UInt8) :
    Except MmapError MmapRingBuffer × HalfBuilt × List UInt8 :=
  let half : HalfBuilt := {}
  if file.length < headerSize then (.error (.fileTooSmall file.length), half, file)
  else
    match outcome with
    | .refused exc =>
        -- an `OSError` is caught, and the handle closed at once
        let (half, file) := half.close file
        (.error (.inaccessible s!"Failed to attach to mmap file '{filePath}': {exc}"), half, file)
    | .granted =>
        let half := { half with mapped := true }
        let header := MmapHeader.unpack file
        -- a `MmapCorruptError` is none, and passes
        if header.magic ≠ magicBytes then (.error (.invalidMagic header.magic), half, file)
        else
          let expectedSize := headerSize + header.capacity * header.recordSize
          if file.length < expectedSize then (.error (.truncated file.length expectedSize), half, file)
          else (.ok (.attachedTo header), half, file)

theorem attachSteps_granted (filePath : String) (file : List UInt8) :
    (attachSteps filePath .granted file).1 = MmapRingBuffer.attachBuffer file := by
  simp only [attachSteps, MmapRingBuffer.attachBuffer, MmapRingBuffer.attachedTo]
  split
  · rfl
  · split
    · rfl
    · split <;> rfl

theorem attachSteps_refuses (filePath : String) {file : List UInt8} (hlong : headerSize ≤ file.length)
    (hrefuses : AttachRefuses file) :
    ∃ err, attachSteps filePath .granted file = (.error err, { mapped := true }, file) := by
  rw [attachSteps, if_neg (Nat.not_lt.mpr hlong)]
  dsimp only
  split
  · exact ⟨_, rfl⟩
  · next hmagic =>
      have htruncated := (hrefuses.resolve_left (Nat.not_lt.mpr hlong)).resolve_left hmagic
      rw [if_pos htruncated]
      exact ⟨_, rfl⟩

/-- If attaching raises, the file is as it was, and still is once the handle is finalised. -/
def RefusalKeepsFile (filePath : String) (outcome : MapOutcome) (file : List UInt8) : Prop :=
  ∀ err, (attachSteps filePath outcome file).1 = .error err →
    (attachSteps filePath outcome file).2.2 = file ∧
      ((attachSteps filePath outcome file).2.1.close (attachSteps filePath outcome file).2.2).2 = file

/-- A refused file is kept if and only if it was never mapped or its flags already say closed. -/
theorem refusalKeepsFile_iff (filePath : String) (outcome : MapOutcome) (file : List UInt8) :
    RefusalKeepsFile filePath outcome file ↔
      file.length < headerSize ∨ outcome ≠ .granted ∨ ¬ AttachRefuses file ∨
        slice 46 4 file = [1, 0, 0, 0] := by
  by_cases hshort : file.length < headerSize
  · apply iff_of_true _ (.inl hshort)
    intro err _
    simp [attachSteps, hshort, HalfBuilt.close]
  · cases outcome with
    | refused exc =>
        apply iff_of_true _ (.inr (.inl (by simp)))
        intro err _
        simp [attachSteps, hshort, HalfBuilt.close]
    | granted =>
        by_cases hrefuses : AttachRefuses file
        · obtain ⟨err, hsteps⟩ := attachSteps_refuses filePath (Nat.not_lt.mp hshort) hrefuses
          have hfits : 46 + (encodeLE 4 1).length ≤ file.length :=
            Nat.le_trans (by decide) (Nat.not_lt.mp hshort)
          have hkept : RefusalKeepsFile filePath .granted file ↔ store 46 (encodeLE 4 1) file = file := by
            simp [RefusalKeepsFile, hsteps, HalfBuilt.close]
          rw [hkept, store_eq_self_iff hfits]
          simp only [hshort, hrefuses, false_or, not_true_eq_false, ne_eq]
          rfl
        · have haccepts := MmapRingBuffer.attachBuffer_accepts hrefuses
          apply iff_of_true _ (.inr (.inr (.inl hrefuses)))
          intro err herr
          rw [attachSteps_granted, haccepts] at herr
          cases herr

/-- A file without the magic is refused, and then its bytes from 46 on are those of a closed flag. -/
theorem not_refusalKeepsFile_zeros :
    ¬ RefusalKeepsFile "/tmp/ring.mmap" .granted (List.replicate 64 0) := by
  intro hkeeps
  exact absurd (hkeeps _ rfl).2 (by decide)

end ChronosMatch
