import ChronosMatch.Ipc.RingConservation

/-!
# Batch reads

`read_batch` takes one snapshot of the header where single reads take one each. On any file with the header of a
ring the two hand over the same records and leave the same handle and the same bytes, wherever the reader stands.
-/

namespace ChronosMatch

open Bytes

namespace MmapRingBuffer

/-- `n` calls of `read` that stop at the first one to find nothing, each from where the one before ended. -/
def readEach : (n : Nat) → Option Nat → MmapRingBuffer → List UInt8 →
    Except MmapError (List (List UInt8) × Nat) × MmapRingBuffer × List UInt8
  | 0, consumerSeq, h, file => (.ok ([], consumerSeq.getD h.localReadSeq), h, file)
  | n + 1, consumerSeq, h, file =>
      match h.read consumerSeq file with
      | (.error err, h, file) => (.error err, h, file)
      | (.ok (none, seq), h, file) => (.ok ([], seq), h, file)
      | (.ok (some data, next), h, file) =>
          match readEach n (consumerSeq.map fun _ => next) h file with
          | (.ok (records, next), h, file) => (.ok (data :: records, next), h, file)
          | (.error err, h, file) => (.error err, h, file)

section Reads

variable {shape : RingShape} {head tail dropped : Nat} {file : List UInt8} {h : MmapRingBuffer}

theorem loadSlot_moveTo (hheader : RingHeader shape head tail dropped file) (consumerSeq : Option Nat)
    (next seq : Nat) : (h.moveTo consumerSeq next file).1.loadSlot seq (h.moveTo consumerSeq next file).2 =
      h.loadSlot seq file := by
  rw [moveTo]
  split
  · rw [storeTail]
    split
    · have hfile := hheader.headerSize_le
      apply slice_store_of_disjoint
      · rw [length_encodeLE]
        exact Nat.le_trans (by decide) hfile
      · right
        rw [length_encodeLE]
        exact Nat.le_trans (by decide) (Nat.le_add_right headerSize _)
    · rfl
  · rfl

theorem loadSlots_moveTo (hheader : RingHeader shape head tail dropped file) (consumerSeq : Option Nat)
    (next count seq : Nat) :
    (h.moveTo consumerSeq next file).1.loadSlots (h.moveTo consumerSeq next file).2 count seq =
      h.loadSlots file count seq := by
  induction count generalizing seq with
  | zero => rfl
  | succ count ih => rw [loadSlots, loadSlots, ih, loadSlot_moveTo hheader]

theorem getD_moveTo (consumerSeq : Option Nat) (next : Nat) (h : MmapRingBuffer) (file : List UInt8) :
    (consumerSeq.map fun _ => next).getD (h.moveTo consumerSeq next file).1.localReadSeq = next := by
  cases consumerSeq <;> rfl

theorem moveTo_moveTo (hheader : RingHeader shape head tail dropped file) (consumerSeq : Option Nat)
    {next next' : Nat} (hle : next ≤ next') (hnext : next < 2 ^ 64) :
    (h.moveTo consumerSeq next file).1.moveTo (consumerSeq.map fun _ => next) next'
      (h.moveTo consumerSeq next file).2 = h.moveTo consumerSeq next' file := by
  cases consumerSeq with
  | some seq => rfl
  | none =>
      have hfile := hheader.headerSize_le
      have htail := (hheader.storeTail hnext).tailSeq
      have hfits : 30 + (encodeLE 8 next).length ≤ file.length := by
        rw [length_encodeLE]
        exact Nat.le_trans (by decide) hfile
      simp only [moveTo, Option.map_none, Option.isNone_none, if_true, hheader.tailSeq, htail]
      congr 1
      simp only [storeTail]
      by_cases hlt : tail < next
      · rw [if_pos hlt, max_eq_right hlt.le, if_pos (show tail < next' by omega)]
        split
        · exact store_store hfits (by simp)
        · next hsame => rw [show next' = next by omega]
      · rw [if_neg hlt, max_eq_left (Nat.le_of_not_lt hlt)]

theorem readEach_none (hheader : RingHeader shape head tail dropped file) (hfits : h.Fits shape)
    (hopen : h.isClosed = false) {consumerSeq : Option Nat}
    (hseq : h.seqToRead head (consumerSeq.getD h.localReadSeq) = none) (n : Nat) :
    readEach n consumerSeq h file = (.ok ([], consumerSeq.getD h.localReadSeq), h, file) := by
  cases n with
  | zero => rfl
  | succ n => rw [readEach, read_eq hheader hfits hopen, hseq]

theorem readEach_some (hheader : RingHeader shape head tail dropped file) (hfits : h.Fits shape)
    (hopen : h.isClosed = false) {consumerSeq : Option Nat} {p : Nat}
    (hseq : h.seqToRead head (consumerSeq.getD h.localReadSeq) = some p) (hhead : head < 2 ^ 64) (n : Nat) :
    readEach (n + 1) consumerSeq h file =
      (.ok (h.loadSlots file (min (n + 1) (head - p)) p, p + min (n + 1) (head - p)),
        h.moveTo consumerSeq (p + min (n + 1) (head - p)) file) := by
  induction n generalizing h file tail consumerSeq p with
  | zero =>
      obtain ⟨hlt, -⟩ := hfits.seqToRead_lt hseq
      have hone : min (0 + 1) (head - p) = 1 := by omega
      rw [readEach, read_eq hheader hfits hopen, hseq, hone]
      simp only [readEach, getD_moveTo]
      rfl
  | succ n ih =>
      obtain ⟨hlt, hwindow⟩ := hfits.seqToRead_lt hseq
      have hheader' := header_moveTo (h := h) hheader consumerSeq (show p + 1 < 2 ^ 64 by omega)
      have hfits' := hfits.moveTo consumerSeq (p + 1) file
      have hopen' : (h.moveTo consumerSeq (p + 1) file).1.isClosed = false := by rwa [isClosed_moveTo]
      have hseq' : (h.moveTo consumerSeq (p + 1) file).1.seqToRead head ((consumerSeq.map fun _ => p + 1).getD
          (h.moveTo consumerSeq (p + 1) file).1.localReadSeq) = if head ≤ p + 1 then none else some (p + 1) := by
        rw [getD_moveTo]
        exact hfits'.seqToRead_eq (by omega)
      rw [readEach, read_eq hheader hfits hopen, hseq]
      dsimp only
      by_cases hlast : head ≤ p + 1
      · have hone : min (n + 1 + 1) (head - p) = 1 := by omega
        rw [if_pos hlast] at hseq'
        rw [readEach_none hheader' hfits' hopen' hseq', getD_moveTo, hone]
        rfl
      · have hmore : min (n + 1 + 1) (head - p) = min (n + 1) (head - (p + 1)) + 1 := by omega
        have hnext : p + (min (n + 1) (head - (p + 1)) + 1) = p + 1 + min (n + 1) (head - (p + 1)) := by omega
        rw [if_neg hlast] at hseq'
        rw [ih hheader' hfits' hopen' hseq', hmore, loadSlots, loadSlots_moveTo hheader, hnext,
          moveTo_moveTo hheader consumerSeq (by omega) (by omega)]

/-- A batch read hands over what as many single reads hand over, and leaves the same handle and the same file. -/
theorem readBatch_eq_readEach (hheader : RingHeader shape head tail dropped file) (hfits : h.Fits shape)
    (hopen : h.isClosed = false) (hhead : head < 2 ^ 64) {n : Nat} (hn : 1 ≤ n) (consumerSeq : Option Nat) :
    h.readBatch n consumerSeq file = readEach n consumerSeq h file := by
  rw [readBatch_eq hheader hfits hopen]
  cases hseq : h.seqToRead head (consumerSeq.getD h.localReadSeq) with
  | none => rw [readEach_none hheader hfits hopen hseq]
  | some p =>
      obtain ⟨hlt, -⟩ := hfits.seqToRead_lt hseq
      obtain ⟨m, rfl⟩ := Nat.exists_eq_add_of_le' hn
      have hcount : (min ((m + 1 : Nat) : Int) ((head : Int) - p)).toNat = min (m + 1) (head - p) := by omega
      rw [readEach_some hheader hfits hopen hseq hhead, ← hcount]

end Reads

end MmapRingBuffer

/-! ### Writes -/

/-- What a write does to the counters, whatever stands in the slots. -/
inductive CounterEffect (shape : RingShape) (head tail dropped : Nat) (h : MmapRingBuffer) (data : List UInt8)
    (overwriteIfFull : Bool) (file : List UInt8) : Except MmapError Bool → List UInt8 → Prop
  | misused (err : MmapError) (hmisused : h.isClosed = true ∨ data.length ≠ h.recordSize) :
      CounterEffect shape head tail dropped h data overwriteIfFull file (.error err) file
  | refused (hfull : shape.capacity ≤ head - tail) (hkeep : overwriteIfFull = false) :
      CounterEffect shape head tail dropped h data overwriteIfFull file (.ok false) file
  | appended {file' : List UInt8} (hroom : head - tail < shape.capacity) (hhead : head + 1 < 2 ^ 64)
      (hheader : RingHeader shape (head + 1) tail dropped file') :
      CounterEffect shape head tail dropped h data overwriteIfFull file (.ok true) file'
  | overwrote {file' : List UInt8} (hfull : shape.capacity ≤ head - tail) (hhead : head + 1 < 2 ^ 64)
      (hdropped : dropped + 1 < 2 ^ 64)
      (hheader : RingHeader shape (head + 1) (head - shape.capacity + 1) (dropped + 1) file') :
      CounterEffect shape head tail dropped h data overwriteIfFull file (.ok true) file'
  | overflowed {file' : List UInt8} (hstores : shape.capacity ≤ head - tail → overwriteIfFull = true)
      (hoverflow : head + 1 < 2 ^ 64 → shape.capacity ≤ head - tail ∧ 2 ^ 64 ≤ dropped + 1)
      (hheader : RingHeader shape head tail dropped file') :
      CounterEffect shape head tail dropped h data overwriteIfFull file (.error .structError) file'

theorem RingHeader.write {shape : RingShape} {head tail dropped : Nat} {file : List UInt8} {h : MmapRingBuffer}
    (hheader : RingHeader shape head tail dropped file) (hfits : h.Fits shape) (htail : tail ≤ head)
    (hhead : head < 2 ^ 64) (hdropped : dropped < 2 ^ 64) (data : List UInt8) (overwriteIfFull : Bool) :
    CounterEffect shape head tail dropped h data overwriteIfFull file (h.write data overwriteIfFull file).1
      (h.write data overwriteIfFull file).2 := by
  have hpos := shape.capacity_pos
  by_cases hmisused : h.isClosed = true ∨ data.length ≠ h.recordSize
  · obtain ⟨err, hwrite⟩ := MmapRingBuffer.write_misused hmisused overwriteIfFull file
    rw [hwrite]
    exact .misused err hmisused
  · obtain ⟨hopen, hsize⟩ := not_or.mp hmisused
    rw [Bool.not_eq_true] at hopen
    rw [not_not] at hsize
    have hslot := hheader.stored (hsize.trans hfits.recordSize) head
    have hplan := hheader.planWrite hfits htail overwriteIfFull
    by_cases hfull : shape.capacity ≤ head - tail
    · rw [if_pos hfull] at hplan
      cases overwriteIfFull with
      | false =>
          rw [MmapRingBuffer.write_refused hheader hfits htail hopen hsize hfull]
          exact .refused hfull rfl
      | true =>
          rw [MmapRingBuffer.write_planned hheader hfits hopen hsize hplan]
          split
          · next hfields =>
              exact .overwrote hfull hfields.1 hfields.2.2 (hslot.storeCounters hfields.1 hfields.2.1 hfields.2.2)
          · next hfields =>
              refine .overflowed (fun _ => rfl) (fun hroom => ⟨hfull, ?_⟩) hslot
              omega
    · rw [if_neg hfull] at hplan
      rw [MmapRingBuffer.write_planned hheader hfits hopen hsize hplan]
      split
      · next hfields =>
          exact .appended (Nat.lt_of_not_le hfull) hfields.1 (hslot.storeCounters hfields.1 hfields.2.1 hfields.2.2)
      · next hfields =>
          refine .overflowed (fun hfull' => absurd hfull' hfull) (fun hroom => ?_) hslot
          omega

/-- The header is that of a ring of the shape, whatever its counters. -/
def SoundHeader (shape : RingShape) (file : List UInt8) : Prop :=
  ∃ head tail dropped, RingHeader shape head tail dropped file ∧ tail ≤ head ∧ head ≤ tail + shape.capacity ∧
    head < 2 ^ 64 ∧ dropped < 2 ^ 64

namespace SoundHeader

variable {shape : RingShape} {file : List UInt8} {h : MmapRingBuffer}

theorem write (hsound : SoundHeader shape file) (hfits : h.Fits shape) (data : List UInt8) (overwriteIfFull : Bool) :
    SoundHeader shape (h.write data overwriteIfFull file).2 := by
  obtain ⟨head, tail, dropped, hheader, htail, hwindow, hhead, hdropped⟩ := hsound
  have hpos := shape.capacity_pos
  have heffect := hheader.write hfits htail hhead hdropped data overwriteIfFull
  generalize (h.write data overwriteIfFull file).1 = result at heffect
  generalize (h.write data overwriteIfFull file).2 = file' at heffect
  cases heffect with
  | misused => exact ⟨head, tail, dropped, hheader, htail, hwindow, hhead, hdropped⟩
  | refused => exact ⟨head, tail, dropped, hheader, htail, hwindow, hhead, hdropped⟩
  | appended hroom hhead' hheader' => exact ⟨_, _, _, hheader', by omega, by omega, hhead', hdropped⟩
  | overwrote hfull hhead' hdropped' hheader' => exact ⟨_, _, _, hheader', by omega, by omega, hhead', hdropped'⟩
  | overflowed hstores hoverflow hheader' => exact ⟨head, tail, dropped, hheader', htail, hwindow, hhead, hdropped⟩

theorem moveTo (hsound : SoundHeader shape file) (h : MmapRingBuffer) (consumerSeq : Option Nat) {next : Nat}
    (hnext : next ≤ (MmapHeader.unpack file).headSeq) : SoundHeader shape (h.moveTo consumerSeq next file).2 := by
  obtain ⟨head, tail, dropped, hheader, htail, hwindow, hhead, hdropped⟩ := hsound
  rw [hheader.headSeq] at hnext
  refine ⟨_, _, _, MmapRingBuffer.header_moveTo hheader consumerSeq (by omega), ?_, ?_, hhead, hdropped⟩
  · split <;> omega
  · split <;> omega

theorem close (hsound : SoundHeader shape file) (h : MmapRingBuffer) : SoundHeader shape (h.close file).2 := by
  obtain ⟨head, tail, dropped, hheader, hcounters⟩ := hsound
  exact ⟨head, tail, dropped, hheader.close h, hcounters⟩

end SoundHeader

/-! ### Runs -/

/-- The file, its handles, and the records accepted so far. -/
structure SharedRing where
  file : List UInt8
  handles : List MmapRingBuffer
  accepted : List (List UInt8) := []

inductive SharedAction
  | write (handle : Nat) (data : List UInt8) (overwriteIfFull : Bool)
  | read (handle : Nat) (consumerSeq : Option Nat)
  | readBatch (handle : Nat) (maxRecords : Int) (consumerSeq : Option Nat)
  | attach
  | close (handle : Nat)

def SharedAction.isWrite : SharedAction → Bool
  | write _ _ _ => true
  | _ => false

namespace SharedRing

def created (handle : MmapRingBuffer) (file : List UInt8) : SharedRing where
  file
  handles := [handle]

end SharedRing

/-- An operation on any handle that exists. -/
def SharedAction.step : SharedAction → SharedRing → Option SharedRing
  | .write handle data overwriteIfFull, s => do
      let h ← s.handles[handle]?
      match h.write data overwriteIfFull s.file with
      | (.ok true, file) => some { s with file, accepted := s.accepted ++ [data] }
      | (_, file) => some { s with file }
  | .read handle consumerSeq, s => do
      let h ← s.handles[handle]?
      let (_, h, file) := h.read consumerSeq s.file
      some { s with file, handles := s.handles.set handle h }
  | .readBatch handle maxRecords consumerSeq, s => do
      let h ← s.handles[handle]?
      let (_, h, file) := h.readBatch maxRecords consumerSeq s.file
      some { s with file, handles := s.handles.set handle h }
  | .attach, s =>
      match MmapRingBuffer.attachBuffer s.file with
      | .ok h => some { s with handles := s.handles ++ [h] }
      | .error _ => some s
  | .close handle, s => do
      let h ← s.handles[handle]?
      let (h, file) := h.close s.file
      some { s with file, handles := s.handles.set handle h }

/-- The header is that of a ring, in every run. -/
structure SharedRing.HeaderInvariant (shape : RingShape) (s : SharedRing) : Prop where
  header : SoundHeader shape s.file
  handles : ∀ h ∈ s.handles, h.Fits shape

/-- The slots hold what was accepted last, as long as the head has room to count. -/
structure SharedRing.RecordInvariant (shape : RingShape) (s : SharedRing) : Prop where
  ring : ∃ tail dropped, RingFile shape s.accepted tail dropped s.file ∧ tail ≤ s.accepted.length ∧
    s.accepted.length ≤ tail + shape.capacity ∧ dropped ≤ tail
  handles : ∀ h ∈ s.handles, h.Fits shape
  bounded : s.accepted.length < 2 ^ 64

/-- What a step does, whatever the call. -/
inductive SharedStep (s : SharedRing) : SharedAction → SharedRing → Prop
  | unchanged (action : SharedAction) : SharedStep s action s
  | accepted {index : Nat} {h : MmapRingBuffer} (data : List UInt8) (overwriteIfFull : Bool) {file : List UInt8}
      (hh : h ∈ s.handles) (hwrite : h.write data overwriteIfFull s.file = (.ok true, file)) :
      SharedStep s (.write index data overwriteIfFull) { s with file, accepted := s.accepted ++ [data] }
  | rejected {index : Nat} {h : MmapRingBuffer} (data : List UInt8) (overwriteIfFull : Bool) {file : List UInt8}
      {result : Except MmapError Bool} (hh : h ∈ s.handles)
      (hwrite : h.write data overwriteIfFull s.file = (result, file)) (hresult : result ≠ .ok true) :
      SharedStep s (.write index data overwriteIfFull) { s with file }
  | moved {action : SharedAction} (index : Nat) {h : MmapRingBuffer} (hh : h ∈ s.handles) (consumerSeq : Option Nat)
      {next : Nat} (hnext : next ≤ (MmapHeader.unpack s.file).headSeq) :
      SharedStep s action { s with
        file := (h.moveTo consumerSeq next s.file).2
        handles := s.handles.set index (h.moveTo consumerSeq next s.file).1 }
  | attached {h : MmapRingBuffer} (hattach : MmapRingBuffer.attachBuffer s.file = .ok h) :
      SharedStep s .attach { s with handles := s.handles ++ [h] }
  | closed {index : Nat} {h : MmapRingBuffer} (hh : h ∈ s.handles) : SharedStep s (.close index) { s with
      file := (h.close s.file).2
      handles := s.handles.set index (h.close s.file).1 }

section SharedSteps

variable {shape : RingShape} {s s' : SharedRing} {action : SharedAction}

theorem SharedRing.HeaderInvariant.step_cases (h : s.HeaderInvariant shape) (hstep : action.step s = some s') :
    SharedStep s action s' := by
  obtain ⟨head, tail, dropped, hheader, -⟩ := h.header
  -- a read that moves nothing puts back the handle it was called on
  have hreads : ∀ {index : Nat} {handle : MmapRingBuffer} {consumerSeq : Option Nat}
      {moved : MmapRingBuffer × List UInt8}, s.handles[index]? = some handle →
      (moved = (handle, s.file) ∨ ∃ next ≤ head, moved = handle.moveTo consumerSeq next s.file) →
      SharedStep s action { s with file := moved.2, handles := s.handles.set index moved.1 } := by
    intro index handle consumerSeq moved hhandle hmoves
    obtain rfl | ⟨next, hnext, rfl⟩ := hmoves
    · obtain ⟨hlt, rfl⟩ := List.getElem?_eq_some_iff.mp hhandle
      rw [List.set_getElem_self]
      exact .unchanged action
    · exact .moved index (List.mem_of_getElem? hhandle) consumerSeq (hheader.headSeq ▸ hnext)
  cases action with
  | write index data overwriteIfFull =>
      simp only [SharedAction.step, Option.bind_eq_bind, Option.bind_eq_some_iff] at hstep
      obtain ⟨handle, hhandle, hstep⟩ := hstep
      split at hstep
      · next hwrite =>
          cases hstep
          exact .accepted data overwriteIfFull (List.mem_of_getElem? hhandle) hwrite
      · next result file hnot hwrite =>
          cases hstep
          exact .rejected data overwriteIfFull (List.mem_of_getElem? hhandle) hwrite fun heq => hnot heq
  | read index consumerSeq =>
      simp only [SharedAction.step, Option.bind_eq_bind, Option.bind_eq_some_iff] at hstep
      obtain ⟨handle, hhandle, hstep⟩ := hstep
      cases hstep
      apply hreads hhandle
      exact MmapRingBuffer.read_moves hheader (h.handles handle (List.mem_of_getElem? hhandle)) consumerSeq
  | readBatch index maxRecords consumerSeq =>
      simp only [SharedAction.step, Option.bind_eq_bind, Option.bind_eq_some_iff] at hstep
      obtain ⟨handle, hhandle, hstep⟩ := hstep
      cases hstep
      apply hreads hhandle
      exact MmapRingBuffer.readBatch_moves hheader (h.handles handle (List.mem_of_getElem? hhandle)) maxRecords
        consumerSeq
  | attach =>
      rw [SharedAction.step] at hstep
      split at hstep
      · next handle hattach =>
          cases hstep
          exact .attached hattach
      · cases hstep
        exact .unchanged _
  | close index =>
      simp only [SharedAction.step, Option.bind_eq_bind, Option.bind_eq_some_iff] at hstep
      obtain ⟨handle, hhandle, hstep⟩ := hstep
      cases hstep
      exact .closed (List.mem_of_getElem? hhandle)

theorem MmapRingBuffer.Fits.close {h : MmapRingBuffer} (hfits : h.Fits shape) (file : List UInt8) :
    (h.close file).1.Fits shape := by
  rw [MmapRingBuffer.close]
  split
  · exact hfits
  · exact ⟨hfits.capacity, hfits.recordSize⟩

theorem SharedStep.fits (hstep : SharedStep s action s') {head tail dropped : Nat}
    (hheader : RingHeader shape head tail dropped s.file) (hfits : ∀ h ∈ s.handles, h.Fits shape) :
    ∀ h ∈ s'.handles, h.Fits shape := by
  have hset : ∀ {index : Nat} {h' : MmapRingBuffer}, h'.Fits shape → ∀ h ∈ s.handles.set index h', h.Fits shape := by
    intro index h' hfits' h hh
    obtain hold | rfl := List.mem_or_eq_of_mem_set hh
    · exact hfits h hold
    · exact hfits'
  cases hstep with
  | unchanged action => exact hfits
  | accepted data overwriteIfFull hh hwrite => exact hfits
  | rejected data overwriteIfFull hh hwrite hresult => exact hfits
  | moved index hh consumerSeq hnext => exact hset ((hfits _ hh).moveTo consumerSeq _ s.file)
  | attached hattach =>
      rw [hheader.attach] at hattach
      cases hattach
      intro h hh
      obtain hold | hnew := List.mem_append.mp hh
      · exact hfits h hold
      · rw [List.mem_singleton.mp hnew]
        exact ⟨rfl, rfl⟩
  | closed hh => exact hset ((hfits _ hh).close s.file)

theorem SharedRing.HeaderInvariant.step (h : s.HeaderInvariant shape) (hstep : action.step s = some s') :
    s'.HeaderInvariant shape := by
  have hcases := h.step_cases hstep
  have hsound := h.header
  obtain ⟨head, tail, dropped, hheader, -⟩ := h.header
  refine ⟨?_, hcases.fits hheader h.handles⟩
  cases hcases with
  | unchanged action => exact hsound
  | accepted data overwriteIfFull hh hwrite =>
      have hwritten := hsound.write (h.handles _ hh) data overwriteIfFull
      rwa [hwrite] at hwritten
  | rejected data overwriteIfFull hh hwrite hresult =>
      have hwritten := hsound.write (h.handles _ hh) data overwriteIfFull
      rwa [hwrite] at hwritten
  | moved index hh consumerSeq hnext => exact hsound.moveTo _ consumerSeq hnext
  | attached hattach => exact hsound
  | closed hh => exact hsound.close _

theorem RingFile.moveTo {accepted : List (List UInt8)} {tail dropped : Nat} {file : List UInt8}
    (hring : RingFile shape accepted tail dropped file) (h : MmapRingBuffer) (consumerSeq : Option Nat) {next : Nat}
    (hnext : next < 2 ^ 64) : RingFile shape accepted (if consumerSeq.isNone then max tail next else tail) dropped
      (h.moveTo consumerSeq next file).2 := by
  rw [MmapRingBuffer.moveTo]
  split
  · rw [hring.tailSeq]
    exact hring.storeTail hnext
  · exact hring

theorem SharedRing.RecordInvariant.header (h : s.RecordInvariant shape) : s.HeaderInvariant shape := by
  obtain ⟨tail, dropped, hring, htail, hwindow, hdropped⟩ := h.ring
  have hbounded := h.bounded
  exact ⟨⟨_, tail, dropped, hring.header, htail, hwindow, hbounded, by omega⟩, h.handles⟩

theorem SharedRing.RecordInvariant.step (h : s.RecordInvariant shape)
    (hroom : action.isWrite → s.accepted.length + 1 < 2 ^ 64) (hstep : action.step s = some s') :
    s'.RecordInvariant shape := by
  have hcases := h.header.step_cases hstep
  obtain ⟨tail, dropped, hring, htail, hwindow, hdropped⟩ := h.ring
  have hbounded := h.bounded
  have hpos := shape.capacity_pos
  have hfits := hcases.fits hring.header h.handles
  cases hcases with
  | unchanged action => exact h
  | accepted data overwriteIfFull hh hwrite =>
      have hlength : (s.accepted ++ [data]).length = s.accepted.length + 1 := by simp
      have heffect := hring.write (h.handles _ hh) htail hdropped (hroom rfl) data overwriteIfFull
      rw [hwrite] at heffect
      refine ⟨?_, hfits, by rw [hlength]; exact hroom rfl⟩
      cases heffect with
      | appended hfree hring' => exact ⟨tail, dropped, hring', by rw [hlength]; omega, by rw [hlength]; omega, hdropped⟩
      | overwrote hfull hring' =>
          exact ⟨_, dropped + 1, hring', by rw [hlength]; omega, by rw [hlength]; omega, by omega⟩
  | rejected data overwriteIfFull hh hwrite hresult =>
      have heffect := hring.write (h.handles _ hh) htail hdropped (hroom rfl) data overwriteIfFull
      rw [hwrite] at heffect
      cases heffect with
      | raised err hmisused => exact h
      | refused hfull hkeep => exact h
      | appended hfree hring' => exact absurd rfl hresult
      | overwrote hfull hring' => exact absurd rfl hresult
  | moved index hh consumerSeq hnext =>
      rw [hring.headSeq] at hnext
      refine ⟨⟨_, dropped, hring.moveTo _ consumerSeq (by omega), ?_, ?_, ?_⟩, hfits, hbounded⟩
      · dsimp only
        split <;> omega
      · dsimp only
        split <;> omega
      · split <;> omega
  | attached hattach => exact ⟨⟨tail, dropped, hring, htail, hwindow, hdropped⟩, hfits, hbounded⟩
  | closed hh => exact ⟨⟨tail, dropped, hring.close _, htail, hwindow, hdropped⟩, hfits, hbounded⟩

/-! ### What a reader is handed -/

theorem MmapRingBuffer.length_loadSlots (h : MmapRingBuffer) (file : List UInt8) (count seq : Nat) :
    (h.loadSlots file count seq).length = count := by
  induction count generalizing seq with
  | zero => rfl
  | succ count ih => rw [MmapRingBuffer.loadSlots, List.length_cons, ih]

/-- The records handed over are those accepted under the numbers before `next`, none of them overwritten. -/
def HandsOver (capacity : Int) (accepted : List (List UInt8)) (records : List (List UInt8)) (next : Nat) : Prop :=
  records = slice (next - records.length) records.length accepted ∧
    (records ≠ [] → next ≤ accepted.length ∧
      (accepted.length : Int) ≤ (next : Int) - records.length + capacity)

theorem RingFile.handsOver {accepted : List (List UInt8)} {tail dropped : Nat} {file : List UInt8}
    (hring : RingFile shape accepted tail dropped file) {h : MmapRingBuffer} (hfits : h.Fits shape)
    (hopen : h.isClosed = false) (hbounded : accepted.length < 2 ^ 64) (n : Nat) (consumerSeq : Option Nat) :
    ∃ records next, (MmapRingBuffer.readEach n consumerSeq h file).1 = .ok (records, next) ∧
      HandsOver shape.capacity accepted records next := by
  have hnothing : ∀ next, HandsOver shape.capacity accepted [] next := fun next => ⟨rfl, fun h => absurd rfl h⟩
  cases n with
  | zero => exact ⟨_, _, rfl, hnothing _⟩
  | succ n =>
      cases hseq : h.seqToRead accepted.length (consumerSeq.getD h.localReadSeq) with
      | none =>
          rw [MmapRingBuffer.readEach_none hring.header hfits hopen hseq]
          exact ⟨_, _, rfl, hnothing _⟩
      | some p =>
          obtain ⟨hlt, hwindow⟩ := hfits.seqToRead_lt hseq
          have hcount : p + min (n + 1) (accepted.length - p) ≤ accepted.length := by omega
          have hlength := h.length_loadSlots file (min (n + 1) (accepted.length - p)) p
          rw [MmapRingBuffer.readEach_some hring.header hfits hopen hseq hbounded]
          refine ⟨_, _, rfl, ?_, fun _ => ⟨hcount, ?_⟩⟩
          · rw [hlength, Nat.add_sub_cancel]
            exact hring.loadSlots hfits _ hwindow hcount
          · rw [hlength]
            omega

end SharedSteps

theorem MmapRingBuffer.readEach_closed {h : MmapRingBuffer} (hclosed : h.isClosed = true) {n : Nat} (hn : 1 ≤ n)
    (consumerSeq : Option Nat) (file : List UInt8) : ∃ message,
      readEach n consumerSeq h file = (.error (.inaccessible message), h, file) := by
  obtain ⟨m, rfl⟩ := Nat.exists_eq_add_of_le' hn
  refine ⟨"Cannot read from closed ring buffer.", ?_⟩
  rw [readEach, read, if_pos hclosed]

theorem MmapRingBuffer.readBatch_closed {h : MmapRingBuffer} (hclosed : h.isClosed = true) (maxRecords : Int)
    (consumerSeq : Option Nat) (file : List UInt8) : ∃ message,
      h.readBatch maxRecords consumerSeq file = (.error (.inaccessible message), h, file) := by
  refine ⟨"Ring buffer is closed.", ?_⟩
  rw [readBatch, readHeader, if_pos hclosed]

theorem MmapRingBuffer.readBatch_explicit {shape : RingShape} {head tail dropped : Nat} {file : List UInt8}
    {h : MmapRingBuffer} (hheader : RingHeader shape head tail dropped file) (hfits : h.Fits shape)
    (maxRecords : Int) (seq : Nat) : (h.readBatch maxRecords (some seq) file).2 = (h, file) := by
  obtain hsame | ⟨next, -, hmoves⟩ := readBatch_moves hheader hfits maxRecords (some seq)
  · exact hsame
  · exact hmoves

theorem SharedRing.created_recordInvariant {shape : RingShape} {file : List UInt8}
    (hring : RingFile shape [] 0 0 file) : RecordInvariant shape
      (.created { capacity := shape.capacity, recordSize := shape.recordSize } file) where
  ring := ⟨0, 0, hring, Nat.le_refl _, Nat.zero_le _, Nat.le_refl _⟩
  handles h hh := by
    rw [List.mem_singleton.mp hh]
    exact ⟨rfl, rfl⟩
  bounded := Nat.two_pow_pos 64

/-- In every state of a ring, a batch read is as many single reads, a reader with a sequence number of its own
changes nothing, and as long as the head has room to count, whoever reads is handed what was accepted under
the number and is not overwritten. -/
theorem readBatch_singleReads {capacity recordSize : Int} {handle : MmapRingBuffer} {file : List UInt8}
    (hcreate : MmapRingBuffer.createBuffer capacity recordSize = .ok (handle, file)) {actions : List SharedAction}
    {s : SharedRing} (hrun : Transition.run SharedAction.step actions (.created handle file) = some s)
    {h : MmapRingBuffer} (hh : h ∈ s.handles) {n : Nat} (hn : 1 ≤ n) (consumerSeq : Option Nat) :
    (h.isClosed = false → h.readBatch n consumerSeq s.file = MmapRingBuffer.readEach n consumerSeq h s.file) ∧
    (h.isClosed = true →
      (∃ message, h.readBatch n consumerSeq s.file = (.error (.inaccessible message), h, s.file)) ∧
      ∃ message, MmapRingBuffer.readEach n consumerSeq h s.file = (.error (.inaccessible message), h, s.file)) ∧
    (consumerSeq ≠ none → (h.readBatch n consumerSeq s.file).2 = (h, s.file) ∧
      (MmapRingBuffer.readEach n consumerSeq h s.file).2 = (h, s.file)) ∧
    (Transition.Throughout SharedAction.step (fun action s =>
        action.isWrite → (MmapHeader.unpack s.file).headSeq < 2 ^ 64 - 1) actions (.created handle file) →
      h.isClosed = false → ∃ records next,
        (MmapRingBuffer.readEach n consumerSeq h s.file).1 = .ok (records, next) ∧
        HandsOver capacity s.accepted records next) := by
  obtain ⟨shape, hcapacity, -, hring, rfl⟩ := createBuffer_ringFile hcreate
  have hcreated := SharedRing.created_recordInvariant hring
  have hinvariant : s.HeaderInvariant shape :=
    Transition.invariant (fun hstep h => h.step hstep) hrun hcreated.header
  obtain ⟨head, tail, dropped, hheader, -, -, hhead, -⟩ := hinvariant.header
  have hfits := hinvariant.handles h hh
  have hclosedReads : h.isClosed = true → _ := fun hclosed =>
    And.intro (MmapRingBuffer.readBatch_closed hclosed n consumerSeq s.file)
      (MmapRingBuffer.readEach_closed hclosed hn consumerSeq s.file)
  have hequal := fun hopen => MmapRingBuffer.readBatch_eq_readEach hheader hfits hopen hhead hn consumerSeq
  refine ⟨hequal, hclosedReads, fun hexplicit => ?_, fun hroom hopen => ?_⟩
  · obtain ⟨seq, rfl⟩ := Option.ne_none_iff_exists'.mp hexplicit
    have hbatch := MmapRingBuffer.readBatch_explicit hheader hfits n seq
    refine ⟨hbatch, ?_⟩
    cases hopen : h.isClosed with
    | false => rw [← hequal hopen, hbatch]
    | true =>
        obtain ⟨message, hread⟩ := (hclosedReads hopen).2
        rw [hread]
  · have hrecords : s.RecordInvariant shape := by
      refine Transition.invariant_throughout ?_ hrun hroom hcreated
      intro action t t' hcondition hstep hinv
      refine hinv.step (fun hwrite => ?_) hstep
      obtain ⟨tail, dropped, hring, -⟩ := hinv.ring
      have hlt := hcondition hwrite
      rw [hring.headSeq] at hlt
      omega
    obtain ⟨tail, dropped, hring, -⟩ := hrecords.ring
    rw [← hcapacity]
    exact hring.handsOver hfits hopen hrecords.bounded n consumerSeq

theorem readBatch_singleReads_overrunReader :
    ∃ s, Transition.run SharedAction.step [.write 0 [7] true, .attach, .write 1 [8] true]
        (.created oneSlotHandle oneSlotFile) = some s ∧
      oneSlotHandle.readBatch 3 none s.file = MmapRingBuffer.readEach 3 none oneSlotHandle s.file ∧
      ∃ records next, (MmapRingBuffer.readEach 3 none oneSlotHandle s.file).1 = .ok (records, next) ∧
        HandsOver 1 s.accepted records next := by
  have hsome : (Transition.run SharedAction.step [.write 0 [7] true, .attach, .write 1 [8] true]
      (.created oneSlotHandle oneSlotFile)).isSome := by decide
  have hreads := readBatch_singleReads oneSlot_created (Option.some_get hsome).symm (h := oneSlotHandle)
    List.mem_cons_self (show 1 ≤ 3 by decide) none
  exact ⟨_, (Option.some_get hsome).symm, hreads.1 rfl, hreads.2.2.2 (by decide) rfl⟩

def RingSystem.shared (s : RingSystem) : SharedRing where
  file := s.file
  handles := s.handles
  accepted := s.accepted

theorem SharedAction.step_write (index : Nat) (data : List UInt8) (overwriteIfFull : Bool) (s : RingSystem) :
    (SharedAction.write index data overwriteIfFull).step s.shared =
      ((RingAction.write index data overwriteIfFull).step s).map RingSystem.shared := by
  rw [SharedAction.step, RingAction.step, RingSystem.shared]
  cases hhandle : s.handles[index]? with
  | none => rfl
  | some h =>
      simp only [Option.bind_eq_bind, Option.bind_some]
      rcases h.write data overwriteIfFull s.file with ⟨result, file⟩
      obtain err | (_ | _) := result <;> rfl

/-- The write that the head cannot count leaves its record where a reader finds the one before. -/
theorem overflowed_shared {n : Nat} (hlast : n + 1 = 2 ^ 64) :
    ∃ s, Transition.run SharedAction.step (List.replicate n (.write 0 [0] true) ++ [.write 0 [1] true])
        (.created oneSlotHandle oneSlotFile) = some s ∧
      oneSlotHandle ∈ s.handles ∧ s.accepted = List.replicate n [0] ∧
      (oneSlotHandle.readBatch 1 (some 0) s.file).1 = .ok ([[1]], n) := by
  obtain ⟨s, hrun, hhandles, -, haccepted, ⟨tail, dropped, hheader⟩, hload⟩ := overflowed_write hlast
  have hmap := Transition.run_map (fun data => SharedAction.step_write 0 data true)
    (List.replicate n [0] ++ [[1]]) (.created oneSlotHandle oneSlotFile)
  simp only [List.map_append, List.map_replicate, List.map_singleton, hrun] at hmap
  refine ⟨s.shared, hmap, by simp [RingSystem.shared, hhandles], haccepted, ?_⟩
  have hcount : (min 1 ((n : Int) - (n - 1 : Nat))).toNat = 1 := by omega
  dsimp only [RingSystem.shared]
  rw [MmapRingBuffer.readBatch_eq hheader ⟨rfl, rfl⟩ rfl, Option.getD_some, oneSlotHandle_seqToRead hlast]
  dsimp only
  rw [hcount, MmapRingBuffer.loadSlots, MmapRingBuffer.loadSlots, hload, Nat.sub_add_cancel (by omega)]

/-- A run after which a reader is handed what was never accepted. -/
theorem not_readBatch_singleReads_lastSequenceNumber :
    ∃ s, Transition.run SharedAction.step
        (List.replicate (2 ^ 64 - 1) (.write 0 [0] true) ++ [.write 0 [1] true])
        (.created oneSlotHandle oneSlotFile) = some s ∧
      MmapRingBuffer.createBuffer 1 1 = .ok (oneSlotHandle, oneSlotFile) ∧
      oneSlotHandle ∈ s.handles ∧ oneSlotHandle.isClosed = false ∧
      ¬ ∃ records next, (oneSlotHandle.readBatch 1 (some 0) s.file).1 = .ok (records, next) ∧
        HandsOver 1 s.accepted records next := by
  have hlast : 2 ^ 64 - 1 + 1 = 2 ^ 64 := Nat.sub_add_cancel (Nat.two_pow_pos 64)
  obtain ⟨s, hrun, hhandle, haccepted, hread⟩ := overflowed_shared hlast
  refine ⟨s, hrun, rfl, hhandle, rfl, ?_⟩
  rintro ⟨records, next, hresult, hrecords, -⟩
  obtain ⟨rfl, rfl⟩ : records = [[1]] ∧ next = 2 ^ 64 - 1 := by simpa [hread] using hresult.symm
  rw [haccepted] at hrecords
  have hmem : [1] ∈ List.replicate (2 ^ 64 - 1) [(0 : UInt8)] := by
    apply List.mem_of_mem_drop
    apply List.mem_of_mem_take
    exact hrecords ▸ List.mem_cons_self
  exact absurd (List.eq_of_mem_replicate hmem) (by decide)

end ChronosMatch
