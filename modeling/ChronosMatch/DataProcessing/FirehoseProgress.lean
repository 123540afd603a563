import ChronosMatch.DataProcessing.Firehose

/-!
# The firehose gets to its end

Counted are the steps that the firehose has left and, once everything is written, those of the consumer. As long as
the consumer is in its loop, one of the two processes can take a step that lowers the count.
-/

namespace ChronosMatch

open Bytes DataProcessor RingBuffer

namespace Firehose

variable {σ : Type} {generator : RandomGenerator σ}

section Progress

variable {numSlots : Nat} {hslots : 0 < numSlots} {numOrders awaited : Int} {s : Firehose σ}

/-- How many steps the firehose has left. -/
def writerSteps (numOrders : Int) (s : Firehose σ) : Nat :=
  3 * (numOrders.toNat - s.generated.length) +
    match s.pipeline.writerPc with
    | .idle => 0
    | .storing _ _ => 2
    | .publishing _ _ => 1

/-- A bound on the steps that the consumer has left once everything is written. -/
def readerSteps (awaited : Int) (s : Firehose σ) : Nat :=
  5 * (awaited.toNat - s.received) +
    match s.pipeline.readerPc with
    | .idle => 4
    | .comparing writeIndex => if writeIndex ≤ s.received then 5 else 3
    | .loading _ => 2
    | .publishing _ _ => 1

/-- No request for memory is refused. -/
def MemoryLasts : FirehoseAction → Prop
  | .reader grow => grow = .unlimited
  | _ => True

theorem generate_steps (hgenerator : generator.Documented) (hbound : numOrders < 2 ^ 64)
    (h : Inv numSlots hslots numOrders awaited s) (hidle : s.pipeline.writerPc = .idle)
    (hmore : (s.generated.length : Int) < numOrders) : ∃ t, step generator numOrders awaited (.generate 0) s = some t ∧
      t.status = s.status ∧ writerSteps numOrders t < writerSteps numOrders s ∧
      readerSteps awaited t = readerSteps awaited s := by
  have hid : s.generated.length < 2 ^ 64 := by omega
  have hnow : (0 : Int) ≤ 0 ∧ (0 : Int) < 2 ^ 64 := by decide
  obtain ⟨order, packed, rng, -, -, -, -, heq⟩ := generate_eq hgenerator hid hnow
  refine ⟨_, if_pos ⟨by rw [h.failed]; rfl, hidle, hmore⟩, ?_⟩
  rw [heq]
  refine ⟨rfl, ?_, rfl⟩
  rw [writerSteps, writerSteps, hidle, List.length_append, List.length_singleton]
  dsimp only
  omega

theorem stepWriter_steps (generator : RandomGenerator σ) (h : Inv numSlots hslots numOrders awaited s)
    (hbusy : s.pipeline.writerPc ≠ .idle) :
    ∃ t, step generator numOrders awaited .writer s = some t ∧ t.status = s.status ∧
      writerSteps numOrders t < writerSteps numOrders s ∧ readerSteps awaited t = readerSteps awaited s := by
  have hstep : step generator numOrders awaited .writer s = s.stepWriter := by
    rw [step, h.failed]
    rfl
  rw [hstep, stepWriter, Pipeline.stepWriter]
  cases hpc : s.pipeline.writerPc with
  | idle => exact absurd hpc hbusy
  | storing packedOrder writeIndex =>
      refine ⟨_, rfl, rfl, ?_, rfl⟩
      rw [writerSteps, writerSteps, hpc]
      dsimp only
      omega
  | publishing packedOrder writeIndex =>
      dsimp only
      cases hset : setWriteIndex (writeIndex + 1) s.pipeline.file with
      | error err =>
          refine ⟨_, rfl, rfl, ?_, rfl⟩
          rw [writerSteps, writerSteps, hpc]
          dsimp only
          omega
      | ok file =>
          refine ⟨_, rfl, rfl, ?_, rfl⟩
          rw [writerSteps, writerSteps, hpc]
          dsimp only
          omega

/-- An order that was read is one that the engine takes. -/
theorem submit_steps (h : Inv numSlots hslots numOrders awaited s) (hbound : numOrders < 2 ^ 63)
    (hpolling : s.status = .polling) (hmore : (s.received : Int) < awaited) {pipeline : Pipeline}
    (hwriter : pipeline.writerPc = s.pipeline.writerPc) (hidle : pipeline.readerPc = .idle) {readIndex : Nat}
    {data : List UInt8} (hreader : s.pipeline.readerPc = .publishing readIndex data)
    (hdata : s.pipeline.written[s.pipeline.returned.length]? = some data) :
    let t := submit .unlimited data { s with pipeline }
    writerSteps numOrders t = writerSteps numOrders s ∧ loops t.status = true ∧
      readerSteps awaited t < readerSteps awaited s := by
  have hloops : loops s.status = true := by rw [hpolling]; rfl
  obtain ⟨order, horder, hunpack⟩ := h.exists_next hloops hdata
  have hcount := h.count
  have hlt := (List.getElem?_eq_some_iff.mp horder).1
  have hvalid := (h.valid order (List.mem_of_getElem? horder)).2
  have htaken := (h.outcome.holds (ne_raised_of_loops hloops)).addOrder_unlimited hvalid
    (by rw [List.length_take]; omega)
  rw [submit, hunpack]
  dsimp only
  rcases hadd : s.engine.addOrder .unlimited order with ⟨result, engine⟩
  rw [hadd] at htaken
  cases htaken
  refine ⟨by rw [writerSteps, writerSteps, hwriter], by dsimp only; rw [hpolling]; rfl, ?_⟩
  rw [readerSteps, readerSteps, hreader, hidle]
  dsimp only
  omega

/-- Once everything is written, every step of a read brings the consumer on. -/
theorem stepReader_steps (generator : RandomGenerator σ) (h : Inv numSlots hslots numOrders awaited s)
    (hbound : numOrders < 2 ^ 63) (hbusy : s.pipeline.readerPc ≠ .idle) :
    ∃ t, step generator numOrders awaited (.reader .unlimited) s = some t ∧ writerSteps numOrders t =
      writerSteps numOrders s ∧ loops t.status = true ∧ readerSteps awaited t < readerSteps awaited s := by
  obtain ⟨hpolling, hmore⟩ := h.reading hbusy
  have hlength := h.returned (by rw [hpolling]; rfl)
  have hindex := h.pipeline.readIndex
  change ∃ t, s.stepReader .unlimited = some t ∧ _
  cases hreader : s.pipeline.readerPc with
  | idle => exact absurd hreader hbusy
  | comparing writeIndex =>
      by_cases hstale : writeIndex ≤ getReadIndex s.pipeline.file
      · have hstep : s.stepReader .unlimited =
            some { s with pipeline := { s.pipeline with readerPc := .idle }, status := .sleeping } := by
          simp [stepReader, Pipeline.stepReader, hreader, hstale]
        refine ⟨_, hstep, rfl, rfl, ?_⟩
        rw [readerSteps, readerSteps, hreader]
        dsimp only
        rw [if_pos (by omega)]
        omega
      · have hstep : s.stepReader .unlimited = some { s with
            pipeline := { s.pipeline with readerPc := .loading (getReadIndex s.pipeline.file) } } := by
          simp [stepReader, Pipeline.stepReader, hreader, hstale]
        refine ⟨_, hstep, rfl, by dsimp only; rw [hpolling]; rfl, ?_⟩
        rw [readerSteps, readerSteps, hreader]
        dsimp only
        rw [if_neg (by omega)]
        omega
  | loading readIndex =>
      have hstep : s.stepReader .unlimited = some { s with
          pipeline := { s.pipeline with
            readerPc := .publishing readIndex
              (slice (s.pipeline.reader.slotOffset readIndex) orderSize s.pipeline.file) } } := by
        simp [stepReader, Pipeline.stepReader, hreader]
      refine ⟨_, hstep, rfl, by dsimp only; rw [hpolling]; rfl, ?_⟩
      rw [readerSteps, readerSteps, hreader]
      dsimp only
      omega
  | publishing readIndex data =>
      have hgenerated := h.length_written
      have hcount := h.count
      obtain ⟨pipeline, hpipeline⟩ : ∃ pipeline, s.pipeline.stepReader = some pipeline := by
        rw [Pipeline.stepReader, hreader]
        dsimp only
        split <;> exact ⟨_, rfl⟩
      obtain ⟨-, hwriter, hread⟩ := h.pipeline.stepReader_frame (by omega) hpipeline
      rw [hreader] at hread
      obtain ⟨-, hidle, hdata, file, hset⟩ := hread
      have hstep : s.stepReader .unlimited = some (submit .unlimited data { s with pipeline }) := by
        rw [stepReader, hpipeline, Option.map_some, hreader]
        dsimp only
        rw [hset]
      exact ⟨_, hstep, submit_steps h hbound hpolling hmore hwriter hidle hreader hdata⟩

theorem poll_steps (generator : RandomGenerator σ) (h : Inv numSlots hslots numOrders awaited s)
    (hloops : loops s.status = true)
    (hidle : s.pipeline.readerPc = .idle) (hdone : awaited.toNat ≤ s.pipeline.written.length) :
    ∃ t, step generator numOrders awaited .poll s = some t ∧ writerSteps numOrders t = writerSteps numOrders s ∧
      (t.status = .finished ∨ loops t.status = true ∧ readerSteps awaited t < readerSteps awaited s) := by
  by_cases hmore : (s.received : Int) < awaited
  · have hstep : step generator numOrders awaited .poll s = some { s with
        pipeline := { s.pipeline with readerPc := .comparing (getWriteIndex s.pipeline.file) }
        status := .polling } := by
      simp [step, Pipeline.step, hloops, hidle, hmore]
    refine ⟨_, hstep, rfl, .inr ⟨rfl, ?_⟩⟩
    have hindex := h.pipeline.writeIndex
    rw [readerSteps, readerSteps, hidle]
    dsimp only
    rw [if_neg (by omega)]
    omega
  · have hstep : step generator numOrders awaited .poll s = some { s with status := .finished } := by
      simp [step, hloops, hidle, hmore]
    exact ⟨_, hstep, rfl, .inl rfl⟩

/-- Wherever the two processes stand, a consumer in its loop that awaits no more orders than are written gets to the
end of it if they go on without running out of memory: no order that it awaits is out of its reach. -/
theorem firehose_ends (hgenerator : generator.Documented) (hslots : 0 < numSlots) (hfit : numOrders ≤ numSlots)
    (hbound : numOrders < 2 ^ 63) (hawaited : awaited ≤ numOrders) (seed : Int) (engineImport : EngineImport)
    {actions : List FirehoseAction} (hclock : ∀ action ∈ actions, ReadsClock action)
    (hrun : Transition.run (step generator numOrders awaited) actions (initial generator numSlots seed engineImport) =
      some s) (hloops : loops s.status = true) :
    ∃ actions' s', (∀ action ∈ actions', ReadsClock action ∧ MemoryLasts action) ∧
      Transition.run (step generator numOrders awaited) actions' s = some s' ∧ s'.Delivered awaited ∧
      s'.status = .finished := by
  have hbound' : numOrders < 2 ^ 64 := hbound.trans (by decide)
  have hprogress : ∀ s : Firehose σ,
      Inv numSlots hslots numOrders awaited s ∧ (loops s.status = true ∨ s.status = .finished) →
      s.status = .finished ∨ ∃ action t, (ReadsClock action ∧ MemoryLasts action) ∧
        step generator numOrders awaited action s = some t ∧
        (Inv numSlots hslots numOrders awaited t ∧ (loops t.status = true ∨ t.status = .finished)) ∧
        (t.status = .finished ∨ writerSteps numOrders t + readerSteps awaited t <
          writerSteps numOrders s + readerSteps awaited s) := by
    rintro s ⟨hinv, hloops | hfinished⟩
    · right
      by_cases hwriting : s.pipeline.writerPc = .idle
      · by_cases hmore : (s.generated.length : Int) < numOrders
        · obtain ⟨t, hstep, hstatus, hwriter, hreader⟩ := generate_steps hgenerator hbound' hinv hwriting hmore
          have hclock : ReadsClock (.generate 0) := ⟨le_refl 0, by decide⟩
          exact ⟨.generate 0, t, ⟨hclock, trivial⟩, hstep, ⟨hinv.step hgenerator hfit hbound' hclock hstep,
            .inl (by rw [hstatus]; exact hloops)⟩, .inr (by omega)⟩
        · have hlength := hinv.length_written
          have hdone : awaited.toNat ≤ s.pipeline.written.length := by
            rw [Pipeline.underway, hwriting, List.length_nil] at hlength
            omega
          have hclock : ReadsClock (.reader .unlimited) := trivial
          have hclock' : ReadsClock .poll := trivial
          by_cases hreading : s.pipeline.readerPc = .idle
          · obtain ⟨t, hstep, hwriter, hon⟩ := poll_steps generator hinv hloops hreading hdone
            exact ⟨.poll, t, ⟨hclock', trivial⟩, hstep, ⟨hinv.step hgenerator hfit hbound' hclock' hstep,
              hon.symm.imp_left And.left⟩, hon.imp_right fun hless => by omega⟩
          · obtain ⟨t, hstep, hwriter, hloops', hless⟩ := stepReader_steps generator hinv hbound hreading
            exact ⟨.reader .unlimited, t, ⟨hclock, rfl⟩, hstep, ⟨hinv.step hgenerator hfit hbound' hclock hstep,
              .inl hloops'⟩, .inr (by omega)⟩
      · obtain ⟨t, hstep, hstatus, hwriter, hreader⟩ := stepWriter_steps generator hinv hwriting
        have hclock : ReadsClock .writer := trivial
        exact ⟨.writer, t, ⟨hclock, trivial⟩, hstep, ⟨hinv.step hgenerator hfit hbound' hclock hstep,
          .inl (by rw [hstatus]; exact hloops)⟩, .inr (by omega)⟩
    · exact .inl hfinished
  have h := inv_of_run hgenerator hslots hfit hbound' seed engineImport hclock hrun
  obtain ⟨actions', s', hallowed, hrun', ⟨hinv, -⟩, hfinished⟩ :=
    Transition.exists_run_of_measure hprogress ⟨h, .inl hloops⟩
  exact ⟨actions', s', hallowed, hrun', hinv.toDelivered, hfinished⟩

end Progress

theorem firehose_ends_overlap : ∃ s, Transition.run (step steadyGenerator 2 2) overlap
    (initial steadyGenerator 2 42 .reference) = some s ∧ ∃ actions s',
      Transition.run (step steadyGenerator 2 2) actions s = some s' ∧ s'.Delivered 2 ∧ s'.status = .finished := by
  have hloops : (Transition.run (step steadyGenerator 2 2) overlap
      (initial steadyGenerator 2 42 .reference)).map (fun s => loops s.status) = some true := by decide +kernel
  obtain ⟨s, hrun, hs⟩ := Option.map_eq_some_iff.mp hloops
  obtain ⟨actions, s', -, hrun', hdelivered, hfinished⟩ := firehose_ends steadyGenerator_documented (by decide)
    (by decide) (by decide) (le_refl 2) 42 .reference (by decide) hrun hs
  exact ⟨s, hrun, actions, s', hrun', hdelivered, hfinished⟩

end Firehose

end ChronosMatch
