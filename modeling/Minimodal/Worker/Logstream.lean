import Minimodal.Lib.Machine
import Minimodal.Worker.LineBuffer

namespace Minimodal

namespace Worker

open Lib (Effect Machine)

def produce (env : Env) (calls : List (Text × Bool)) : Effect Stop State Unit := do
  sinks env calls
  close env

def maxBatch : Nat := 256

/-- Where the generator `_chunks` is; `idle` before its thread is started. -/
inductive Chunks
  | idle
  | get
  | fill (lines : List LogLine)
  | yields (lines : List LogLine) (closing : Bool)
  | returned
  deriving DecidableEq, Repr

namespace Chunks

def held : Chunks → List LogLine
  | .fill lines | .yields lines _ => lines
  | _ => []

def closed : Chunks → Bool
  | .yields _ closing => closing
  | .returned => true
  | _ => false

def started : Chunks → Chunks
  | .idle => .get
  | pc => pc

@[simp] theorem held_started (pc : Chunks) : pc.started.held = pc.held := by cases pc <;> rfl

@[simp] theorem closed_started (pc : Chunks) : pc.started.closed = pc.closed := by cases pc <;> rfl

end Chunks

/-- The queue between the two threads. The producer never looks at it, so that its puts are known
from the start. -/
structure Shipping where
  todo : List (Option LogLine)
  queue : List (Option LogLine) := []
  chunks : Chunks := .idle
  deriving DecidableEq, Repr

namespace Shipping

inductive Action
  | put
  | ship
  deriving DecidableEq, Repr

section Machine

variable (jobID : String)

/-- One put, the first of which starts the thread, or one turn of the generator. -/
def step (s : Shipping) : Action → Option (Shipping × List TaskLogChunk)
  | .put =>
    match s.todo with
    | [] => none
    | item :: todo => some ({ todo, queue := s.queue ++ [item], chunks := s.chunks.started }, [])
  | .ship =>
    match s.chunks with
    | .idle | .returned => none
    | .get =>
      match s.queue with
      | [] => none
      | none :: queue => some ({ s with queue, chunks := .returned }, [])
      | some item :: queue => some ({ s with queue, chunks := .fill [item] }, [])
    | .fill lines =>
      if lines.length < maxBatch then
        match s.queue with
        -- `queue.Empty`
        | [] => some ({ s with chunks := .yields lines false }, [])
        | none :: queue => some ({ s with queue, chunks := .yields lines true }, [])
        | some item :: queue => some ({ s with queue, chunks := .fill (lines ++ [item]) }, [])
      else some ({ s with chunks := .yields lines false }, [])
    | .yields lines closing =>
      some ({ s with chunks := if closing then .returned else .get }, [{ jobID, lines }])

def machine : Machine Shipping Action TaskLogChunk where
  step := step jobID

inductive Moves (s : Shipping) : Shipping → List TaskLogChunk → Prop
  | put {item todo} : s.todo = item :: todo →
      Moves s { todo, queue := s.queue ++ [item], chunks := s.chunks.started } []
  | first {item queue} : s.chunks = .get → s.queue = some item :: queue →
      Moves s { s with queue, chunks := .fill [item] } []
  | ends {queue} : s.chunks = .get → s.queue = none :: queue →
      Moves s { s with queue, chunks := .returned } []
  | next {lines item queue} : s.chunks = .fill lines → lines.length < maxBatch →
      s.queue = some item :: queue → Moves s { s with queue, chunks := .fill (lines ++ [item]) } []
  | closes {lines queue} : s.chunks = .fill lines → s.queue = none :: queue →
      Moves s { s with queue, chunks := .yields lines true } []
  | batch {lines} : s.chunks = .fill lines → Moves s { s with chunks := .yields lines false } []
  | yields {lines closing} : s.chunks = .yields lines closing →
      Moves s { s with chunks := if closing then .returned else .get } [{ jobID, lines }]

variable {jobID} {s t : Shipping} {e : List TaskLogChunk}

theorem moves_of_step {a : Action} (h : step jobID s a = some (t, e)) : Moves jobID s t e := by
  cases a with
  | put =>
    cases htodo : s.todo with
    | nil => simp [step, htodo] at h
    | cons item todo =>
      simp only [step, htodo, Option.some.injEq, Prod.mk.injEq] at h
      obtain ⟨rfl, rfl⟩ := h
      exact .put htodo
  | ship =>
    cases hpc : s.chunks with
    | idle => simp [step, hpc] at h
    | returned => simp [step, hpc] at h
    | get =>
      cases hqueue : s.queue with
      | nil => simp [step, hpc, hqueue] at h
      | cons item queue =>
        cases item <;> simp only [step, hpc, hqueue, Option.some.injEq, Prod.mk.injEq] at h <;>
          obtain ⟨rfl, rfl⟩ := h
        · exact .ends hpc hqueue
        · exact .first hpc hqueue
    | fill lines =>
      by_cases hlt : lines.length < maxBatch
      · cases hqueue : s.queue with
        | nil =>
          simp only [step, hpc, hqueue, if_pos hlt, Option.some.injEq, Prod.mk.injEq] at h
          obtain ⟨rfl, rfl⟩ := h
          rw [← hqueue]
          exact .batch hpc
        | cons item queue =>
          cases item <;>
            simp only [step, hpc, hqueue, if_pos hlt, Option.some.injEq, Prod.mk.injEq] at h <;>
            obtain ⟨rfl, rfl⟩ := h
          · exact .closes hpc hqueue
          · exact .next hpc hlt hqueue
      · simp only [step, hpc, if_neg hlt, Option.some.injEq, Prod.mk.injEq] at h
        obtain ⟨rfl, rfl⟩ := h
        exact .batch hpc
    | yields lines closing =>
      simp only [step, hpc, Option.some.injEq, Prod.mk.injEq] at h
      obtain ⟨rfl, rfl⟩ := h
      exact .yields hpc

end Machine

def tape (lines : List LogLine) : List (Option LogLine) := lines.map some ++ [none]

theorem tape_ne_nil (lines : List LogLine) : tape lines ≠ [] := by simp [tape]

theorem some_cons_eq_tape {item : LogLine} {l : List (Option LogLine)} {rest : List LogLine}
    (h : some item :: l = tape rest) : ∃ rest', rest = item :: rest' ∧ l = tape rest' := by
  cases rest with
  | nil => simp [tape] at h
  | cons line rest =>
    simp only [tape, List.map_cons, List.cons_append, List.cons.injEq, Option.some.injEq] at h
    exact ⟨rest, by rw [h.1], h.2⟩

theorem none_cons_eq_tape {l : List (Option LogLine)} {rest : List LogLine}
    (h : none :: l = tape rest) : rest = [] ∧ l = [] := by
  cases rest with
  | nil => exact ⟨rfl, by simpa [tape] using h⟩
  | cons line rest => simp [tape] at h

section Invariant

variable {jobID : String} {items : List LogLine} {es e : List TaskLogChunk} {s t : Shipping}

def pending (s : Shipping) : List (Option LogLine) := s.queue ++ s.todo

/-- No line is lost, doubled or moved; the close marker is the last thing that is taken. -/
def Conserves (items : List LogLine) (es : List TaskLogChunk) (s : Shipping) : Prop :=
  if s.chunks.closed then
    es.flatMap TaskLogChunk.lines ++ s.chunks.held = items ∧ s.pending = []
  else
    ∃ rest, es.flatMap TaskLogChunk.lines ++ s.chunks.held ++ rest = items ∧ s.pending = tape rest

theorem Conserves.line {item : LogLine} {queue : List (Option LogLine)}
    (h : Conserves items es s) (hopen : s.chunks.closed = false)
    (hqueue : s.queue = some item :: queue) :
    ∃ rest, es.flatMap TaskLogChunk.lines ++ (s.chunks.held ++ [item]) ++ rest = items ∧
      queue ++ s.todo = tape rest := by
  simp only [Conserves, hopen, pending, hqueue, List.cons_append] at h
  obtain ⟨rest, hitems, htape⟩ := h
  obtain ⟨rest', rfl, htape'⟩ := some_cons_eq_tape htape
  exact ⟨rest', by simpa using hitems, htape'⟩

theorem Conserves.marker {queue : List (Option LogLine)} (h : Conserves items es s)
    (hopen : s.chunks.closed = false) (hqueue : s.queue = none :: queue) :
    es.flatMap TaskLogChunk.lines ++ s.chunks.held = items ∧ queue ++ s.todo = [] := by
  simp only [Conserves, hopen, pending, hqueue, List.cons_append] at h
  obtain ⟨rest, hitems, htape⟩ := h
  obtain ⟨rfl, hnil⟩ := none_cons_eq_tape htape
  exact ⟨by simpa using hitems, hnil⟩

theorem Conserves.move (h : Conserves items es s) (hmove : Moves jobID s t e) :
    Conserves items (es ++ e) t := by
  cases hmove with
  | put htodo => simpa [Conserves, pending, htodo] using h
  | first hpc hqueue =>
    obtain ⟨rest, hitems, htape⟩ := h.line (by rw [hpc]; rfl) hqueue
    exact ⟨rest, by simpa [hpc, Chunks.held] using hitems, htape⟩
  | ends hpc hqueue =>
    obtain ⟨hitems, hnil⟩ := h.marker (by rw [hpc]; rfl) hqueue
    exact ⟨by simpa [hpc, Chunks.held] using hitems, hnil⟩
  | next hpc hlt hqueue =>
    obtain ⟨rest, hitems, htape⟩ := h.line (by rw [hpc]; rfl) hqueue
    exact ⟨rest, by simpa [hpc, Chunks.held] using hitems, htape⟩
  | closes hpc hqueue =>
    obtain ⟨hitems, hnil⟩ := h.marker (by rw [hpc]; rfl) hqueue
    exact ⟨by simpa [hpc, Chunks.held] using hitems, hnil⟩
  | batch hpc => simpa [Conserves, pending, hpc, Chunks.closed, Chunks.held] using h
  | @yields lines closing hpc =>
    cases closing <;> simpa [Conserves, pending, hpc, Chunks.closed, Chunks.held] using h

def Batch (lines : List LogLine) : Prop := lines ≠ [] ∧ lines.length ≤ maxBatch

structure Batches (jobID : String) (es : List TaskLogChunk) (s : Shipping) : Prop where
  idle : s.chunks = .idle → s.queue = []
  fill : ∀ lines, s.chunks = .fill lines → Batch lines
  yields : ∀ lines closing, s.chunks = .yields lines closing → Batch lines
  sent : ∀ chunk ∈ es, chunk.jobID = jobID ∧ Batch chunk.lines

theorem Batches.move (h : Batches jobID es s) (hmove : Moves jobID s t e) :
    Batches jobID (es ++ e) t := by
  cases hmove with
  | put htodo =>
    rw [List.append_nil]
    cases hpc : s.chunks with
    | idle => exact ⟨nofun, nofun, nofun, h.sent⟩
    | get => exact ⟨nofun, nofun, nofun, h.sent⟩
    | returned => exact ⟨nofun, nofun, nofun, h.sent⟩
    | fill lines => exact ⟨nofun, fun _ heq => h.fill _ (hpc.trans heq), nofun, h.sent⟩
    | yields lines closing =>
      exact ⟨nofun, nofun, fun _ _ heq => h.yields _ _ (hpc.trans heq), h.sent⟩
  | first hpc hqueue =>
    rw [List.append_nil]
    refine ⟨nofun, ?_, nofun, h.sent⟩
    rintro _ ⟨⟩
    exact ⟨by simp, by simp [maxBatch]⟩
  | ends hpc hqueue =>
    rw [List.append_nil]
    exact ⟨nofun, nofun, nofun, h.sent⟩
  | next hpc hlt hqueue =>
    rw [List.append_nil]
    refine ⟨nofun, ?_, nofun, h.sent⟩
    rintro _ ⟨⟩
    exact ⟨by simp, by simpa using hlt⟩
  | closes hpc hqueue =>
    rw [List.append_nil]
    refine ⟨nofun, nofun, ?_, h.sent⟩
    rintro _ _ ⟨⟩
    exact h.fill _ hpc
  | batch hpc =>
    rw [List.append_nil]
    refine ⟨nofun, nofun, ?_, h.sent⟩
    rintro _ _ ⟨⟩
    exact h.fill _ hpc
  | @yields lines closing hpc =>
    have hsent : ∀ chunk ∈ es ++ [⟨jobID, lines⟩], chunk.jobID = jobID ∧ Batch chunk.lines := by
      intro chunk hchunk
      rcases List.mem_append.mp hchunk with hchunk | hchunk
      · exact h.sent chunk hchunk
      · rw [List.mem_singleton.mp hchunk]
        exact ⟨rfl, h.yields _ _ hpc⟩
    cases closing <;> exact ⟨nofun, nofun, nofun, hsent⟩

def work (s : Shipping) : Nat :=
  4 * s.todo.length + 3 * s.queue.length +
    match s.chunks with
    | .fill _ => 2
    | .yields _ _ => 1
    | _ => 0

theorem Moves.work_lt (hmove : Moves jobID s t e) : t.work < s.work := by
  cases hmove with
  | put htodo =>
    cases hpc : s.chunks <;> simp [work, htodo, hpc, Chunks.started] <;> omega
  | first hpc hqueue => simp [work, hpc, hqueue]; omega
  | ends hpc hqueue => simp [work, hpc, hqueue]
  | next hpc hlt hqueue => simp [work, hpc, hqueue]
  | closes hpc hqueue => simp [work, hpc, hqueue]
  | batch hpc => simp [work, hpc]
  | @yields lines closing hpc => cases closing <;> simp [work, hpc]

end Invariant

section Run

variable {jobID : String} {items : List LogLine} {es : List TaskLogChunk} {s t : Shipping}
  {as : List Action}

theorem returned_of_stuck (hcons : Conserves items es s) (hbatch : Batches jobID es s)
    (hstuck : ∀ a, step jobID s a = none) : s.chunks = .returned := by
  have htodo : s.todo = [] := by
    have hput := hstuck .put
    cases htodo : s.todo with
    | nil => rfl
    | cons item todo => simp [step, htodo] at hput
  have hship := hstuck .ship
  cases hpc : s.chunks with
  | returned => rfl
  | idle =>
    simp only [Conserves, hpc, Chunks.closed, pending, hbatch.idle hpc, htodo] at hcons
    obtain ⟨rest, -, htape⟩ := hcons
    exact absurd htape.symm (tape_ne_nil rest)
  | get =>
    cases hqueue : s.queue with
    | nil =>
      simp only [Conserves, hpc, Chunks.closed, pending, hqueue, htodo] at hcons
      obtain ⟨rest, -, htape⟩ := hcons
      exact absurd htape.symm (tape_ne_nil rest)
    | cons item queue => cases item <;> simp [step, hpc, hqueue] at hship
  | fill lines =>
    by_cases hlt : lines.length < maxBatch
    · cases hqueue : s.queue with
      | nil => simp [step, hpc, hlt, hqueue] at hship
      | cons item queue => cases item <;> simp [step, hpc, hlt, hqueue] at hship
    · simp [step, hpc, hlt] at hship
  | yields lines closing => simp [step, hpc] at hship

theorem length_le_of_run (h : (machine jobID).Run Machine.Always s as es t) :
    as.length + t.work ≤ s.work := by
  induction h with
  | refl => simp
  | tail _ _ hstep ih =>
    have hlt := (moves_of_step hstep).work_lt
    rw [List.length_append, List.length_singleton]
    omega

structure Ships (jobID : String) (items : List LogLine) (es : List TaskLogChunk)
    (s : Shipping) : Prop where
  /-- Every chunk holds a line and at most a batch of them. -/
  chunk : ∀ chunk ∈ es, chunk.jobID = jobID ∧ chunk.lines ≠ [] ∧ chunk.lines.length ≤ maxBatch
  /-- At any time the chunks hold the first lines, in order. -/
  order : es.flatMap TaskLogChunk.lines <+: items
  /-- The generator takes nothing after the close marker, and nothing is there. -/
  closed : s.chunks.closed = true →
    es.flatMap TaskLogChunk.lines ++ s.chunks.held = items ∧ s.queue = [] ∧ s.todo = []
  /-- Neither thread waits for ever. -/
  ends : (∀ a, step jobID s a = none) → es.flatMap TaskLogChunk.lines = items ∧
    s.queue = [] ∧ s.todo = [] ∧ s.chunks = if items = [] then .idle else .returned

theorem ships_of_run (hitems : items ≠ [])
    (h : (machine jobID).Run Machine.Always { todo := tape items } as es t) :
    Ships jobID items es t := by
  have hinv : Conserves items es t ∧ Batches jobID es t := by
    refine h.invariant_trace (P := fun es t => Conserves items es t ∧ Batches jobID es t)
      ⟨⟨items, by simp [Chunks.held], rfl⟩, fun _ => rfl, nofun, nofun, nofun⟩ ?_
    intro es s a t e hinv _ hstep
    have hmove := moves_of_step hstep
    exact ⟨hinv.1.move hmove, hinv.2.move hmove⟩
  obtain ⟨hcons, hbatch⟩ := hinv
  have hclosed : t.chunks.closed = true → es.flatMap TaskLogChunk.lines ++ t.chunks.held = items ∧
      t.queue = [] ∧ t.todo = [] := by
    intro hc
    rw [Conserves, if_pos hc, pending, List.append_eq_nil_iff] at hcons
    exact hcons
  refine ⟨hbatch.sent, ?_, hclosed, fun hstuck => ?_⟩
  · unfold Conserves at hcons
    split at hcons
    · exact ⟨_, hcons.1⟩
    · obtain ⟨rest, hrest, -⟩ := hcons
      exact ⟨t.chunks.held ++ rest, by rw [← List.append_assoc, hrest]⟩
  · have hret := returned_of_stuck hcons hbatch hstuck
    rw [hret] at hclosed
    obtain ⟨hall, hqueue, htodo⟩ := hclosed rfl
    exact ⟨by simpa [Chunks.held] using hall, hqueue, htodo, by rw [if_neg hitems, hret]⟩

theorem ships_of_run_nil (h : (machine jobID).Run Machine.Always { todo := [] } as es t) :
    Ships jobID [] es t := by
  have hinit : es = [] ∧ t = { todo := [] } := by
    refine h.invariant_trace (P := fun es t => es = [] ∧ t = { todo := [] }) ⟨rfl, rfl⟩ ?_
    rintro es s (_ | _) t e ⟨rfl, rfl⟩ _ hstep <;> cases hstep
  obtain ⟨rfl, rfl⟩ := hinit
  exact ⟨nofun, List.prefix_rfl, nofun, fun _ => ⟨rfl, rfl, rfl, rfl⟩⟩

end Run

end Shipping

namespace LineBuffers

def remainder (b : LineBuffers) (isStderr : Bool) : List (Text × Bool) :=
  if b.bufs isStderr = [] then [] else [(b.bufs isStderr, isStderr)]

/-- The lines of a task: the completed ones as they were completed, then what is left of stdout,
then what is left of stderr. -/
def shipped (calls : List (Text × Bool)) : List (Text × Bool) :=
  let b := calls.foldl sink {}
  b.emitted ++ b.remainder false ++ b.remainder true

theorem emitted_flush (b : LineBuffers) (isStderr : Bool) :
    (b.flush isStderr).emitted = b.emitted ++ b.remainder isStderr := by
  unfold flush remainder
  by_cases hbuf : b.bufs isStderr = []
  · simp [hbuf, Lib.Split.close]
  · obtain ⟨c, rest, hbuf⟩ := List.exists_cons_of_ne_nil hbuf
    simp [hbuf, Lib.Split.close]

theorem emitted_close (calls : List (Text × Bool)) :
    (((calls.foldl sink {}).flush false).flush true).emitted = shipped calls := by
  rw [emitted_flush, emitted_flush]
  rfl

theorem remainder_encodable {b : LineBuffers} {isStderr : Bool}
    (h : ∀ line ∈ b.remainder isStderr, line.1.encodable = true) :
    (b.bufs isStderr).encodable = true := by
  by_cases hbuf : b.bufs isStderr = []
  · rw [hbuf]
    rfl
  · exact h (b.bufs isStderr, isStderr) (by simp [remainder, hbuf])

theorem texts_shipped (calls : List (Text × Bool)) (isStderr : Bool) :
    texts isStderr (shipped calls) = LineBuffer.lines [(texts isStderr calls).flatten] := by
  have hlines : LineBuffer.lines [(texts isStderr calls).flatten] =
      LineBuffer.lines (texts isStderr calls) := by
    rw [LineBuffer.lines_eq, LineBuffer.lines_eq, List.flatten_singleton]
  have hstream := stream_foldl_sink calls {} isStderr
  rw [hlines, ← emitted_close]
  change ((((calls.foldl sink {}).flush false).flush true).stream isStderr).emitted = _
  rw [stream_flush, stream_flush, hstream]
  cases isStderr <;> rfl

def final (env : Env) (calls : List (Text × Bool)) : TaskLogStreamer :=
  let st := (((calls.foldl sink {}).flush false).flush true).streamer env
  if st.thread then { st with queue := st.queue ++ [none] } else st

theorem queue_final (env : Env) (calls : List (Text × Bool)) :
    (final env calls).queue = if shipped calls = [] then [] else
      Shipping.tape ((shipped calls).map fun line => env.item line.1 line.2) := by
  rw [← emitted_close]
  cases hlines : (((calls.foldl sink {}).flush false).flush true).emitted with
  | nil => simp [final, streamer, hlines]
  | cons line lines => simp [final, streamer, hlines, Shipping.tape]

theorem exec_produce (env : Env) {calls : List (Text × Bool)}
    (h : ∀ line ∈ shipped calls, line.1.encodable = true) :
    (produce env calls).exec {} = (.ok (), { streamer := final env calls }) := by
  have hemitted : ((calls.foldl sink {}).emitted.all (·.1.encodable)) = true :=
    List.all_eq_true.mpr fun line hline => h line (by simp [shipped, hline])
  have hout : ((calls.foldl sink {}).bufs false).encodable = true :=
    remainder_encodable fun line hline => h line (by simp [shipped, hline])
  have herr : ((calls.foldl sink {}).bufs true).encodable = true :=
    remainder_encodable fun line hline => h line (by simp [shipped, hline])
  have herr' : (((calls.foldl sink {}).flush false).bufs true).encodable = true := herr
  have hsinks := exec_sinks env calls (b := {}) (fun _ => by simp) hemitted {}
  rw [produce]
  refine (Effect.exec_bind_ok hsinks).trans ?_
  rw [close, Effect.exec_bind_ok (exec_flush env hout {}),
    Effect.exec_bind_ok (exec_flush env herr' {}), exec_updateStreamer]
  rfl

end LineBuffers

/-- The streamer ships the lines of the task. -/
theorem streamer_ships_lines (env : Env) (jobID : String) (calls : List (Text × Bool))
    (henc : ∀ line ∈ LineBuffers.shipped calls, line.1.encodable = true) :
    ∃ t, (produce env calls).exec {} = (.ok (), t) ∧
      (∀ isStderr, LineBuffers.texts isStderr (LineBuffers.shipped calls) =
        LineBuffer.lines [(LineBuffers.texts isStderr calls).flatten]) ∧
      ∀ as es s,
        (Shipping.machine jobID).Run Machine.Always { todo := t.streamer.queue } as es s →
        as.length ≤ 4 * t.streamer.queue.length ∧
          Shipping.Ships jobID ((LineBuffers.shipped calls).map fun line => env.item line.1 line.2)
            es s := by
  refine ⟨_, LineBuffers.exec_produce env henc, LineBuffers.texts_shipped calls,
    fun as es s hrun => ⟨?_, ?_⟩⟩
  · exact (Nat.le_add_right _ _).trans (Shipping.length_le_of_run hrun)
  · rw [LineBuffers.queue_final] at hrun
    split at hrun
    · rename_i hnil
      rw [hnil]
      exact Shipping.ships_of_run_nil hrun
    · rename_i hlines
      exact Shipping.ships_of_run (by simpa using hlines) hrun

theorem streamer_ships_lines_sample :
    ∃ t, (produce (sampleEnv sampleFn) [(text "a\nb", false), (text "c", true)]).exec {} =
        (.ok (), t) ∧
      (∀ isStderr,
        LineBuffers.texts isStderr
            (LineBuffers.shipped [(text "a\nb", false), (text "c", true)]) =
          LineBuffer.lines
            [(LineBuffers.texts isStderr [(text "a\nb", false), (text "c", true)]).flatten]) ∧
      ∀ as es s,
        (Shipping.machine "j").Run Machine.Always { todo := t.streamer.queue } as es s →
        as.length ≤ 4 * t.streamer.queue.length ∧
          Shipping.Ships "j"
            ((LineBuffers.shipped [(text "a\nb", false), (text "c", true)]).map fun line =>
              (sampleEnv sampleFn).item line.1 line.2) es s :=
  streamer_ships_lines _ _ _ (by decide)

/-- A line with a lone surrogate raises in `sink`; the lines after it wait and leave as one. -/
theorem surrogate_line_lost :
    LineBuffers.shipped [(.surrogate 0 :: text "\na\n", false)] =
        [([.surrogate 0], false), (text "a", false)] ∧
      ∃ t as s, (produce (sampleEnv sampleFn) [(.surrogate 0 :: text "\na\n", false)]).exec {} =
          (.ok (), t) ∧
        (Shipping.machine "j").Run Machine.Always { todo := t.streamer.queue } as
          [⟨"j", [(sampleEnv sampleFn).item (text "a\n") false]⟩] s ∧
        s.chunks = .returned := by
  let queue := [some ((sampleEnv sampleFn).item (text "a\n") false), none]
  refine ⟨by decide, { streamer := { queue, thread := true } },
    [.put, .put, .ship, .ship, .ship], { todo := [], chunks := .returned }, rfl, ?_, rfl⟩
  have hrun : (Shipping.machine "j").exec (fun _ _ => true) { todo := queue }
      [.put, .put, .ship, .ship, .ship] =
      some ({ todo := [], chunks := .returned }, [⟨"j", queue.filterMap id⟩]) := rfl
  exact (Machine.run_of_exec hrun).mono fun _ _ _ => trivial

end Worker

end Minimodal
