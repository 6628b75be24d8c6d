import Minimodal.Lib.Split
import Minimodal.Worker.Report

namespace Minimodal

namespace Worker

open Lib (Effect)

def CodePoint.isNewline (c : CodePoint) : Bool := c = .scalar '\n'

structure LineBuffer where
  buf : Text := []
  emitted : List Text := []
  deriving DecidableEq, Repr

namespace LineBuffer

def write (b : LineBuffer) (s : Text) : LineBuffer :=
  let (lines, buf) := Lib.Split.cut CodePoint.isNewline [] (b.buf ++ s)
  { buf, emitted := b.emitted ++ lines }

def flushPartial (b : LineBuffer) : LineBuffer :=
  if b.buf = [] then b else { buf := [], emitted := b.emitted ++ [b.buf] }

/-- The live path of one stream: every chunk is written, then the rest is flushed. -/
def lines (chunks : List Text) : List Text := (chunks.foldl write {}).flushPartial.emitted

end LineBuffer

namespace Text

open Lib.Split (cut)

variable {line t : Text} {c : CodePoint}

theorem isLineBreak_newline : isLineBreak (.scalar '\n') = true := by decide

theorem isNewline_iff : c.isNewline = true ↔ c = .scalar '\n' := by simp [CodePoint.isNewline]

def NewlinesOnly (t : Text) : Prop := ∀ c ∈ t, isLineBreak c = true → c = .scalar '\n'
  deriving Decidable

theorem splitlinesFrom_eq_cut (ht : NewlinesOnly t) :
    splitlinesFrom line t = Lib.Split.close (cut CodePoint.isNewline line t) := by
  fun_induction splitlinesFrom line t with
  | case1 => rfl
  | case2 line h =>
    cases line with
    | nil => exact absurd rfl h
    | cons c line => rfl
  | case3 line rest ih =>
    have hbad := ht (.scalar '\r') (by simp) (by decide)
    exact absurd hbad (by decide)
  | case4 line c rest hne hbreak ih =>
    have hc : c = .scalar '\n' := ht c (by simp) hbreak
    rw [Lib.Split.cut_cons_of_pos (isNewline_iff.mpr hc),
      ih fun d hd => ht d (List.mem_cons_of_mem _ hd)]
    generalize cut CodePoint.isNewline [] rest = r
    obtain ⟨pieces, _ | ⟨d, rest⟩⟩ := r <;> rfl
  | case5 line c rest hne hbreak ih =>
    have hc : c.isNewline = false := by
      cases hnl : c.isNewline with
      | false => rfl
      | true =>
        rw [isNewline_iff.mp hnl] at hbreak
        exact absurd isLineBreak_newline hbreak
    rw [Lib.Split.cut_cons_of_neg hc, ih fun d hd => ht d (List.mem_cons_of_mem _ hd)]

theorem splitlinesFrom_no_break (hline : ∀ c ∈ line, isLineBreak c = false) :
    ∀ l ∈ splitlinesFrom line t, ∀ c ∈ l, isLineBreak c = false := by
  fun_induction splitlinesFrom line t with
  | case1 => simp
  | case2 line h => simpa using hline
  | case3 line rest ih =>
    intro l hl
    rcases List.mem_cons.mp hl with rfl | hl
    · exact hline
    · exact ih (by simp) l hl
  | case4 line c rest hne hbreak ih =>
    intro l hl
    rcases List.mem_cons.mp hl with rfl | hl
    · exact hline
    · exact ih (by simp) l hl
  | case5 line c rest hne hbreak ih =>
    refine ih fun d hd => ?_
    rcases List.mem_append.mp hd with hd | hd
    · exact hline d hd
    · rw [List.mem_singleton.mp hd]
      simpa using hbreak

end Text

namespace LineBuffer

open Lib.Split (cut)

variable {b : LineBuffer}

theorem write_eq (hb : ∀ c ∈ b.buf, c.isNewline = false) (s : Text) :
    b.write s =
      { buf := (cut CodePoint.isNewline b.buf s).2
        emitted := b.emitted ++ (cut CodePoint.isNewline b.buf s).1 } := by
  rw [write, Lib.Split.cut_nil_append hb]

theorem foldl_write (hb : ∀ c ∈ b.buf, c.isNewline = false) (chunks : List Text) :
    chunks.foldl write b =
      { buf := (cut CodePoint.isNewline b.buf chunks.flatten).2
        emitted := b.emitted ++ (cut CodePoint.isNewline b.buf chunks.flatten).1 } := by
  induction chunks generalizing b with
  | nil => simp [cut]
  | cons s chunks ih =>
    rw [List.foldl_cons, write_eq hb, ih (Lib.Split.rest_not hb), List.flatten_cons,
      Lib.Split.cut_append, List.append_assoc]

theorem lines_eq (chunks : List Text) :
    lines chunks = Lib.Split.close (cut CodePoint.isNewline [] chunks.flatten) := by
  unfold lines
  rw [foldl_write (by simp)]
  generalize cut CodePoint.isNewline [] chunks.flatten = r
  obtain ⟨pieces, _ | ⟨c, rest⟩⟩ := r <;> simp [flushPartial, Lib.Split.close]

theorem lines_eq_splitlines_iff (chunks : List Text) :
    lines chunks = Text.splitlines chunks.flatten ↔ Text.NewlinesOnly chunks.flatten := by
  rw [lines_eq]
  constructor
  · intro heq c hc hbreak
    by_contra hne
    have hnl : c.isNewline = false := by simp [CodePoint.isNewline, hne]
    have hmem : c ∈ [] ++ chunks.flatten := by rwa [List.nil_append]
    obtain ⟨l, hl, hcl⟩ := Lib.Split.exists_mem_close hmem hnl
    rw [heq] at hl
    have := Text.splitlinesFrom_no_break (by simp) l hl c hcl
    simp [hbreak] at this
  · intro h
    exact (Text.splitlinesFrom_eq_cut h).symm

end LineBuffer

def Env.item (env : Env) (line : Text) (isStderr : Bool) : LogLine where
  line := (String.ofList (line.filterMap CodePoint.encode)).toUTF8.data.toList
  isStderr
  tsUnixMs := env.time

section Streamer

open Lib.Split (cut)

variable (env : Env)

theorem logLine_item {line : Text} (h : line.encodable = true) (isStderr : Bool) :
    env.logLine line isStderr = .ok (env.item line isStderr) := by
  simp only [Env.logLine, Env.string, Text.encode, h, if_true]
  rfl

theorem mapM_logLine {lines : List Text} (h : lines.all Text.encodable = true) (isStderr : Bool) :
    lines.mapM (env.logLine · isStderr) = .ok (lines.map (env.item · isStderr)) := by
  induction lines with
  | nil => rfl
  | cons line lines ih =>
    simp only [List.all_cons, Bool.and_eq_true] at h
    rw [List.mapM_cons, logLine_item env h.1, ih h.2]
    rfl

def TaskLogStreamer.put (st : TaskLogStreamer) (items : List LogLine) : TaskLogStreamer :=
  { st with queue := st.queue ++ items.map some, thread := st.thread || !items.isEmpty }

theorem TaskLogStreamer.put_nil (st : TaskLogStreamer) : st.put [] = st := by
  simp [TaskLogStreamer.put]

theorem exec_enqueue {line : Text} (h : line.encodable = true) (isStderr : Bool) (s : State) :
    (enqueue env line isStderr).exec s =
      (.ok (), { s with streamer := s.streamer.put [env.item line isStderr] }) := by
  simp only [enqueue, Effect.exec_bind, Effect.exec_ofExcept, logLine_item env h]
  simp [updateStreamer, TaskLogStreamer.put]

theorem exec_updateStreamer (f : TaskLogStreamer → TaskLogStreamer) (s : State) :
    (updateStreamer f).exec s = (.ok (), { s with streamer := f s.streamer }) := rfl

theorem exec_emitLines (isStderr : Bool) (line rest : Text) (s : State)
    (h : (cut CodePoint.isNewline line rest).1.all Text.encodable = true) :
    (emitLines env isStderr line rest).exec s =
      (.ok (), { s with
        streamer := (s.streamer.put ((cut CodePoint.isNewline line rest).1.map
          (env.item · isStderr))).setBuf isStderr (cut CodePoint.isNewline line rest).2 }) := by
  induction rest generalizing line s with
  | nil =>
    rw [emitLines, exec_updateStreamer]
    simp [cut, TaskLogStreamer.put_nil]
  | cons c rest ih =>
    rw [emitLines]
    by_cases hc : c = .scalar '\n'
    · rw [Lib.Split.cut_cons_of_pos (Text.isNewline_iff.mpr hc)] at h ⊢
      simp only [List.all_cons, Bool.and_eq_true] at h
      rw [if_pos hc, Effect.exec_bind_ok (exec_updateStreamer _ s),
        Effect.exec_bind_ok (exec_enqueue env h.1 isStderr _), ih [] _ h.2]
      cases isStderr <;> simp [TaskLogStreamer.put, TaskLogStreamer.setBuf]
    · have hnl : c.isNewline = false := by simp [CodePoint.isNewline, hc]
      rw [Lib.Split.cut_cons_of_neg hnl] at h ⊢
      rw [if_neg hc]
      exact ih _ _ h

theorem exec_sink {isStderr : Bool} {s : State} {t : Text}
    (hbuf : ∀ c ∈ s.streamer.buf isStderr, c.isNewline = false)
    (h : (cut CodePoint.isNewline (s.streamer.buf isStderr) t).1.all Text.encodable = true) :
    (sink env t isStderr).exec s =
      (.ok (), { s with
        streamer := (s.streamer.put ((cut CodePoint.isNewline (s.streamer.buf isStderr) t).1.map
          (env.item · isStderr))).setBuf isStderr
            (cut CodePoint.isNewline (s.streamer.buf isStderr) t).2 }) := by
  rw [← Lib.Split.cut_nil_append hbuf] at h ⊢
  rw [sink, Effect.exec_bind_ok Effect.exec_read]
  exact exec_emitLines env isStderr [] _ s h

theorem exec_flushPartial {isStderr : Bool} {s : State}
    (h : (s.streamer.buf isStderr).encodable = true) :
    (flushPartial env isStderr).exec s =
      (.ok (), { s with
        streamer := (s.streamer.put ((Lib.Split.close ([], s.streamer.buf isStderr)).map
          (env.item · isStderr))).setBuf isStderr [] }) := by
  rw [flushPartial, Effect.exec_bind_ok Effect.exec_read]
  cases hbuf : s.streamer.buf isStderr with
  | nil =>
    have hsame : s.streamer.setBuf isStderr [] = s.streamer := by
      rw [← hbuf]
      cases isStderr <;> rfl
    simp [Lib.Split.close, TaskLogStreamer.put_nil, hsame]
  | cons c rest =>
    rw [hbuf] at h
    rw [if_neg (by simp), Effect.exec_bind_ok (exec_enqueue env h isStderr s)]
    rfl

/-- The calls of `sink` during one task. What a call raises goes to the writer, which may go on. -/
def sinks : List (Text × Bool) → Effect Stop State Unit
  | [] => pure ()
  | call :: calls => do
    let _ ← Effect.attempt Stop.isRaised (sink env call.1 call.2)
    sinks calls

end Streamer

structure LineBuffers where
  bufs : Bool → Text := fun _ => []
  emitted : List (Text × Bool) := []

namespace LineBuffers

open Lib.Split (cut)

def sink (b : LineBuffers) (call : Text × Bool) : LineBuffers :=
  let (lines, buf) := cut CodePoint.isNewline [] (b.bufs call.2 ++ call.1)
  { bufs := Function.update b.bufs call.2 buf
    emitted := b.emitted ++ lines.map (·, call.2) }

def flush (b : LineBuffers) (isStderr : Bool) : LineBuffers where
  bufs := Function.update b.bufs isStderr []
  emitted := b.emitted ++ (Lib.Split.close ([], b.bufs isStderr)).map (·, isStderr)

def stream (b : LineBuffers) (isStderr : Bool) : LineBuffer where
  buf := b.bufs isStderr
  emitted := (b.emitted.filter (·.2 = isStderr)).map Prod.fst

theorem filter_map_pair (lines : List Text) (e isStderr : Bool) :
    ((lines.map (·, e)).filter (·.2 = isStderr)).map Prod.fst =
      if e = isStderr then lines else [] := by
  induction lines with
  | nil => simp
  | cons line lines ih => by_cases he : e = isStderr <;> simp_all

theorem stream_sink (b : LineBuffers) (call : Text × Bool) (isStderr : Bool) :
    (b.sink call).stream isStderr =
      if call.2 = isStderr then (b.stream isStderr).write call.1 else b.stream isStderr := by
  obtain ⟨t, e⟩ := call
  simp only [stream, sink, LineBuffer.write, List.filter_append, List.map_append, filter_map_pair]
  by_cases he : e = isStderr
  · subst he
    simp
  · simp [he, Function.update_of_ne (Ne.symm he)]

theorem stream_flush (b : LineBuffers) (e isStderr : Bool) :
    (b.flush e).stream isStderr =
      if e = isStderr then (b.stream isStderr).flushPartial else b.stream isStderr := by
  simp only [stream, flush, LineBuffer.flushPartial, List.filter_append, List.map_append,
    filter_map_pair]
  by_cases he : e = isStderr
  · subst he
    by_cases hbuf : b.bufs e = []
    · simp [hbuf, Lib.Split.close]
    · obtain ⟨c, rest, hbuf⟩ := List.exists_cons_of_ne_nil hbuf
      simp [hbuf, Lib.Split.close]
  · simp [he, Function.update_of_ne (Ne.symm he)]

def texts (isStderr : Bool) (calls : List (Text × Bool)) : List Text :=
  (calls.filter (·.2 = isStderr)).map Prod.fst

theorem stream_foldl_sink (calls : List (Text × Bool)) (b : LineBuffers) (isStderr : Bool) :
    (calls.foldl sink b).stream isStderr =
      (texts isStderr calls).foldl LineBuffer.write (b.stream isStderr) := by
  induction calls generalizing b with
  | nil => rfl
  | cons call calls ih =>
    rw [List.foldl_cons, ih, stream_sink]
    by_cases he : call.2 = isStderr <;> simp [texts, he]

def single (isStderr : Bool) (b : LineBuffer) : LineBuffers where
  bufs := Function.update (fun _ => []) isStderr b.buf
  emitted := b.emitted.map (·, isStderr)

theorem sink_single (isStderr : Bool) (b : LineBuffer) (t : Text) :
    (single isStderr b).sink (t, isStderr) = single isStderr (b.write t) := by
  simp [sink, single, LineBuffer.write]

theorem flush_single (isStderr : Bool) (b : LineBuffer) :
    (single isStderr b).flush isStderr = single isStderr b.flushPartial := by
  obtain ⟨_ | ⟨c, buf⟩, emitted⟩ := b <;>
    simp [flush, single, LineBuffer.flushPartial, Lib.Split.close]

theorem foldl_sink_single (chunks : List Text) (isStderr : Bool) (b : LineBuffer) :
    (chunks.map (·, isStderr)).foldl sink (single isStderr b) =
      single isStderr (chunks.foldl LineBuffer.write b) := by
  induction chunks generalizing b with
  | nil => rfl
  | cons t chunks ih => rw [List.map_cons, List.foldl_cons, sink_single, ih, List.foldl_cons]

def Cut (b : LineBuffers) : Prop := ∀ isStderr, ∀ c ∈ b.bufs isStderr, c.isNewline = false

theorem Cut.sink {b : LineBuffers} (hb : b.Cut) (call : Text × Bool) : (b.sink call).Cut := by
  intro isStderr
  simp only [LineBuffers.sink, Lib.Split.cut_nil_append (hb call.2)]
  by_cases he : isStderr = call.2
  · rw [he, Function.update_self]
    exact Lib.Split.rest_not (hb call.2)
  · rw [Function.update_of_ne he]
    exact hb isStderr

theorem emitted_sink (b : LineBuffers) (call : Text × Bool) :
    b.emitted <+: (b.sink call).emitted := List.prefix_append ..

theorem emitted_foldl (calls : List (Text × Bool)) (b : LineBuffers) :
    b.emitted <+: (calls.foldl sink b).emitted := by
  induction calls generalizing b with
  | nil => exact List.prefix_rfl
  | cons call calls ih => exact (emitted_sink b call).trans (ih (b.sink call))

def streamer (env : Env) (b : LineBuffers) : TaskLogStreamer where
  out := b.bufs false
  err := b.bufs true
  queue := b.emitted.map fun line => some (env.item line.1 line.2)
  thread := !b.emitted.isEmpty

theorem streamer_buf (env : Env) (b : LineBuffers) (isStderr : Bool) :
    (b.streamer env).buf isStderr = b.bufs isStderr := by
  cases isStderr <;> rfl

theorem put_streamer (env : Env) (b : LineBuffers) (lines : List Text) (isStderr : Bool)
    (buf : Text) :
    ((b.streamer env).put (lines.map (env.item · isStderr))).setBuf isStderr buf =
      LineBuffers.streamer env
        { bufs := Function.update b.bufs isStderr buf
          emitted := b.emitted ++ lines.map (·, isStderr) } := by
  have hthread : (!b.emitted.isEmpty || !(lines.map (env.item · isStderr)).isEmpty) =
      !(b.emitted ++ lines.map (·, isStderr)).isEmpty := by
    cases b.emitted <;> cases lines <;> rfl
  cases isStderr <;>
    simp [streamer, TaskLogStreamer.put, TaskLogStreamer.setBuf, Function.comp_def, ← hthread]

theorem exec_sink {env : Env} {b : LineBuffers} (hb : b.Cut) (call : Text × Bool)
    (h : (b.sink call).emitted.all (·.1.encodable) = true) (s : State) :
    (Worker.sink env call.1 call.2).exec { s with streamer := b.streamer env } =
      (.ok (), { s with streamer := (b.sink call).streamer env }) := by
  have hcut := Lib.Split.cut_nil_append (hb call.2) call.1
  have hlines : (cut CodePoint.isNewline (b.bufs call.2) call.1).1.all Text.encodable = true := by
    simp only [LineBuffers.sink, hcut, List.all_append, Bool.and_eq_true, List.all_map] at h
    exact h.2
  rw [Worker.exec_sink env (by rw [streamer_buf]; exact hb call.2) (by rwa [streamer_buf])]
  simp only [streamer_buf, put_streamer]
  simp only [LineBuffers.sink, hcut]

theorem exec_flush (env : Env) {b : LineBuffers} {isStderr : Bool}
    (h : (b.bufs isStderr).encodable = true) (s : State) :
    (flushPartial env isStderr).exec { s with streamer := b.streamer env } =
      (.ok (), { s with streamer := (b.flush isStderr).streamer env }) := by
  rw [exec_flushPartial env (by rwa [streamer_buf])]
  simp only [streamer_buf, put_streamer]
  rfl

theorem exec_sinks (env : Env) (calls : List (Text × Bool)) {b : LineBuffers} (hb : b.Cut)
    (h : (calls.foldl sink b).emitted.all (·.1.encodable) = true) (s : State) :
    (sinks env calls).exec { s with streamer := b.streamer env } =
      (.ok (), { s with streamer := (calls.foldl sink b).streamer env }) := by
  induction calls generalizing b with
  | nil => rfl
  | cons call calls ih =>
    have hfirst : (b.sink call).emitted.all (·.1.encodable) = true := by
      rw [List.all_eq_true] at h ⊢
      exact fun line hline => h line ((emitted_foldl calls (b.sink call)).subset hline)
    rw [sinks, Effect.exec_bind_ok (Effect.exec_attempt_ok (exec_sink hb call hfirst s))]
    exact ih (hb.sink call) h

end LineBuffers

section Captured

variable (env : Env)

def ExecutionResult.stream (result : ExecutionResult) (isStderr : Bool) : Text :=
  if isStderr then result.stderr else result.stdout

def streamed (isStderr : Bool) (chunks : List Text) : Effect Stop State Unit := do
  sinks env (chunks.map (·, isStderr))
  flushPartial env isStderr

theorem tailLines_filter (result : ExecutionResult)
    (henc : ∀ isStderr, (result.stream isStderr).encodable = true) :
    ∃ tail, tailLines env result = .ok tail ∧ ∀ isStderr, tail.filter (·.isStderr = isStderr) =
      (result.stream isStderr).splitlines.map (env.item · isStderr) := by
  have hout := mapM_logLine env ((Text.splitlines_encodable _).trans (henc false)) false
  have herr := mapM_logLine env ((Text.splitlines_encodable _).trans (henc true)) true
  refine ⟨(result.stream false).splitlines.map (env.item · false) ++
    (result.stream true).splitlines.map (env.item · true), ?_, fun isStderr => ?_⟩
  · change (result.stdout.splitlines.mapM (env.logLine · false)) = _ at hout
    change (result.stderr.splitlines.mapM (env.logLine · true)) = _ at herr
    simp only [tailLines, hout, herr]
    rfl
  · rw [List.filter_append, List.filter_map, List.filter_map]
    cases isStderr <;> simp [Env.item, Function.comp_def]

theorem Text.encodable_of_subset {t u : Text} (h : t.encodable = true) (hu : u ⊆ t) :
    u.encodable = true := by
  rw [encodable, List.all_eq_true] at h ⊢
  exact fun c hc => h c (hu hc)

theorem exec_streamed {isStderr : Bool} {chunks : List Text}
    (h : Text.encodable chunks.flatten = true) :
    (streamed env isStderr chunks).exec {} =
      (.ok (), { streamer := (LineBuffers.single isStderr
          (chunks.foldl LineBuffer.write {}).flushPartial).streamer env }) := by
  obtain ⟨hpieces, hrest⟩ := Lib.Split.cut_subset (p := CodePoint.isNewline) [] chunks.flatten
  have hfold : (chunks.map (·, isStderr)).foldl LineBuffers.sink {} =
      .single isStderr (chunks.foldl LineBuffer.write {}) := by
    rw [← LineBuffers.foldl_sink_single]
    congr 1
    simp [LineBuffers.single]
  have hemitted : (LineBuffers.single isStderr (chunks.foldl LineBuffer.write {})).emitted.all
      (·.1.encodable) = true := by
    rw [LineBuffer.foldl_write (by simp)]
    simp only [LineBuffers.single, List.nil_append, List.all_map, List.all_eq_true]
    exact fun line hline => Text.encodable_of_subset h (hpieces line hline)
  have hbuf : ((LineBuffers.single isStderr (chunks.foldl LineBuffer.write {})).bufs
      isStderr).encodable = true := by
    rw [LineBuffer.foldl_write (by simp)]
    simp only [LineBuffers.single, Function.update_self]
    exact Text.encodable_of_subset h hrest
  rw [← hfold] at hemitted
  have hsinks := LineBuffers.exec_sinks env (chunks.map (·, isStderr))
    (b := {}) (fun _ => by simp) hemitted {}
  rw [hfold] at hsinks
  rw [streamed, ← LineBuffers.flush_single]
  exact (Effect.exec_bind_ok hsinks).trans (LineBuffers.exec_flush env hbuf {})

theorem exec_streamed_queue (isStderr : Bool) (chunks : List Text)
    (h : Text.encodable chunks.flatten = true) :
    ∃ t, (streamed env isStderr chunks).exec {} = (.ok (), t) ∧
      t.streamer.queue = (LineBuffer.lines chunks).map (some <| env.item · isStderr) :=
  ⟨_, exec_streamed env h, by
    simp [LineBuffers.streamer, LineBuffers.single, LineBuffer.lines, Function.comp_def]⟩

theorem LineBuffer.lines_encodable {chunks : List Text}
    (h : Text.encodable chunks.flatten = true) :
    (LineBuffer.lines chunks).all Text.encodable = true := by
  obtain ⟨hpieces, hrest⟩ := Lib.Split.cut_subset (p := CodePoint.isNewline) [] chunks.flatten
  rw [lines_eq, List.all_eq_true]
  intro line hline
  rcases Lib.Split.mem_close.mp hline with hline | ⟨rfl, -⟩
  · exact Text.encodable_of_subset h (hpieces line hline)
  · exact Text.encodable_of_subset h hrest

theorem Text.scalars_of_encodable {t : Text} (h : t.encodable = true) :
    (t.filterMap CodePoint.encode).map .scalar = t := by
  induction t with
  | nil => rfl
  | cons c t ih =>
    rw [encodable_cons, Bool.and_eq_true] at h
    cases c with
    | scalar c => simp [CodePoint.encode, ih h.2]
    | surrogate n => simp [CodePoint.encode] at h

theorem map_item_line_inj {ls ms : List Text} (hls : ls.all Text.encodable = true)
    (hms : ms.all Text.encodable = true) (isStderr : Bool) :
    ls.map (fun t => (env.item t isStderr).line) = ms.map (fun t => (env.item t isStderr).line) ↔
      ls = ms := by
  refine ⟨fun h => ?_, fun h => congrArg _ h⟩
  -- UTF-8 loses nothing of a text without surrogates
  have hbytes : Function.Injective fun cs : List Char =>
      (String.ofList cs).toUTF8.data.toList := by
    intro cs ds hcs
    exact String.ofList_inj.mp (String.toByteArray_inj.mp (ByteArray.ext (Array.toList_inj.mp hcs)))
  have hchars : ls.map (·.filterMap CodePoint.encode) = ms.map (·.filterMap CodePoint.encode) := by
    apply List.map_injective_iff.mpr hbytes
    rw [List.map_map, List.map_map]
    exact h
  have hback : ∀ {ts : List Text}, ts.all Text.encodable = true →
      (ts.map (·.filterMap CodePoint.encode)).map (·.map .scalar) = ts := by
    intro ts hts
    rw [List.map_map]
    exact (List.map_congr_left fun t ht =>
      Text.scalars_of_encodable (List.all_eq_true.mp hts t ht)).trans (List.map_id _)
  rw [← hback hls, hchars, hback hms]

/-- What is streamed and what is captured are the same lines exactly if no other line boundary
than the newline is printed. -/
theorem streamed_lines_eq_captured {isStderr : Bool} {chunks : List Text} {result : ExecutionResult}
    (hresult : result.stream isStderr = chunks.flatten)
    (henc : ∀ isStderr, (result.stream isStderr).encodable = true) :
    ∃ t tail, (streamed env isStderr chunks).exec {} = (.ok (), t) ∧
      tailLines env result = .ok tail ∧
      (t.streamer.queue.map (·.map LogLine.line) =
          (tail.filter (·.isStderr = isStderr)).map (some ·.line) ↔
        Text.NewlinesOnly chunks.flatten) := by
  have htext : Text.encodable chunks.flatten = true := hresult ▸ henc isStderr
  obtain ⟨t, ht, hqueue⟩ := exec_streamed_queue env isStderr chunks htext
  obtain ⟨tail, htail, hfilter⟩ := tailLines_filter env result henc
  have hlive : t.streamer.queue.map (·.map LogLine.line) =
      ((LineBuffer.lines chunks).map fun l => (env.item l isStderr).line).map some := by
    simp [hqueue, Function.comp_def]
  have hcaptured : (tail.filter (·.isStderr = isStderr)).map (some ·.line) =
      ((Text.splitlines chunks.flatten).map fun l => (env.item l isStderr).line).map some := by
    simp [hfilter isStderr, hresult, Function.comp_def]
  refine ⟨t, tail, ht, htail, ?_⟩
  rw [hlive, hcaptured, (List.map_injective_iff.mpr (Option.some_injective _)).eq_iff,
    map_item_line_inj env (LineBuffer.lines_encodable htext)
      ((Text.splitlines_encodable _).trans htext),
    LineBuffer.lines_eq_splitlines_iff]

theorem streamed_lines_eq_captured_sample :
    ∃ t tail,
      (streamed (sampleEnv sampleFn) false [text "a\nb", text "c"]).exec {} = (.ok (), t) ∧
      tailLines (sampleEnv sampleFn) { success := true, stdout := text "a\nbc" } = .ok tail ∧
      t.streamer.queue.map (·.map LogLine.line) =
        (tail.filter (·.isStderr = false)).map (some ·.line) := by
  have hresult : ({ success := true, stdout := text "a\nbc" } : ExecutionResult).stream false =
      [text "a\nb", text "c"].flatten := by decide
  obtain ⟨t, tail, ht, htail, hiff⟩ :=
    streamed_lines_eq_captured (sampleEnv sampleFn) hresult (by decide)
  exact ⟨t, tail, ht, htail, hiff.mpr (by decide)⟩

/-- A carriage return ends a captured line and is part of a streamed one. -/
theorem carriage_return_splits_captured :
    ∃ t tail, (streamed (sampleEnv sampleFn) false [text "a\rb"]).exec {} = (.ok (), t) ∧
      tailLines (sampleEnv sampleFn) { success := true, stdout := text "a\rb" } = .ok tail ∧
      t.streamer.queue.length = 1 ∧ (tail.filter (·.isStderr = false)).length = 2 := by
  obtain ⟨t, ht, hqueue⟩ := exec_streamed_queue (sampleEnv sampleFn) false [text "a\rb"]
    (by decide)
  obtain ⟨tail, htail, hfilter⟩ := tailLines_filter (sampleEnv sampleFn)
    { success := true, stdout := text "a\rb" } (by decide)
  refine ⟨t, tail, ht, htail, ?_, ?_⟩
  · rw [hqueue, List.length_map]
    decide
  · rw [hfilter, List.length_map]
    decide

end Captured

end Worker

end Minimodal
