import Minimodal.Worker.Python

namespace Minimodal

namespace Worker

open Lib (Effect)

structure TaskLogStreamer where
  out : Text := []
  err : Text := []
  -- `none` is the close marker
  queue : List (Option LogLine) := []
  thread : Bool := false
  deriving DecidableEq, Repr

/-- The worker process, as far as one task sees it. `started` and `idle` are the warm pool, the
children with whether they still serve. -/
structure State where
  streamer : TaskLogStreamer := {}
  started : Bool := true
  idle : List (Nat × Bool) := []
  reports : List ReportTaskResultRequest := []
  active : Int := 0
  deriving DecidableEq, Repr

namespace TaskLogStreamer

def buf (st : TaskLogStreamer) (isStderr : Bool) : Text := if isStderr then st.err else st.out

def setBuf (st : TaskLogStreamer) (isStderr : Bool) (buf : Text) : TaskLogStreamer :=
  if isStderr then { st with err := buf } else { st with out := buf }

end TaskLogStreamer

def updateStreamer (f : TaskLogStreamer → TaskLogStreamer) : Effect Stop State Unit :=
  .modify fun s => { s with streamer := f s.streamer }

section Streamer

variable (env : Env)

/-- `_enqueue`, which starts the shipping thread with the first line. -/
def enqueue (line : Text) (isStderr : Bool) : Effect Stop State Unit := do
  let item ← .ofExcept (env.logLine line isStderr)
  updateStreamer fun st => { st with queue := st.queue ++ [some item], thread := true }

/-- The loop of `LineBuffer.write`: a line is cut off before it is emitted. -/
def emitLines (isStderr : Bool) (line : Text) : Text → Effect Stop State Unit
  | [] => updateStreamer (·.setBuf isStderr line)
  | c :: rest =>
    if c = .scalar '\n' then do
      updateStreamer (·.setBuf isStderr rest)
      enqueue env line isStderr
      emitLines isStderr [] rest
    else emitLines isStderr (line ++ [c]) rest

def sink (s : Text) (isStderr : Bool) : Effect Stop State Unit := do
  let buf ← .read fun st : State => st.streamer.buf isStderr
  emitLines env isStderr [] (buf ++ s)

/-- `StdIORouter.write` of a thread with a sink; a `ValueError` of the stream below is dropped. -/
def routerWrite (s : Text) (isStderr : Bool) : Effect Stop State Unit := do
  sink env s isStderr
  match env.stdio s isStderr with
  | none => pure ()
  | some e => if e.kind = .valueError then pure () else .stop (.raised e)

def flushPartial (isStderr : Bool) : Effect Stop State Unit := do
  let buf ← .read fun st : State => st.streamer.buf isStderr
  if buf = [] then pure ()
  else do
    enqueue env buf isStderr
    updateStreamer (·.setBuf isStderr [])

def close : Effect Stop State Unit := do
  flushPartial env false
  flushPartial env true
  updateStreamer fun st => if st.thread then { st with queue := st.queue ++ [none] } else st

def State.books (s : State) : List ReportTaskResultRequest × Int := (s.reports, s.active)

theorem updateStreamer_preserves (f : TaskLogStreamer → TaskLogStreamer) :
    Effect.Preserves State.books (updateStreamer f) := .modify fun _ => rfl

theorem enqueue_preserves (line : Text) (isStderr : Bool) :
    Effect.Preserves State.books (enqueue env line isStderr) :=
  .bind (.ofExcept _) fun _ => updateStreamer_preserves _

theorem emitLines_preserves (isStderr : Bool) (line rest : Text) :
    Effect.Preserves State.books (emitLines env isStderr line rest) := by
  induction rest generalizing line with
  | nil => exact updateStreamer_preserves _
  | cons c rest ih =>
    rw [emitLines]
    split
    · exact (updateStreamer_preserves _).bind fun _ => (enqueue_preserves env _ _).bind fun _ => ih []
    · exact ih _

theorem routerWrite_preserves (s : Text) (isStderr : Bool) :
    Effect.Preserves State.books (routerWrite env s isStderr) := by
  refine .bind (.bind (.read _) fun _ => emitLines_preserves env _ _ _) fun _ => ?_
  cases env.stdio s isStderr with
  | none => exact .pure ()
  | some e =>
    dsimp only
    split
    · exact .pure ()
    · exact .stop _

def TaskLogStreamer.flushable (st : TaskLogStreamer) : Bool :=
  (st.buf false).encodable && (st.buf true).encodable

theorem enqueue_ok {line : Text} (h : line.encodable = true) (isStderr : Bool) (s : State) :
    ∃ queue, (enqueue env line isStderr).exec s =
      (.ok (), { s with streamer := { s.streamer with queue, thread := true } }) := by
  obtain ⟨item, hitem⟩ := env.logLine_ok h isStderr
  exact ⟨_, by simp only [enqueue, Effect.exec_bind, Effect.exec_ofExcept, hitem]; rfl⟩

theorem enqueue_error {line : Text} (h : line.encodable = false) (isStderr : Bool) (s : State) :
    (enqueue env line isStderr).exec s = (.error (env.unicodeEncodeError line), s) := by
  simp [enqueue, Effect.exec_bind, env.logLine_error h]

theorem flushPartial_ok (isStderr : Bool) (s : State)
    (h : (s.streamer.buf isStderr).encodable = true) :
    ∃ st, (flushPartial env isStderr).exec s = (.ok (), { s with streamer := st }) ∧
      st.buf isStderr = [] ∧ st.buf (!isStderr) = s.streamer.buf (!isStderr) := by
  by_cases hbuf : s.streamer.buf isStderr = []
  · exact ⟨s.streamer, by simp [flushPartial, Effect.exec_bind, hbuf], hbuf, rfl⟩
  · obtain ⟨queue, hq⟩ := enqueue_ok env h isStderr s
    refine ⟨{ s.streamer with queue, thread := true }.setBuf isStderr [], ?_, ?_⟩
    · simp only [flushPartial, Effect.exec_bind, Effect.exec_read, hbuf, if_false, hq]
      rfl
    · cases isStderr <;> exact ⟨rfl, rfl⟩

theorem flushPartial_error (isStderr : Bool) (s : State)
    (h : (s.streamer.buf isStderr).encodable = false) :
    (flushPartial env isStderr).exec s =
      (.error (env.unicodeEncodeError (s.streamer.buf isStderr)), s) := by
  have hbuf : s.streamer.buf isStderr ≠ [] := by
    intro hnil
    simp [hnil] at h
  simp [flushPartial, Effect.exec_bind, hbuf, enqueue_error env h]

theorem close_ok {s : State} (h : s.streamer.flushable = true) :
    ∃ st, (close env).exec s = (.ok (), { s with streamer := st }) ∧ st.flushable = true := by
  simp only [TaskLogStreamer.flushable, Bool.and_eq_true] at h
  obtain ⟨st, hout, hnil, hbuf⟩ := flushPartial_ok env false s h.1
  obtain ⟨st', herr, hnil', hbuf'⟩ := flushPartial_ok env true { s with streamer := st }
    ((congrArg Text.encodable hbuf).trans h.2)
  refine ⟨if st'.thread then { st' with queue := st'.queue ++ [none] } else st', ?_, ?_⟩
  · simp only [close, Effect.exec_bind, hout, herr]
    rfl
  · have hout' : st'.out = [] := hbuf'.trans hnil
    have herr' : st'.err = [] := hnil'
    split <;> simp [TaskLogStreamer.flushable, TaskLogStreamer.buf, hout', herr']

theorem close_error {s : State} (h : s.streamer.flushable = false) :
    ∃ t st, (close env).exec s = (.error (env.unicodeEncodeError t), { s with streamer := st }) ∧
      st.flushable = false := by
  cases hout : (s.streamer.buf false).encodable with
  | false =>
    have hflush := flushPartial_error env false s hout
    exact ⟨_, s.streamer, by simp only [close, Effect.exec_bind, hflush]; rfl, h⟩
  | true =>
    have herr : (s.streamer.buf true).encodable = false := by
      simpa [TaskLogStreamer.flushable, hout] using h
    obtain ⟨st, hflush, -, hbuf⟩ := flushPartial_ok env false s hout
    have hst : (st.buf true).encodable = false := (congrArg Text.encodable hbuf).trans herr
    have hflush' := flushPartial_error env true { s with streamer := st } hst
    exact ⟨_, st, by simp only [close, Effect.exec_bind, hflush, hflush']; rfl,
      by simp [TaskLogStreamer.flushable, hst]⟩

end Streamer

structure ExecutionResult where
  success : Bool
  resultBytes : Bytes := []
  error : Text := []
  coldStartMs : Int := 0
  executionMs : Int := 0
  stdout : Text := []
  stderr : Text := []
  deriving DecidableEq, Repr

def serializeResult (value : Except Stop Bytes) : Except Stop Bytes :=
  match value with
  | .ok data => .ok data
  | .error stop =>
    if stop.isException then .error (.raised ⟨.other, text "result not picklable: " ++ stop.str⟩)
    else .error stop

def userCode {σ : Type} (env : Env) (functionBytes argsBytes : Bytes)
    (write : Text → Bool → Effect Stop σ Unit) (writeFd : Bytes → Effect Stop σ Unit) :
    Effect Stop σ (Except Stop Bytes) := do
  let fn ← .ofExcept (env.loads functionBytes argsBytes)
  fn.call write writeFd

/-- `InprocExecutor._execute_streaming`. The sinks are set for the call alone. -/
def executeStreaming (env : Env) (functionBytes argsBytes : Bytes) :
    Effect Stop State ExecutionResult :=
  .rescue Stop.isException
    (do
      let value ← userCode env functionBytes argsBytes (routerWrite env) fun _ => pure ()
      let resultBytes ← .ofExcept (serializeResult value)
      pure
        { success := true
          resultBytes
          coldStartMs := env.clock.called - env.clock.start
          executionMs := env.clock.returned - env.clock.called })
    fun e =>
      pure
        { success := false
          error := env.formatExc e
          coldStartMs := env.clock.failed - env.clock.start }

def structError : Stop :=
  .raised ⟨.other, text "'I' format requires 0 <= number <= 4294967295"⟩

def eofError (got wanted : Nat) : Stop :=
  .raised ⟨.connection, text ("got " ++ toString got ++ "/" ++ toString wanted ++ " bytes")⟩

def keyError (key : String) : Stop := .raised ⟨.other, text ("'" ++ key ++ "'")⟩

def pack (n : Nat) : Except Stop Bytes :=
  if n < 2 ^ 32 then
    .ok [.ofNat (n / 2 ^ 24), .ofNat (n / 2 ^ 16), .ofNat (n / 2 ^ 8), .ofNat n]
  else .error structError

def Fits (payload : Bytes) : Prop := payload.length < 2 ^ 32
  deriving Decidable

def unpack (data : Bytes) : Nat := data.foldl (fun n b => n * 256 + b.toNat) 0

def readExact (n : Nat) (stream : Bytes) : Except Stop (Bytes × Bytes) :=
  if stream.length < n then .error (eofError stream.length n) else .ok (stream.take n, stream.drop n)

def frame (payload : Bytes) : Except Stop Bytes := do
  let head ← pack payload.length
  return head ++ payload

def readFrame (stream : Bytes) : Except Stop (Bytes × Bytes) := do
  let (head, stream) ← readExact 4 stream
  readExact (unpack head) stream

def readRequest (stdin : Bytes) : Except Stop (Bytes × Bytes) := do
  let (fnBytes, rest) ← readFrame stdin
  let (argsBytes, _) ← readFrame rest
  return (fnBytes, argsBytes)

theorem pack_ok {n : Nat} (h : n < 2 ^ 32) :
    ∃ head, pack n = .ok head ∧ head.length = 4 ∧ unpack head = n := by
  refine ⟨_, if_pos h, rfl, ?_⟩
  simp only [unpack, List.foldl_cons, List.foldl_nil, UInt8.toNat_ofNat']
  omega

theorem frame_ok {payload : Bytes} (h : Fits payload) :
    ∃ head, frame payload = .ok (head ++ payload) ∧ head.length = 4 ∧
      unpack head = payload.length := by
  obtain ⟨head, hpack, hlen, hn⟩ := pack_ok h
  exact ⟨head, by simp only [frame, hpack]; rfl, hlen, hn⟩

theorem frame_error {payload : Bytes} (h : ¬ Fits payload) :
    frame payload = .error structError := by
  have hpack : pack payload.length = .error structError := if_neg h
  simp only [frame, hpack]
  rfl

theorem readExact_append (data rest : Bytes) :
    readExact data.length (data ++ rest) = .ok (data, rest) := by
  simp [readExact]

theorem readFrame_append {head payload : Bytes} (hlen : head.length = 4)
    (hn : unpack head = payload.length) (rest : Bytes) :
    readFrame (head ++ payload ++ rest) = .ok (payload, rest) := by
  have hhead := readExact_append head (payload ++ rest)
  have hpayload := readExact_append payload rest
  rw [hlen, ← List.append_assoc] at hhead
  rw [← hn] at hpayload
  simp only [readFrame, hhead]
  exact hpayload

theorem readRequest_append {fnBytes argsBytes : Bytes} (hfn : Fits fnBytes) (hargs : Fits argsBytes) :
    ∃ fnFrame argsFrame, frame fnBytes = .ok fnFrame ∧ frame argsBytes = .ok argsFrame ∧
      readRequest (fnFrame ++ argsFrame) = .ok (fnBytes, argsBytes) := by
  obtain ⟨head, hframe, hlen, hn⟩ := frame_ok hfn
  obtain ⟨head', hframe', hlen', hn'⟩ := frame_ok hargs
  refine ⟨_, _, hframe, hframe', ?_⟩
  have hread := readFrame_append hlen hn (head' ++ argsBytes)
  have hread' := readFrame_append hlen' hn' []
  rw [List.append_nil] at hread'
  simp only [readRequest, hread, hread', bind, Except.bind, pure, Except.pure]

theorem readFrame_nil : readFrame [] = .error (eofError 0 4) := rfl

/-- The subprocess: the captured output and what it wrote to its real stdout. -/
structure Subprocess where
  out : Text := []
  err : Text := []
  stdout : Bytes := []
  deriving DecidableEq, Repr

def stringIO (s : Text) (isStderr : Bool) : Effect Stop Subprocess Unit :=
  .modify fun p => if isStderr then { p with err := p.err ++ s } else { p with out := p.out ++ s }

def writeStdout (data : Bytes) : Effect Stop Subprocess Unit :=
  .modify fun p => { p with stdout := p.stdout ++ data }

section Naive

variable (env : Env)

def writeEnvelope (envelope : Dict) : Effect Stop Subprocess Unit := do
  let data ← .ofExcept (frame (env.pickle.dumps envelope))
  writeStdout data

def okEnvelope (resultBytes : Bytes) (p : Subprocess) : Dict where
  ok := some true
  resultBytes := some resultBytes
  executionMs := some (env.clock.returned - env.clock.called)
  stdout := some p.out
  stderr := some p.err

def writeFailure (e : Stop) : Effect Stop Subprocess Int := do
  let p ← .read id
  writeEnvelope env
    { ok := some false
      error := some (env.formatExc e)
      executionMs := some (env.clock.failed - env.clock.called)
      stdout := some p.out
      stderr := some p.err }
  pure 0

/-- The function is loaded outside `redirect_stdout`. -/
def loadAndCall (fnBytes argsBytes : Bytes) : Effect Stop Subprocess Int := do
  writeStdout (env.loadFd fnBytes argsBytes)
  match env.loads fnBytes argsBytes with
  | .error stop =>
    if stop.isException then do
      writeEnvelope env
        { ok := some false
          error := some (text "deserialize failed:\n" ++ env.formatExc stop)
          executionMs := some 0 }
      pure 0
    else .stop stop
  | .ok fn =>
    .rescue Stop.isException
      (do
        let value ← fn.call stringIO writeStdout
        let resultBytes ← .ofExcept value
        let p ← .read id
        writeEnvelope env (okEnvelope env resultBytes p)
        pure 0)
      (writeFailure env)

def runnerMain (stdin : Bytes) : Effect Stop Subprocess Int :=
  match readRequest stdin with
  | .error _ => pure 2
  | .ok (fnBytes, argsBytes) => loadAndCall env fnBytes argsBytes

/-- What the end of the interpreter adds to its stdout; `os._exit` skips it. -/
def flushed : Except Stop Int → Bytes
  | .error (.exited _) => []
  | _ => env.atExit

def exitOf (r : Except Stop Int × Subprocess) : Int × Bytes :=
  (match r.1 with
    | .ok code => code
    | .error stop => stop.exitCode,
  r.2.stdout ++ flushed env r.1)

def subprocess (stdin : Bytes) : Int × Bytes := exitOf env ((runnerMain env stdin).exec {})

/-- `deserialize_result` gives `None` for no bytes, which has no `get`. -/
def readEnvelope (stdoutData : Bytes) : Except Stop Dict :=
  let payload := (stdoutData.drop 4).take (unpack (stdoutData.take 4))
  if payload = [] then .error (.raised ⟨.other, text "'NoneType' object has no attribute 'get'"⟩)
  else env.pickle.loads payload

def ofEnvelope (envelope : Dict) : Except Stop ExecutionResult := do
  let executionMs := envelope.executionMs.getD 0
  let coldStartMs := max 0 (env.clock.ended - env.clock.start - executionMs)
  if envelope.ok.getD false then
    match envelope.resultBytes with
    | none => .error (keyError "result_bytes")
    | some resultBytes =>
      return { success := true, resultBytes, coldStartMs, executionMs }
  else
    return { success := false, error := envelope.error.getD (text "unknown error")
             coldStartMs, executionMs }

/-- The end of `NaiveSubprocessExecutor.execute`. -/
def subprocessResult (returncode : Int) (stdoutData : Bytes) : Except Stop ExecutionResult :=
  if returncode ≠ 0 ∨ stdoutData.length < 4 then
    .ok
      { success := false
        error := text ("subprocess exit=" ++ toString returncode ++ ": ") ++
          (text env.stderrData).take 500
        coldStartMs := env.clock.ended - env.clock.start
        stderr := text env.stderrData }
  else do
    let envelope ← readEnvelope env stdoutData
    let result ← ofEnvelope env envelope
    return { result with
      stdout := envelope.stdout.getD [], stderr := envelope.stderr.getD [] }

def executeNaive (functionBytes argsBytes : Bytes) : Except Stop ExecutionResult :=
  match env.popen with
  | some str =>
    .ok
      { success := false
        error := text "spawn subprocess: " ++ env.formatExc (.raised ⟨.connection, str⟩)
        coldStartMs := env.clock.failed - env.clock.start }
  | none => do
    let fnFrame ← frame functionBytes
    let argsFrame ← frame argsBytes
    if env.pipesHeld then
      .ok
        { success := false
          error := text "subprocess timed out"
          coldStartMs := env.clock.ended - env.clock.start
          stderr := text env.stderrData }
    else
      let (returncode, stdoutData) := subprocess env (fnFrame ++ argsFrame)
      subprocessResult env returncode stdoutData

end Naive

section Fork

variable (env : Env)

def inherited {σ : Type} (s : Text) (isStderr : Bool) : Effect Stop σ Unit :=
  match env.stdio s isStderr with
  | none => pure ()
  | some e => .stop (.raised e)

def forkEnvelope (resultBytes : Bytes) : Dict where
  ok := some true
  resultBytes := some resultBytes
  executionMs := some (env.clock.returned - env.clock.called)

/-- The inner `try` of `_child_main`; the state is what it has sent on the connection. -/
def childEnvelope (fnBytes argsBytes : Bytes) : Effect Stop Bytes Dict :=
  .rescue Stop.isException
    (do
      let value ← userCode env fnBytes argsBytes (inherited env) fun _ => pure ()
      let resultBytes ← .ofExcept value
      pure (forkEnvelope env resultBytes))
    fun e =>
      pure
        { ok := some false
          error := some (env.formatExc e)
          executionMs := some (env.clock.failed - env.clock.called) }

/-- One turn of `_child_main`. -/
def serve (request : Bytes) : Effect Stop Bytes Unit :=
  .rescue Stop.isException
    (do
      let (data, _) ← .ofExcept (readFrame request)
      let dict ← .ofExcept (env.pickle.loads data)
      match dict.fn, dict.args with
      | none, _ => .stop (keyError "fn")
      | _, none => .stop (keyError "args")
      | some fnBytes, some argsBytes =>
        let envelope ← childEnvelope env fnBytes argsBytes
        let reply ← .ofExcept (frame (env.pickle.dumps envelope))
        .modify (· ++ reply))
    fun _ => pure ()

def converse (serving : Bool) (functionBytes argsBytes : Bytes) : Except Stop ExecutionResult := do
  if serving then
    let request ← frame (env.pickle.dumps { fn := some functionBytes, args := some argsBytes })
    let (response, _) ← readFrame ((serve env request).exec []).2
    let envelope ← env.pickle.loads response
    ofEnvelope env envelope
  else .error (.raised ⟨.connection, env.connectError⟩)

/-- A broken child is killed and the spawner asked for another one. -/
def replace : Effect Stop State Unit :=
  match env.respawn with
  | none => pure ()
  | some pid => .modify fun s => { s with idle := s.idle ++ [(pid, true)] }

def putIdle (slot : Nat × Bool) : Effect Stop State Unit :=
  .modify fun s => { s with idle := s.idle ++ [slot] }

def settle (slot : Nat × Bool) : Except Stop ExecutionResult → Effect Stop State ExecutionResult
  | .ok result => do
    putIdle slot
    pure result
  | .error stop =>
    if stop.kind = some .connection then do
      replace env
      pure
        { success := false
          error := text "warm child connection error: " ++ stop.str
          coldStartMs := env.clock.ended - env.clock.start }
    else if stop.isRaised then do
      putIdle slot
      .stop stop
    else .stop stop

def executeFork (functionBytes argsBytes : Bytes) : Effect Stop State ExecutionResult := do
  let s ← .read id
  if s.started then
    match s.idle with
    | [] =>
      pure
        { success := false
          error := text ("no warm child available within " ++ env.acquireTimeout ++ "s")
          coldStartMs := env.clock.ended - env.clock.start }
    | slot :: rest => do
      Effect.modify fun s => { s with idle := rest }
      settle env slot (converse env slot.2 functionBytes argsBytes)
  else .stop (.raised ⟨.other, text "WarmPool not started"⟩)

end Fork

def execute (env : Env) (strategy : Strategy) (functionBytes argsBytes : Bytes) :
    Effect Stop State ExecutionResult :=
  match strategy with
  | .inproc => executeStreaming env functionBytes argsBytes
  | .naive => .ofExcept (executeNaive env functionBytes argsBytes)
  | .fork => executeFork env functionBytes argsBytes

end Worker

end Minimodal
