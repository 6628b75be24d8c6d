import Minimodal.Worker.Servicer
import Mathlib.Logic.Encodable.Basic
import Mathlib.Logic.Equiv.List

namespace Minimodal

namespace Worker

open Lib (Effect)

section Task

variable (env : Env) (request : ExecuteTaskRequest)

def inprocCall (s : State) : Except Stop (Except Stop Bytes) × State :=
  (userCode env request.functionBytes request.argsBytes (routerWrite env) fun _ => pure ()).exec
    { s with streamer := {} }

def naiveCall : Except Stop (Except Stop Bytes) × Subprocess :=
  (userCode env request.functionBytes request.argsBytes stringIO writeStdout).exec
    { stdout := env.loadFd request.functionBytes request.argsBytes }

def forkCall : Except Stop (Except Stop Bytes) × Bytes :=
  (userCode env request.functionBytes request.argsBytes (inherited env) fun _ => pure ()).exec []

def spawns : Prop :=
  env.popen = none ∧ Fits request.functionBytes ∧ Fits request.argsBytes

def warm (s : State) : Prop :=
  s.started = true ∧ (∃ pid rest, s.idle = (pid, true) :: rest) ∧
    Fits (env.pickle.dumps { fn := some request.functionBytes, args := some request.argsBytes })

def Returns (s : State) (data : Bytes) : Strategy → Prop
  | .inproc => (inprocCall env request s).1 = .ok (.ok data)
  | .naive => spawns env request ∧ (naiveCall env request).1 = .ok (.ok data)
  | .fork => warm env request s ∧ (forkCall env request).1 = .ok (.ok data)

/-- One call of `ReportTaskResult` for the job, which says whether the function returned a value
that can be serialised, and one decrement of the counter. -/
def Reported (strategy : Strategy) (s : State) : Prop :=
  ∃ req, ((runTask env strategy request).exec s).2.reports = s.reports ++ [req] ∧
    req.jobID = request.jobID ∧ (req.success = true ↔ ∃ data, Returns env request s data strategy) ∧
    ((runTask env strategy request).exec s).2.active = s.active - 1

/-- The code stops in no way that `except Exception` lets pass. -/
def Caught : Except Stop (Except Stop Bytes) → Prop
  | .error stop | .ok (.error stop) => stop.isException = true
  | .ok (.ok _) => True

/-- What the user's code puts on file descriptor 1 of its subprocess in front of the envelope. If
it ends the interpreter, there is no envelope, and what is flushed then stands in its place. -/
def stray : Bytes :=
  match (naiveCall env request).1 with
  | .error stop | .ok (.error stop) =>
    if stop.isException then (naiveCall env request).2.stdout
    else (naiveCall env request).2.stdout ++ flushed env (.error stop)
  | .ok (.ok _) => (naiveCall env request).2.stdout

def ran : Int × Bytes :=
  exitOf env ((loadAndCall env request.functionBytes request.argsBytes).exec {})

/-- The parent takes the first frame on that stdout for a success just if there was one, and can
report it if it makes no sense of it. -/
def Taken (returncode : Int) (stdoutData : Bytes) (success : Prop) : Prop :=
  if returncode ≠ 0 ∨ stdoutData.length < 4 then ¬ success
  else
    match readEnvelope env stdoutData with
    | .error stop => stop.isException = true ∧ stop.str.encodable = true ∧ ¬ success
    | .ok d => (d.ok = some true ∧ d.resultBytes.isSome = true ∧
        (d.stdout.getD []).encodable = true ∧ (d.stderr.getD []).encodable = true) ↔ success

/-- What a task must keep to. In the worker's own process: raise nothing but an `Exception` and
leave no unfinished line that UTF-8 cannot encode. In a subprocess, where it succeeds: no process
that holds the pipes, output that UTF-8 can encode, and an envelope that fits its length field;
if it has put bytes of its own on file descriptor 1, the parent must read the truth in them. In a
warm child: the envelope. -/
def Reportable (s : State) : Strategy → Prop
  | .inproc => Caught (inprocCall env request s).1 ∧
      (inprocCall env request s).2.streamer.flushable = true
  | .naive => spawns env request →
      if env.pipesHeld then ¬ ∃ data, (naiveCall env request).1 = .ok (.ok data)
      else if stray env request = [] then ∀ data, (naiveCall env request).1 = .ok (.ok data) →
        (naiveCall env request).2.out.encodable = true ∧
        (naiveCall env request).2.err.encodable = true ∧
        Fits (env.pickle.dumps (okEnvelope env data (naiveCall env request).2))
      else Taken env (ran env request).1 (ran env request).2
        (∃ data, (naiveCall env request).1 = .ok (.ok data))
  | .fork => ∀ data, Returns env request s data .fork →
      Fits (env.pickle.dumps (forkEnvelope env data))

variable {env request} {s t : State}

theorem reported_iff_verdict {strategy : Strategy} {r : Except Stop ExecutionResult}
    (h : (execute env strategy request.functionBytes request.argsBytes).exec
      { s with streamer := {} } = (r, t)) (hbooks : t.books = s.books) :
    Reported env request strategy s ↔
      ∃ b, verdict t.streamer r = some b ∧ (b = true ↔ ∃ data, Returns env request s data strategy) := by
  have hreports := runTask_reports env h hbooks
  cases hv : verdict t.streamer r with
  | some b =>
    rw [hv] at hreports
    obtain ⟨req, ho, hid, hb⟩ := hreports
    simp only [State.books, Prod.mk.injEq] at ho
    constructor
    · rintro ⟨req', hreq, -, hret, -⟩
      rw [ho.1, List.append_cancel_left_eq, List.cons.injEq] at hreq
      exact ⟨b, rfl, by rw [← hret, ← hreq.1, hb]⟩
    · rintro ⟨b', hb', hret⟩
      cases hb'
      exact ⟨req, ho.1, hid, by rw [hb, hret], ho.2⟩
  | none =>
    rw [hv] at hreports
    constructor
    · rintro ⟨req, hreq, -⟩
      rw [hreports] at hreq
      simp at hreq
    · rintro ⟨b, hb, -⟩
      cases hb

theorem reported_iff_of_silent {strategy : Strategy} {r : Except Stop ExecutionResult}
    (h : (execute env strategy request.functionBytes request.argsBytes).exec
      { s with streamer := {} } = (r, t)) (hbooks : t.books = s.books) (ht : t.streamer = {}) :
    Reported env request strategy s ↔
      ∃ b, verdict {} r = some b ∧ (b = true ↔ ∃ data, Returns env request s data strategy) := by
  rw [reported_iff_verdict h hbooks, ht]

theorem Returns.unique {strategy : Strategy} {data data' : Bytes}
    (h : Returns env request s data strategy) (h' : Returns env request s data' strategy) :
    data = data' := by
  cases strategy with
  | inproc => simpa using h.symm.trans h'
  | naive => simpa using h.2.symm.trans h'.2
  | fork => simpa using h.2.symm.trans h'.2

theorem verdict_true_iff {Q P : Bytes → Prop} {v : Option Bool}
    (hunique : ∀ data data', Q data → Q data' → data = data')
    (hv : ∃ b, v = some b ∧ (b = true ↔ ∃ data, Q data ∧ P data)) :
    (∃ b, v = some b ∧ (b = true ↔ ∃ data, Q data)) ↔ ∀ data, Q data → P data := by
  obtain ⟨b, rfl, hiff⟩ := hv
  constructor
  · rintro ⟨b', hb', hret⟩ data hdata
    cases hb'
    obtain ⟨data', hdata', hP⟩ := hiff.mp (hret.mpr ⟨data, hdata⟩)
    exact hunique _ _ hdata' hdata ▸ hP
  · intro hP
    refine ⟨b, rfl, hiff.trans ⟨?_, ?_⟩⟩
    · rintro ⟨data, hdata, -⟩
      exact ⟨data, hdata⟩
    · rintro ⟨data, hdata⟩
      exact ⟨data, hdata, hP data hdata⟩

theorem verdict_of_not_success {result : ExecutionResult} (h : result.success = false) :
    verdict {} (.ok result) = some false := by
  simp [verdict, h, TaskLogStreamer.flushable, TaskLogStreamer.buf]

theorem verdict_of_error {stop : Stop} (h : stop.isException = true)
    (hstr : stop.str.encodable = true) : verdict {} (.error stop) = some false := by
  simp [verdict, h, hstr, TaskLogStreamer.flushable, TaskLogStreamer.buf]

theorem verdict_of_quiet {result : ExecutionResult} {st : TaskLogStreamer}
    (hout : result.stdout = []) (herr : result.stderr = [])
    (h : result.success = true → result.error = []) :
    verdict st (.ok result) = if st.flushable then some result.success else none := by
  cases hs : result.success with
  | false => simp [verdict, hs]
  | true => simp [verdict, hs, hout, herr, h hs]

theorem inproc_caught (ho : Caught (inprocCall env request s).1) :
    ∃ result, (execute env .inproc request.functionBytes request.argsBytes).exec
        { s with streamer := {} } = (.ok result, (inprocCall env request s).2) ∧
      (result.success = true ↔ ∃ data, Returns env request s data .inproc) ∧
      result.stdout = [] ∧ result.stderr = [] ∧ (result.success = true → result.error = []) := by
  simp only [Returns]
  match h : inprocCall env request s with
  | (.ok (.ok data), t) =>
    refine ⟨_, Effect.exec_rescue_ok (Effect.exec_bind_ok h), ?_⟩
    simp
  | (.ok (.error stop), t) =>
    have hstop : stop.isException = true := by simpa [h, Caught] using ho
    have hser : serializeResult (.error stop) = .error _ := if_pos hstop
    refine ⟨_, Effect.exec_rescue_error ((Effect.exec_bind_ok h).trans
      (Effect.exec_bind_error (congrArg (·, t) hser))) rfl, ?_⟩
    simp
  | (.error stop, t) =>
    have hstop : stop.isException = true := by simpa [h, Caught] using ho
    refine ⟨_, Effect.exec_rescue_error (Effect.exec_bind_error h) hstop, ?_⟩
    simp

theorem inproc_uncaught (ho : ¬ Caught (inprocCall env request s).1) :
    ∃ stop, (execute env .inproc request.functionBytes request.argsBytes).exec
        { s with streamer := {} } = (.error stop, (inprocCall env request s).2) ∧
      stop.isException = false := by
  match h : inprocCall env request s with
  | (.ok (.ok data), t) => simp [h, Caught] at ho
  | (.ok (.error stop), t) =>
    have hstop : stop.isException = false := by simpa [h, Caught] using ho
    have hser : serializeResult (.error stop) = .error stop := if_neg (by simp [hstop])
    exact ⟨stop, Effect.exec_rescue_skip ((Effect.exec_bind_ok h).trans
      (Effect.exec_bind_error (congrArg (·, t) hser))) hstop, hstop⟩
  | (.error stop, t) =>
    have hstop : stop.isException = false := by simpa [h, Caught] using ho
    exact ⟨stop, Effect.exec_rescue_skip (Effect.exec_bind_error h) hstop, hstop⟩

theorem inprocCall_books : (inprocCall env request s).2.books = s.books :=
  Effect.Preserves.bind (.ofExcept _)
    (fun fn => fn.call_preserves (routerWrite_preserves env) fun _ => .pure ()) _

theorem inproc_reported : Reported env request .inproc s ↔ Reportable env request s .inproc := by
  by_cases ho : Caught (inprocCall env request s).1
  · obtain ⟨result, hexec, hsuccess, hout, herr, herror⟩ := inproc_caught ho
    rw [reported_iff_verdict hexec inprocCall_books, verdict_of_quiet hout herr herror]
    cases hflush : (inprocCall env request s).2.streamer.flushable with
    | false => simp [Reportable, hflush]
    | true => simp [Reportable, hflush, ho, hsuccess]
  · obtain ⟨stop, hexec, hstop⟩ := inproc_uncaught ho
    rw [reported_iff_verdict hexec inprocCall_books]
    simp [Reportable, ho, verdict, hstop]

theorem ofEnvelope_ok (env : Env) {d : Dict} {data : Bytes} (hok : d.ok = some true)
    (hdata : d.resultBytes = some data) :
    ∃ result, ofEnvelope env d = .ok result ∧ result.success = true ∧ result.error = [] ∧
      result.stdout = [] ∧ result.stderr = [] := by
  refine ⟨_, by simp only [ofEnvelope, hok, hdata, Option.getD_some, if_true]; rfl, ?_⟩
  simp

theorem ofEnvelope_not_ok (env : Env) {d : Dict} (hok : d.ok = some false) :
    ∃ result, ofEnvelope env d = .ok result ∧ result.success = false := by
  refine ⟨_, by simp only [ofEnvelope, hok, Option.getD_some, Bool.false_eq_true, if_false]; rfl, ?_⟩
  rfl

section Fork

variable (env request)

theorem forkCall_sent : (forkCall env request).2 = [] :=
  Effect.Preserves.bind (f := id) (.ofExcept _) (fun fn => fn.call_preserves
    (fun s isStderr => by
      rw [inherited]
      cases env.stdio s isStderr with
      | none => exact .pure ()
      | some e => exact .stop _) fun _ => .pure ()) _

theorem childEnvelope_exec :
    (∃ data, (forkCall env request).1 = .ok (.ok data) ∧
      (childEnvelope env request.functionBytes request.argsBytes).exec [] =
        (.ok (forkEnvelope env data), [])) ∨
    (¬ ∃ data, (forkCall env request).1 = .ok (.ok data)) ∧
      ∃ r, (childEnvelope env request.functionBytes request.argsBytes).exec [] = (r, []) ∧
        ∀ d, r = .ok d → d.ok = some false := by
  have hsent := forkCall_sent env request
  match h : forkCall env request with
  | (.ok (.ok data), sent) =>
    obtain rfl : sent = [] := by rw [← hsent, h]
    exact .inl ⟨data, rfl, Effect.exec_rescue_ok (Effect.exec_bind_ok h)⟩
  | (.ok (.error stop), sent) =>
    obtain rfl : sent = [] := by rw [← hsent, h]
    refine .inr ⟨by simp, ?_⟩
    cases hstop : stop.isException with
    | true => exact ⟨_, Effect.exec_rescue_error (Effect.exec_bind_ok h) hstop, by simp⟩
    | false => exact ⟨_, Effect.exec_rescue_skip (Effect.exec_bind_ok h) hstop, by simp⟩
  | (.error stop, sent) =>
    obtain rfl : sent = [] := by rw [← hsent, h]
    refine .inr ⟨by simp, ?_⟩
    cases hstop : stop.isException with
    | true => exact ⟨_, Effect.exec_rescue_error (Effect.exec_bind_error h) hstop, by simp⟩
    | false => exact ⟨_, Effect.exec_rescue_skip (Effect.exec_bind_error h) hstop, by simp⟩

variable {env request}

theorem converse_ok {d : Dict}
    (hreq : Fits (env.pickle.dumps
      { fn := some request.functionBytes, args := some request.argsBytes }))
    (hchild : (childEnvelope env request.functionBytes request.argsBytes).exec [] = (.ok d, []))
    (hd : Fits (env.pickle.dumps d)) :
    converse env true request.functionBytes request.argsBytes = ofEnvelope env d := by
  obtain ⟨head, hframe, hlen, hn⟩ := frame_ok hreq
  obtain ⟨head', hframe', hlen', hn'⟩ := frame_ok hd
  have hread := readFrame_append hlen hn []
  have hread' := readFrame_append hlen' hn' []
  rw [List.append_nil] at hread hread'
  have hserve : ((serve env (head ++ env.pickle.dumps
      { fn := some request.functionBytes, args := some request.argsBytes })).exec []).2 =
      head' ++ env.pickle.dumps d := by
    simp [serve, Effect.exec_rescue, Effect.exec_bind, hread, env.pickle.loads_dumps, hchild, hframe']
  simp [converse, hframe, hserve, hread', env.pickle.loads_dumps, bind, Except.bind]

theorem converse_eof {r : Except Stop Dict}
    (hreq : Fits (env.pickle.dumps
      { fn := some request.functionBytes, args := some request.argsBytes }))
    (hchild : (childEnvelope env request.functionBytes request.argsBytes).exec [] = (r, []))
    (hr : ∀ d, r = .ok d → ¬ Fits (env.pickle.dumps d)) :
    converse env true request.functionBytes request.argsBytes = .error (eofError 0 4) := by
  obtain ⟨head, hframe, hlen, hn⟩ := frame_ok hreq
  have hread := readFrame_append hlen hn []
  rw [List.append_nil] at hread
  have hserve : ((serve env (head ++ env.pickle.dumps
      { fn := some request.functionBytes, args := some request.argsBytes })).exec []).2 = [] := by
    cases r with
    | ok d =>
      simp [serve, Effect.exec_rescue, Effect.exec_bind, hread, env.pickle.loads_dumps, hchild,
        frame_error (hr d rfl), structError, Stop.isException, Stop.kind]
    | error stop =>
      cases hstop : stop.isException <;>
        simp [serve, Effect.exec_rescue, Effect.exec_bind, hread, env.pickle.loads_dumps, hchild, hstop]
  simp [converse, hframe, hserve, readFrame_nil, bind, Except.bind]

def State.rest (s : State) : (List ReportTaskResultRequest × Int) × TaskLogStreamer :=
  (s.books, s.streamer)

theorem putIdle_preserves (slot : Nat × Bool) : Effect.Preserves State.rest (putIdle slot) :=
  .modify fun _ => rfl

theorem settle_preserves (slot : Nat × Bool) (r : Except Stop ExecutionResult) :
    Effect.Preserves State.rest (settle env slot r) := by
  cases r with
  | ok result => exact (putIdle_preserves slot).bind fun _ => .pure _
  | error stop =>
    rw [settle]
    split
    · refine .bind ?_ fun _ => .pure _
      rw [replace]
      cases env.respawn with
      | none => exact .pure ()
      | some pid => exact .modify fun _ => rfl
    · split
      · exact (putIdle_preserves slot).bind fun _ => .stop _
      · exact .stop _

theorem executeFork_preserves (env : Env) (functionBytes argsBytes : Bytes) :
    Effect.Preserves State.rest (executeFork env functionBytes argsBytes) := by
  refine .bind (.read _) fun s => ?_
  split
  · cases s.idle with
    | nil => exact .pure _
    | cons slot rest => exact .bind (.modify fun _ => rfl) fun _ => settle_preserves slot _
  · exact .stop _

theorem settle_ok (slot : Nat × Bool) (result : ExecutionResult) (s : State) :
    ((settle env slot (.ok result)).exec s).1 = .ok result := rfl

theorem settle_connection (slot : Nat × Bool) {stop : Stop} (h : stop.kind = some .connection)
    (s : State) : verdict {} ((settle env slot (.error stop)).exec s).1 = some false := by
  have hreplace : ∃ t, (replace env).exec s = (.ok (), t) := by
    rw [replace]
    cases env.respawn with
    | none => exact ⟨_, rfl⟩
    | some pid => exact ⟨_, rfl⟩
  obtain ⟨t, ht⟩ := hreplace
  rw [settle, if_pos h, Effect.exec_bind_ok ht]
  exact verdict_of_not_success rfl

theorem settle_raised (slot : Nat × Bool) {stop : Stop} (h : stop.kind ≠ some .connection)
    (s : State) : ((settle env slot (.error stop)).exec s).1 = .error stop := by
  rw [settle, if_neg h]
  split <;> rfl

theorem executeFork_exec {slot : Nat × Bool} {rest : List (Nat × Bool)} (hs : s.started = true)
    (hidle : s.idle = slot :: rest) :
    (execute env .fork request.functionBytes request.argsBytes).exec { s with streamer := {} } =
      (settle env slot (converse env slot.2 request.functionBytes request.argsBytes)).exec
        { s with streamer := {}, idle := rest } := by
  simp [execute, executeFork, Effect.exec_bind, hs, hidle]

theorem fork_called (hwarm : warm env request s) :
    ∃ b, verdict {} ((execute env .fork request.functionBytes
      request.argsBytes).exec { s with streamer := {} }).1 = some b ∧
    (b = true ↔ ∃ data, (forkCall env request).1 = .ok (.ok data) ∧
      Fits (env.pickle.dumps (forkEnvelope env data))) := by
  obtain ⟨hs, ⟨pid, rest, hidle⟩, hreq⟩ := hwarm
  rw [executeFork_exec hs hidle]
  rcases childEnvelope_exec env request with ⟨data, hcall, hchild⟩ | ⟨hno, r, hchild, hr⟩
  · simp only [hcall, Except.ok.injEq, exists_eq_left']
    by_cases hfit : Fits (env.pickle.dumps (forkEnvelope env data))
    · obtain ⟨result, hresult, hsuccess, herror, hout, herr⟩ :=
        ofEnvelope_ok env (d := forkEnvelope env data) rfl rfl
      rw [converse_ok hreq hchild hfit, hresult, settle_ok,
        verdict_of_quiet hout herr fun _ => herror]
      exact ⟨true, by rw [hsuccess]; rfl, by simp [hfit]⟩
    · have heof := converse_eof hreq hchild fun d hd => by cases hd; exact hfit
      rw [heof]
      exact ⟨false, settle_connection _ rfl _, by simp [hfit]⟩
  · refine ⟨false, ?_, by simpa using fun data hdata => absurd ⟨data, hdata⟩ hno⟩
    by_cases hfit : ∃ d, r = .ok d ∧ Fits (env.pickle.dumps d)
    · obtain ⟨d, rfl, hd⟩ := hfit
      obtain ⟨result, hresult, hsuccess⟩ := ofEnvelope_not_ok env (hr d rfl)
      rw [converse_ok hreq hchild hd, hresult, settle_ok]
      exact verdict_of_not_success hsuccess
    · have heof := converse_eof hreq hchild fun d hd hlen => hfit ⟨d, hd, hlen⟩
      rw [heof]
      exact settle_connection _ rfl _

theorem fork_not_called (hwarm : ¬ warm env request s) :
    verdict {} ((execute env .fork request.functionBytes
      request.argsBytes).exec { s with streamer := {} }).1 = some false := by
  obtain ⟨st, started, idle, reports, active⟩ := s
  match started, idle, hwarm with
  | false, _, _ => exact verdict_of_error rfl (Text.encodable_text _)
  | true, [], _ => exact verdict_of_not_success rfl
  | true, (pid, false) :: rest, _ =>
    rw [executeFork_exec rfl rfl]
    exact settle_connection _ rfl _
  | true, (pid, true) :: rest, hwarm =>
    have hreq : ¬ Fits (env.pickle.dumps
        { fn := some request.functionBytes, args := some request.argsBytes }) :=
      fun hfit => hwarm ⟨rfl, ⟨pid, rest, rfl⟩, hfit⟩
    have hconv : converse env true request.functionBytes request.argsBytes = .error structError := by
      simp [converse, frame_error hreq, bind, Except.bind]
    rw [executeFork_exec rfl rfl, hconv, settle_raised _ (by simp [structError, Stop.kind])]
    exact verdict_of_error rfl (Text.encodable_text _)

theorem fork_reported : Reported env request .fork s ↔ Reportable env request s .fork := by
  have hrest := executeFork_preserves env request.functionBytes request.argsBytes
    { s with streamer := {} }
  refine (reported_iff_of_silent (s := s) (r := ((execute env .fork _ _).exec _).1) rfl
    (congrArg Prod.fst hrest) (congrArg Prod.snd hrest)).trans ?_
  refine verdict_true_iff (fun _ _ hdata hdata' => hdata.unique hdata') ?_
  by_cases hwarm : warm env request s
  · simpa [Returns, hwarm] using fork_called hwarm
  · exact ⟨false, fork_not_called hwarm, by simp [Returns, hwarm]⟩

end Fork

section Naive

def Unsuccessful (env : Env) (code : Int) (tail : Bytes) : Prop :=
  code ≠ 0 ∨ tail = [] ∨ ∃ d data rest, d.ok = some false ∧ Fits (env.pickle.dumps d) ∧
    frame (env.pickle.dumps d) = .ok data ∧ tail = data ++ rest

variable {p : Subprocess}

theorem writeEnvelope_ok {d : Dict} {data : Bytes} (h : frame (env.pickle.dumps d) = .ok data) :
    (writeEnvelope env d).exec p = (.ok (), { p with stdout := p.stdout ++ data }) := by
  simp only [writeEnvelope, h]
  rfl

theorem writeEnvelope_error {d : Dict} (h : ¬ Fits (env.pickle.dumps d)) :
    (writeEnvelope env d).exec p = (.error structError, p) := by
  simp only [writeEnvelope, frame_error h]
  rfl

theorem write_not_ok {d : Dict} (hd : d.ok = some false) (p : Subprocess) :
    ∃ code tail, Unsuccessful env code tail ∧
      exitOf env ((writeEnvelope env d >>= fun _ => pure 0).exec p) = (code, p.stdout ++ tail) := by
  by_cases hfit : Fits (env.pickle.dumps d)
  · obtain ⟨head, hframe, -⟩ := frame_ok hfit
    refine ⟨0, _, .inr (.inr ⟨d, _, env.atExit, hd, hfit, hframe, rfl⟩), ?_⟩
    rw [Effect.exec_bind_ok (writeEnvelope_ok hframe)]
    exact congrArg (Prod.mk 0) (List.append_assoc _ _ _)
  · refine ⟨1, env.atExit, .inl (by decide), ?_⟩
    rw [Effect.exec_bind_error (writeEnvelope_error hfit)]
    rfl

theorem writeFailure_exit (e : Stop) (p : Subprocess) :
    ∃ code tail, Unsuccessful env code tail ∧
      exitOf env ((writeFailure env e).exec p) = (code, p.stdout ++ tail) :=
  write_not_ok rfl p

theorem loadAndCall_exec (env : Env) (fnBytes argsBytes : Bytes) :
    (loadAndCall env fnBytes argsBytes).exec {} =
      (match env.loads fnBytes argsBytes with
        | .error stop =>
          if stop.isException then do
            writeEnvelope env
              { ok := some false
                error := some (text "deserialize failed:\n" ++ env.formatExc stop)
                executionMs := some 0 }
            pure 0
          else .stop stop
        | .ok fn =>
          .rescue Stop.isException
            (do
              let value ← fn.call stringIO writeStdout
              let resultBytes ← .ofExcept value
              let p ← .read id
              writeEnvelope env (okEnvelope env resultBytes p)
              pure 0)
            (writeFailure env) : Effect Stop Subprocess Int).exec
        { stdout := env.loadFd fnBytes argsBytes } := by
  rw [loadAndCall, Effect.exec_bind_ok (show (writeStdout _).exec {} = (.ok (), _) from rfl)]
  rfl

theorem naiveCall_of_error {stop : Stop}
    (hload : env.loads request.functionBytes request.argsBytes = .error stop) :
    naiveCall env request =
      (.error stop, { stdout := env.loadFd request.functionBytes request.argsBytes }) := by
  simp only [naiveCall, userCode, hload]
  rfl

theorem naiveCall_of_ok {fn : UserFn}
    (hload : env.loads request.functionBytes request.argsBytes = .ok fn) :
    naiveCall env request = (fn.call stringIO writeStdout).exec
      { stdout := env.loadFd request.functionBytes request.argsBytes } := by
  simp only [naiveCall, userCode, hload]
  rfl

/-- A stop of the `try` block ends in a failure envelope, or it ends the subprocess. -/
theorem ran_of_stop {fn : UserFn}
    (hload : env.loads request.functionBytes request.argsBytes = .ok fn) (stop : Stop)
    (p : Subprocess)
    (hstop : (fn.call stringIO writeStdout >>= fun value => do
        let resultBytes ← .ofExcept value
        let p ← .read id
        writeEnvelope env (okEnvelope env resultBytes p)
        pure 0 : Effect Stop Subprocess Int).exec
          { stdout := env.loadFd request.functionBytes request.argsBytes } = (.error stop, p)) :
    ∃ code tail, Unsuccessful env code tail ∧ ran env request =
      (code, (if stop.isException then p.stdout
        else p.stdout ++ flushed env (.error stop)) ++ tail) := by
  simp only [ran, loadAndCall_exec, hload]
  cases hexc : stop.isException with
  | true =>
    rw [Effect.exec_rescue_error hstop hexc]
    exact writeFailure_exit stop p
  | false =>
    rw [Effect.exec_rescue_skip hstop hexc]
    exact ⟨stop.exitCode, [], .inr (.inl rfl), by simp [exitOf]⟩

theorem ran_spec (env : Env) (request : ExecuteTaskRequest) :
    (∃ data tail, (naiveCall env request).1 = .ok (.ok data) ∧
      Fits (env.pickle.dumps (okEnvelope env data (naiveCall env request).2)) ∧
      frame (env.pickle.dumps (okEnvelope env data (naiveCall env request).2)) = .ok tail ∧
      ran env request = (0, stray env request ++ (tail ++ env.atExit))) ∨
    (¬ ∃ data, (naiveCall env request).1 = .ok (.ok data) ∧
      Fits (env.pickle.dumps (okEnvelope env data (naiveCall env request).2))) ∧
      ∃ code tail, Unsuccessful env code tail ∧
        ran env request = (code, stray env request ++ tail) := by
  cases hload : env.loads request.functionBytes request.argsBytes with
  | error stop =>
    simp only [ran, stray, loadAndCall_exec, hload, naiveCall_of_error hload]
    refine .inr ⟨by simp, ?_⟩
    cases hstop : stop.isException with
    | true => exact write_not_ok rfl _
    | false => exact ⟨stop.exitCode, [], .inr (.inl rfl), by simp [exitOf]⟩
  | ok fn =>
    have hcall := naiveCall_of_ok hload
    match h : naiveCall env request with
    | (.ok (.ok data), p) =>
      simp only [stray, h]
      rw [hcall] at h
      by_cases hfit : Fits (env.pickle.dumps (okEnvelope env data p))
      · obtain ⟨head, hframe, -⟩ := frame_ok hfit
        refine .inl ⟨data, _, rfl, hfit, hframe, ?_⟩
        simp only [ran, loadAndCall_exec, hload, Effect.exec_rescue, Effect.exec_bind, h,
          Effect.exec_ofExcept, Effect.exec_read, id, writeEnvelope_ok hframe, Effect.exec_pure,
          ← List.append_assoc]
        rfl
      · -- the envelope is written inside the `try` block
        refine .inr ⟨by simpa using hfit, ran_of_stop hload structError p ?_⟩
        simp only [Effect.exec_bind, h, Effect.exec_ofExcept, Effect.exec_read, id,
          writeEnvelope_error hfit]
    | (.ok (.error stop), p) =>
      simp only [stray, h]
      rw [hcall] at h
      refine .inr ⟨by simp, ran_of_stop hload stop p ?_⟩
      simp only [Effect.exec_bind, h, Effect.exec_ofExcept]
    | (.error stop, p) =>
      simp only [stray, h]
      rw [hcall] at h
      exact .inr ⟨by simp, ran_of_stop hload stop p (Effect.exec_bind_error h)⟩

theorem readEnvelope_frame {d : Dict} {data : Bytes} (hfit : Fits (env.pickle.dumps d))
    (hframe : frame (env.pickle.dumps d) = .ok data) (rest : Bytes) :
    readEnvelope env (data ++ rest) = .ok d ∧ 4 ≤ (data ++ rest).length := by
  obtain ⟨head, hframe', hlen, hn⟩ := frame_ok hfit
  rw [hframe, Except.ok.injEq] at hframe'
  subst hframe'
  rw [List.append_assoc]
  constructor
  · simp only [readEnvelope, List.take_left' hlen, List.drop_left' hlen, hn, List.take_left,
      if_neg (env.pickle.dumps_ne_nil d), env.pickle.loads_dumps]
  · simp [hlen]

theorem subprocessResult_ok {data tail : Bytes}
    (hfit : Fits (env.pickle.dumps (okEnvelope env data p)))
    (hframe : frame (env.pickle.dumps (okEnvelope env data p)) = .ok tail) (rest : Bytes) :
    verdict {} (subprocessResult env 0 (tail ++ rest)) =
      some (p.out.encodable && p.err.encodable) := by
  obtain ⟨henv, hlen⟩ := readEnvelope_frame hfit hframe rest
  obtain ⟨result, hresult, hsuccess, herror, -⟩ :=
    ofEnvelope_ok env (d := okEnvelope env data p) rfl rfl
  have hsub : subprocessResult env 0 (tail ++ rest) =
      .ok { result with stdout := p.out, stderr := p.err } := by
    rw [subprocessResult, if_neg (by simpa using hlen), henv]
    simp only [bind, Except.bind, hresult]
    rfl
  rw [hsub]
  simp [verdict, hsuccess, herror, TaskLogStreamer.flushable, TaskLogStreamer.buf]

theorem subprocessResult_unsuccessful {code : Int} {tail : Bytes}
    (h : Unsuccessful env code tail) :
    verdict {} (subprocessResult env code tail) = some false := by
  rw [subprocessResult]
  split
  · exact verdict_of_not_success rfl
  · rename_i hlen
    rcases h with hcode | rfl | ⟨d, data, rest, hok, hfit, hframe, rfl⟩
    · exact absurd (.inl hcode) hlen
    · simp at hlen
    · obtain ⟨result, hresult, hsuccess⟩ := ofEnvelope_not_ok env hok
      rw [(readEnvelope_frame hfit hframe rest).1]
      simp only [bind, Except.bind, hresult]
      exact verdict_of_not_success hsuccess

theorem subprocessResult_taken (env : Env) (code : Int) (stdoutData : Bytes) (success : Prop) :
    (∃ b, verdict {} (subprocessResult env code stdoutData) = some b ∧ (b = true ↔ success)) ↔
      Taken env code stdoutData success := by
  rw [subprocessResult, Taken]
  split
  · rw [verdict_of_not_success rfl]
    simp
  · cases henv : readEnvelope env stdoutData with
    | error stop =>
      simp only [bind, Except.bind, verdict]
      cases stop.isException <;> cases stop.str.encodable <;>
        simp [TaskLogStreamer.flushable, TaskLogStreamer.buf]
    | ok d =>
      cases hok : d.ok.getD false with
      | false =>
        have hne : d.ok ≠ some true := fun h => by simp [h] at hok
        simp [bind, Except.bind, ofEnvelope, hok, hne, verdict, pure, Except.pure,
          TaskLogStreamer.flushable, TaskLogStreamer.buf]
      | true =>
        have heq : d.ok = some true := by cases hd : d.ok <;> simp_all
        cases hdata : d.resultBytes <;>
          simp [bind, Except.bind, ofEnvelope, heq, hdata, verdict, pure, Except.pure, keyError,
            Stop.isException, Stop.kind, Stop.str, TaskLogStreamer.flushable, TaskLogStreamer.buf]

theorem executeNaive_of_spawns (hspawns : spawns env request) :
    executeNaive env request.functionBytes request.argsBytes =
      if env.pipesHeld then
        .ok
          { success := false
            error := text "subprocess timed out"
            coldStartMs := env.clock.ended - env.clock.start
            stderr := text env.stderrData }
      else subprocessResult env (ran env request).1 (ran env request).2 := by
  obtain ⟨hpopen, hfn, hargs⟩ := hspawns
  obtain ⟨fnFrame, argsFrame, hframe, hframe', hread⟩ := readRequest_append hfn hargs
  have hran : subprocess env (fnFrame ++ argsFrame) = ran env request := by
    simp only [subprocess, runnerMain, hread, ran]
  simp only [executeNaive, hpopen, hframe, hframe', bind, Except.bind, hran]

theorem ran_verdict (hstray : stray env request = []) :
    ∃ b, verdict {} (subprocessResult env (ran env request).1 (ran env request).2) = some b ∧
      (b = true ↔ ∃ data, (naiveCall env request).1 = .ok (.ok data) ∧
        (naiveCall env request).2.out.encodable = true ∧
        (naiveCall env request).2.err.encodable = true ∧
        Fits (env.pickle.dumps (okEnvelope env data (naiveCall env request).2))) := by
  rcases ran_spec env request with ⟨data, tail, hcall, hfit, henv, hran⟩ | ⟨hno, code, tail, hun, hran⟩
  · rw [hran, hstray, List.nil_append]
    exact ⟨_, subprocessResult_ok hfit henv _, by simp [hcall, hfit]⟩
  · rw [hran, hstray, List.nil_append]
    refine ⟨false, subprocessResult_unsuccessful hun, ?_⟩
    simpa using fun data hdata _ _ hfit => hno ⟨data, hdata, hfit⟩

theorem executeNaive_of_not_spawns (hspawns : ¬ spawns env request) :
    (∃ result, executeNaive env request.functionBytes request.argsBytes = .ok result ∧
      result.success = false) ∨
    executeNaive env request.functionBytes request.argsBytes = .error structError := by
  cases hpopen : env.popen with
  | some str =>
    simp only [executeNaive, hpopen]
    exact .inl ⟨_, rfl, rfl⟩
  | none =>
    refine .inr ?_
    simp only [executeNaive, hpopen]
    by_cases hfn : Fits request.functionBytes
    · obtain ⟨head, hframe, -⟩ := frame_ok hfn
      have hargs : ¬ Fits request.argsBytes := fun hargs => hspawns ⟨hpopen, hfn, hargs⟩
      simp only [hframe, frame_error hargs, bind, Except.bind]
    · simp only [frame_error hfn, bind, Except.bind]

theorem naive_not_called (hspawns : ¬ spawns env request) :
    verdict {} (executeNaive env request.functionBytes request.argsBytes) = some false := by
  rcases executeNaive_of_not_spawns hspawns with ⟨result, hexec, hsuccess⟩ | hexec
  · rw [hexec]
    exact verdict_of_not_success hsuccess
  · rw [hexec]
    exact verdict_of_error rfl (Text.encodable_text _)

theorem naive_reported : Reported env request .naive s ↔ Reportable env request s .naive := by
  have hiff : Reported env request .naive s ↔ _ :=
    reported_iff_of_silent (r := executeNaive env request.functionBytes request.argsBytes)
      (t := { s with streamer := {} }) rfl rfl rfl
  by_cases hspawns : spawns env request
  · simp only [Reportable, Returns, hspawns, true_and, forall_const] at hiff ⊢
    rw [hiff, executeNaive_of_spawns hspawns]
    split
    · rw [verdict_of_not_success rfl]
      simp
    · split
      · refine verdict_true_iff (fun _ _ hdata hdata' => ?_) (ran_verdict ‹_›)
        simpa using hdata.symm.trans hdata'
      · exact subprocessResult_taken env _ _ _
  · refine iff_of_true (hiff.mpr ⟨false, naive_not_called hspawns, ?_⟩) fun h => absurd h hspawns
    simp [Returns, hspawns]

end Naive

end Task

section Sample

local instance : Encodable CodePoint :=
  .ofLeftInverse (fun | .scalar c => (c.toNat, none) | .surrogate n => (0, some n))
    (fun | (n, none) => .scalar (.ofNat n) | (_, some n) => .surrogate n)
    fun | .scalar c => by simp | .surrogate n => rfl

local instance encodableUInt8 : Encodable UInt8 :=
  .ofLeftInverse UInt8.toNat UInt8.ofNat fun _ => UInt8.ofNat_toNat

local instance : Encodable Dict :=
  .ofLeftInverse
    (fun d => (d.fn, d.args, d.ok, d.resultBytes, d.error, d.executionMs, d.stdout, d.stderr))
    (fun (fn, args, ok, resultBytes, error, executionMs, stdout, stderr) =>
      ⟨fn, args, ok, resultBytes, error, executionMs, stdout, stderr⟩) fun _ => rfl

def samplePickle (short : Dict) : Pickle where
  dumps d := if d = short then [0] else List.replicate (Encodable.encode d + 2) 0
  loads data :=
    if data.length = 1 then .ok short
    else
      match Encodable.decode (data.length - 2) with
      | some d => .ok d
      | none => .error (.raised ⟨.other, text "invalid load key"⟩)
  loads_dumps d := by
    by_cases h : d = short <;> simp [h]
  dumps_ne_nil d := by
    by_cases h : d = short <;> simp [h]

def sampleEnv (fn : UserFn) : Env where
  workerID := "w"
  loads _ _ := .ok fn
  loadFd _ _ := []
  pickle := samplePickle
    { ok := some true, resultBytes := some [7], executionMs := some 1
      stdout := some (text "hi\n"), stderr := some [] }
  formatExc stop := text "Traceback (most recent call last):\n" ++ stop.str
  encodeError _ := "'utf-8' codec can't encode character: surrogates not allowed"
  clock := ⟨0, 1, 2, 2, 3⟩
  time := 5
  stdio _ _ := none
  popen := none
  atExit := []
  pipesHeld := false
  stderrData := ""
  acquireTimeout := "30.0"
  connectError := text "[Errno 111] Connection refused"
  respawn := some 7
  orch _ := none

def sampleRequest : ExecuteTaskRequest where
  jobID := "j"
  functionBytes := [1]
  argsBytes := [2]
  functionName := "f"

def sampleFn : UserFn := .write (text "hi\n") false fun _ => .returns (.ok [7])

end Sample

end Worker

end Minimodal
