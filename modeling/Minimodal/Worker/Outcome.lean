import Minimodal.Worker.Report

namespace Minimodal

namespace Worker

open Lib (Effect)

def UserFn.outcome : UserFn → Except Stop (Except Stop Bytes)
  | .returns value => .ok value
  | .raises e => .error (.raised e)
  | .exits code => .error (.exited code)
  | .write _ _ k => (k none).outcome
  | .writeFd _ k => k.outcome

/-- On its way there the function writes only texts that meet `p` and raw bytes that meet `q`. -/
def UserFn.Writes (p : Text → Prop) (q : Bytes → Prop) : UserFn → Prop
  | .write s _ k => p s ∧ (k none).Writes p q
  | .writeFd data k => q data ∧ k.Writes p q
  | _ => True

theorem UserFn.call_outcome {σ : Type} {I : σ → Prop} {p : Text → Prop} {q : Bytes → Prop}
    (write : Text → Bool → Effect Stop σ Unit) (writeFd : Bytes → Effect Stop σ Unit)
    (hwrite : ∀ s isStderr st, p s → I st → ∃ st', (write s isStderr).exec st = (.ok (), st') ∧ I st')
    (hfd : ∀ data st, q data → I st → ∃ st', (writeFd data).exec st = (.ok (), st') ∧ I st')
    {fn : UserFn} (hfn : fn.Writes p q) (st : σ) (hst : I st) :
    ∃ st', (fn.call write writeFd).exec st = (fn.outcome, st') ∧ I st' := by
  induction fn generalizing st with
  | returns value => exact ⟨st, rfl, hst⟩
  | raises e => exact ⟨st, rfl, hst⟩
  | exits code => exact ⟨st, rfl, hst⟩
  | write s isStderr k ih =>
    obtain ⟨st', hexec, hst'⟩ := hwrite s isStderr st hfn.1 hst
    obtain ⟨st'', hcall, hst''⟩ := ih none hfn.2 _ hst'
    exact ⟨st'', (Effect.exec_bind_ok (Effect.exec_attempt_ok hexec)).trans hcall, hst''⟩
  | writeFd data k ih =>
    obtain ⟨st', hexec, hst'⟩ := hfd data st hfn.1 hst
    obtain ⟨st'', hcall, hst''⟩ := ih hfn.2 _ hst'
    exact ⟨st'', (Effect.exec_bind_ok hexec).trans hcall, hst''⟩

section Success

variable {env : Env} {request : ExecuteTaskRequest} {s t : State} {result : ExecutionResult}

theorem ofEnvelope_success {d : Dict} (h : ofEnvelope env d = .ok result)
    (hs : result.success = true) : d.ok = some true ∧ d.resultBytes = some result.resultBytes := by
  unfold ofEnvelope at h
  simp only at h
  split at h
  · rename_i hok
    split at h
    · simp at h
    · rename_i data hdata
      obtain rfl := Except.ok.inj h
      refine ⟨?_, hdata⟩
      cases hd : d.ok with
      | none => simp [hd] at hok
      | some b => simpa [hd] using hok
  · obtain rfl := Except.ok.inj h
    simp at hs

theorem inproc_success (h : (execute env .inproc request.functionBytes request.argsBytes).exec
    { s with streamer := {} } = (.ok result, t)) (hs : result.success = true) :
    Returns env request s result.resultBytes .inproc := by
  by_cases hc : ∃ data u, inprocCall env request s = (.ok (.ok data), u)
  · obtain ⟨data, u, hcall⟩ := hc
    have hexec : (execute env .inproc request.functionBytes request.argsBytes).exec
        { s with streamer := {} } = _ := Effect.exec_rescue_ok (Effect.exec_bind_ok hcall)
    obtain rfl := Except.ok.inj (congrArg Prod.fst (hexec.symm.trans h))
    simp [Returns, hcall]
  · have hno : ¬ ∃ data, Returns env request s data .inproc := by
      rintro ⟨data, hdata⟩
      exact hc ⟨data, _, Prod.ext hdata rfl⟩
    by_cases ho : Caught (inprocCall env request s).1
    · obtain ⟨result', hexec, hiff, -⟩ := inproc_caught ho
      obtain rfl := Except.ok.inj (congrArg Prod.fst (hexec.symm.trans h))
      exact absurd (hiff.mp hs) hno
    · obtain ⟨stop, hexec, -⟩ := inproc_uncaught ho
      simpa using congrArg Prod.fst (hexec.symm.trans h)

theorem subprocessResult_not_success {code : Int} {tail : Bytes}
    (hun : Unsuccessful env code tail) (h : subprocessResult env code tail = .ok result) :
    result.success = false := by
  rw [subprocessResult] at h
  split at h
  · obtain rfl := Except.ok.inj h
    rfl
  · rename_i hlen
    rcases hun with hcode | rfl | ⟨d, data, rest, hok, hfit, hframe, rfl⟩
    · exact absurd (.inl hcode) hlen
    · simp at hlen
    · obtain ⟨result', hresult, hsuccess⟩ := ofEnvelope_not_ok env hok
      rw [(readEnvelope_frame hfit hframe rest).1] at h
      simp only [bind, Except.bind, hresult, pure, Except.pure, Except.ok.injEq] at h
      subst h
      exact hsuccess

theorem naive_success (h : executeNaive env request.functionBytes request.argsBytes = .ok result)
    (hs : result.success = true) (hstray : stray env request = []) :
    Returns env request s result.resultBytes .naive := by
  by_cases hspawns : spawns env request
  · rw [executeNaive_of_spawns hspawns] at h
    split at h
    · obtain rfl := Except.ok.inj h
      simp at hs
    · rcases ran_spec env request with
        ⟨data, tail, hcall, hfit, henv, hran⟩ | ⟨-, code, tail, hun, hran⟩
      · obtain ⟨hd, hlen⟩ := readEnvelope_frame hfit henv env.atExit
        rw [hran, hstray, List.nil_append, subprocessResult, if_neg (by simpa using hlen), hd] at h
        cases hof : ofEnvelope env (okEnvelope env data (naiveCall env request).2) with
        | error stop => simp [hof, bind, Except.bind] at h
        | ok result' =>
          simp only [hof, bind, Except.bind, pure, Except.pure, Except.ok.injEq] at h
          subst h
          obtain ⟨-, hdata⟩ := ofEnvelope_success hof hs
          have hdata : data = result'.resultBytes := by simpa [okEnvelope] using hdata
          exact ⟨hspawns, by rw [hcall, hdata]⟩
      · rw [hran, hstray, List.nil_append] at h
        exact absurd hs (by simp [subprocessResult_not_success hun h])
  · rcases executeNaive_of_not_spawns hspawns with ⟨result', hexec, hsuccess⟩ | hexec
    · rw [hexec, Except.ok.injEq] at h
      simp [← h, hsuccess] at hs
    · simp [hexec] at h

theorem converse_success (h : converse env true request.functionBytes request.argsBytes = .ok result)
    (hs : result.success = true) :
    Fits (env.pickle.dumps { fn := some request.functionBytes, args := some request.argsBytes }) ∧
      (forkCall env request).1 = .ok (.ok result.resultBytes) := by
  by_cases hreq : Fits (env.pickle.dumps
      { fn := some request.functionBytes, args := some request.argsBytes })
  · refine ⟨hreq, ?_⟩
    rcases childEnvelope_exec env request with ⟨data, hcall, hchild⟩ | ⟨-, r, hchild, hr⟩
    · by_cases hfit : Fits (env.pickle.dumps (forkEnvelope env data))
      · rw [converse_ok hreq hchild hfit] at h
        obtain ⟨-, hdata⟩ := ofEnvelope_success h hs
        have hdata : data = result.resultBytes := by simpa [forkEnvelope] using hdata
        rw [hcall, hdata]
      · rw [converse_eof hreq hchild fun d hd => by cases hd; exact hfit] at h
        simp at h
    · by_cases hfit : ∃ d, r = .ok d ∧ Fits (env.pickle.dumps d)
      · obtain ⟨d, rfl, hd⟩ := hfit
        rw [converse_ok hreq hchild hd] at h
        have hok := (ofEnvelope_success h hs).1
        simp [hr d rfl] at hok
      · rw [converse_eof hreq hchild fun d hd hlen => hfit ⟨d, hd, hlen⟩] at h
        simp at h
  · simp [converse, frame_error hreq, bind, Except.bind] at h

theorem fork_success (h : (execute env .fork request.functionBytes request.argsBytes).exec
    { s with streamer := {} } = (.ok result, t)) (hs : result.success = true) :
    Returns env request s result.resultBytes .fork := by
  obtain ⟨st, started, idle, reports, active⟩ := s
  match started, idle with
  | false, _ => cases congrArg Prod.fst h
  | true, [] =>
    obtain rfl := Except.ok.inj (congrArg Prod.fst h)
    simp at hs
  | true, (pid, serving) :: rest =>
    rw [executeFork_exec rfl rfl] at h
    cases hconv : converse env serving request.functionBytes request.argsBytes with
    | ok result' =>
      rw [hconv] at h
      obtain rfl := Except.ok.inj (congrArg Prod.fst h)
      cases serving with
      | true =>
        obtain ⟨hreq, hcall⟩ := converse_success hconv hs
        exact ⟨⟨rfl, ⟨pid, rest, rfl⟩, hreq⟩, hcall⟩
      | false => simp [converse] at hconv
    | error stop =>
      rw [hconv] at h
      by_cases hk : stop.kind = some .connection
      · rw [settle, if_pos hk, replace] at h
        cases hpid : env.respawn <;>
        · rw [hpid] at h
          obtain rfl := Except.ok.inj (congrArg Prod.fst h)
          simp at hs
      · have hr : ((settle env (pid, serving) (.error stop)).exec _).1 = .error stop :=
          settle_raised (pid, serving) hk
            { streamer := {}, started := true, idle := rest, reports, active }
        rw [h] at hr
        simp at hr

theorem execute_success {strategy : Strategy}
    (h : (execute env strategy request.functionBytes request.argsBytes).exec
      { s with streamer := {} } = (.ok result, t)) (hs : result.success = true) :
    Returns env request s result.resultBytes strategy ∨
      strategy = .naive ∧ stray env request ≠ [] := by
  cases strategy with
  | inproc => exact .inl (inproc_success h hs)
  | naive =>
    by_cases hstray : stray env request = []
    · exact .inl (naive_success (congrArg Prod.fst h) hs hstray)
    · exact .inr ⟨rfl, hstray⟩
  | fork => exact .inl (fork_success h hs)

end Success

section Reports

variable (env : Env) (request : ExecuteTaskRequest)

theorem execute_preserves (strategy : Strategy) (functionBytes argsBytes : Bytes) :
    Effect.Preserves State.reports (execute env strategy functionBytes argsBytes) := by
  have hbooks : Effect.Preserves State.books (execute env strategy functionBytes argsBytes) := by
    cases strategy with
    | inproc =>
      refine .rescue (.bind (.bind (.ofExcept _) fun fn => ?_) fun value => ?_) fun e => .pure _
      · exact fn.call_preserves (routerWrite_preserves env) fun _ => .pure ()
      · exact .bind (.ofExcept _) fun _ => .pure _
    | naive => exact .ofExcept _
    | fork => exact fun s => congrArg Prod.fst (executeFork_preserves env functionBytes argsBytes s)
  exact fun s => congrArg Prod.fst (hbooks s)

theorem flushPartial_preserves (isStderr : Bool) :
    Effect.Preserves State.books (flushPartial env isStderr) := by
  refine .bind (.read _) fun buf => ?_
  split
  · exact .pure ()
  · exact (enqueue_preserves env _ _).bind fun _ => updateStreamer_preserves _

theorem close_preserves : Effect.Preserves State.reports (close env) := by
  have hbooks : Effect.Preserves State.books (close env) :=
    (flushPartial_preserves env false).bind fun _ =>
      (flushPartial_preserves env true).bind fun _ => updateStreamer_preserves _
  exact fun s => congrArg Prod.fst (hbooks s)

theorem report_appends (r : Report) :
    Effect.Appends State.reports (fun req => reportTaskResultRequest env r = .ok req)
      (report env r) := by
  refine .rescue ?_ fun _ => .of_preserves (.pure ())
  intro s
  cases hreq : reportTaskResultRequest env r with
  | error stop => exact ⟨[], by rw [Effect.exec_bind]; simp, by simp⟩
  | ok req =>
    refine ⟨[req], ?_, by simp⟩
    simp only [Effect.exec_bind, Effect.exec_ofExcept, Effect.exec_modify]
    cases env.orch req <;> rfl

variable {env} in
theorem reportTaskResultRequest_ok {r : Report} {req : ReportTaskResultRequest}
    (h : reportTaskResultRequest env r = .ok req) :
    req.jobID = r.jobID ∧ req.workerID = env.workerID ∧ req.success = r.success ∧
      req.resultBytes = r.resultBytes ∧ env.string r.error = .ok req.error := by
  cases hstr : env.string r.error with
  | error stop => simp [reportTaskResultRequest, hstr, bind, Except.bind] at h
  | ok error =>
    simp only [reportTaskResultRequest, hstr, bind, Except.bind, pure, Except.pure,
      Except.ok.injEq] at h
    subst h
    exact ⟨rfl, rfl, rfl, rfl, rfl⟩

/-- Why the task has failed, in the words of its report: the executor says so, or something was
raised on the way. -/
inductive Cause (strategy : Strategy) (s : State) : Text → Prop
  | result {result : ExecutionResult} {t : State} :
      (execute env strategy request.functionBytes request.argsBytes).exec
        { s with streamer := {} } = (.ok result, t) →
      result.success = false → Cause strategy s result.error
  | internal {e : Stop} {t : State} :
      (tryBlock env strategy request).exec { s with streamer := {} } = (.error e, t) →
      e.isException = true → Cause strategy s (text "worker internal error: " ++ e.str)

/-- A report of the task that calls it a success only if the function returned what it says, and
that otherwise gives the cause. -/
structure Honest (strategy : Strategy) (s : State) (req : ReportTaskResultRequest) : Prop where
  jobID : req.jobID = request.jobID
  workerID : req.workerID = env.workerID
  success : req.success = true → Returns env request s req.resultBytes strategy ∨
    strategy = .naive ∧ stray env request ≠ []
  failure : req.success = false →
    ∃ error, Cause env request strategy s error ∧ env.string error = .ok req.error

theorem tryBlock_appends (strategy : Strategy) (s : State) :
    ∃ rs, ((tryBlock env strategy request).exec { s with streamer := {} }).2.reports =
      s.reports ++ rs ∧ ∀ req ∈ rs, Honest env request strategy s req := by
  have hkept := execute_preserves env strategy request.functionBytes request.argsBytes
    { s with streamer := {} }
  match h : (execute env strategy request.functionBytes request.argsBytes).exec
      { s with streamer := {} } with
  | (.ok result, t) =>
    have hresult : Effect.Appends State.reports (Honest env request strategy s)
        (reportResult env request result) := by
      refine .bind (.of_preserves (close_preserves env)) fun _ => ?_
      refine .bind (.of_preserves (.ofExcept _)) fun lines => ?_
      refine (report_appends env _).imp fun req hreq => ?_
      obtain ⟨hid, hworker, hsuccess, hbytes, herror⟩ := reportTaskResultRequest_ok hreq
      refine ⟨hid, hworker, fun hs => ?_, fun hs => ?_⟩
      · rw [hbytes]
        exact execute_success h (hsuccess.symm.trans hs)
      · exact ⟨_, .result h (hsuccess.symm.trans hs), herror⟩
    rw [tryBlock, Effect.exec_bind_ok h, ← show t.reports = s.reports by simpa [h] using hkept]
    exact hresult t
  | (.error e, t) =>
    refine ⟨[], ?_, by simp⟩
    rw [tryBlock, Effect.exec_bind_error h, List.append_nil]
    simpa [h] using hkept

theorem reportTask_appends (strategy : Strategy) (s : State) :
    ∃ rs, ((reportTask env strategy request).exec { s with streamer := {} }).2.reports =
        s.reports ++ rs ∧ ∀ req ∈ rs, Honest env request strategy s req := by
  refine Effect.Appends.exec_rescue (tryBlock_appends env request strategy s) fun e t he hexc => ?_
  refine Effect.Appends.bind (.of_preserves (close_preserves env)) (fun _ => ?_) t
  refine (report_appends env _).imp fun req hreq => ?_
  obtain ⟨hid, hworker, hsuccess, -, herror⟩ := reportTaskResultRequest_ok hreq
  exact ⟨hid, hworker, by simp [hsuccess], fun _ => ⟨_, .internal he hexc, herror⟩⟩

theorem runTask_appends (strategy : Strategy) (s : State) :
    ∃ rs, ((runTask env strategy request).exec s).2.reports = s.reports ++ rs ∧
      ∀ req ∈ rs, Honest env request strategy s req := by
  have hdec : Effect.Preserves State.reports dec := .modify fun _ => rfl
  have hrun : ((runTask env strategy request).exec s).2.reports =
      ((reportTask env strategy request).exec { s with streamer := {} }).2.reports :=
    hdec.ensure { s with streamer := {} }
  rw [hrun]
  exact reportTask_appends env request strategy s

end Reports

section Agreement

variable {env : Env} {request : ExecuteTaskRequest} {s : State} {fn : UserFn}

variable (env) in
theorem emitLines_ok (isStderr : Bool) {line rest : Text} (hline : line.encodable = true)
    (hrest : rest.encodable = true) (s : State) :
    ∃ st, (emitLines env isStderr line rest).exec s = (.ok (), { s with streamer := st }) ∧
      (st.buf isStderr).encodable = true ∧ st.buf (!isStderr) = s.streamer.buf (!isStderr) := by
  induction rest generalizing line s with
  | nil =>
    refine ⟨s.streamer.setBuf isStderr line, rfl, ?_⟩
    cases isStderr <;> exact ⟨hline, rfl⟩
  | cons c rest ih =>
    simp only [Text.encodable_cons, Bool.and_eq_true] at hrest
    rw [emitLines]
    split
    · obtain ⟨queue, hq⟩ := enqueue_ok env hline isStderr
        { s with streamer := s.streamer.setBuf isStderr rest }
      obtain ⟨st, hexec, hbuf, hother⟩ := ih Text.encodable_nil hrest.2
        { s with streamer := { s.streamer.setBuf isStderr rest with queue, thread := true } }
      refine ⟨st, ?_, hbuf, hother.trans ?_⟩
      · have hset : (updateStreamer (·.setBuf isStderr rest)).exec s =
            (.ok (), { s with streamer := s.streamer.setBuf isStderr rest }) := rfl
        rw [Effect.exec_bind_ok hset, Effect.exec_bind_ok hq]
        exact hexec
      · cases isStderr <;> rfl
    · refine ih ?_ hrest.2 s
      simp [hline, hrest.1]

theorem flushable_iff_buf {st : TaskLogStreamer} (isStderr : Bool) :
    st.flushable = true ↔
      (st.buf isStderr).encodable = true ∧ (st.buf (!isStderr)).encodable = true := by
  cases isStderr <;> simp [TaskLogStreamer.flushable, and_comm]

theorem routerWrite_ok (hstdio : ∀ text isStderr, env.stdio text isStderr = none) {text : Text}
    (htext : text.encodable = true) (isStderr : Bool) (hs : s.streamer.flushable = true) :
    ∃ t, (routerWrite env text isStderr).exec s = (.ok (), t) ∧ t.streamer.flushable = true := by
  obtain ⟨hbuf, hother⟩ := (flushable_iff_buf isStderr).mp hs
  obtain ⟨st, hexec, hbuf', hother'⟩ := emitLines_ok env isStderr Text.encodable_nil
    (show (s.streamer.buf isStderr ++ text).encodable = true by simp [hbuf, htext]) s
  refine ⟨{ s with streamer := st }, ?_, (flushable_iff_buf isStderr).mpr ⟨hbuf', ?_⟩⟩
  · have hsink : (sink env text isStderr).exec s = (.ok (), { s with streamer := st }) := hexec
    rw [routerWrite, Effect.exec_bind_ok hsink, hstdio]
    rfl
  · rw [hother']
    exact hother

/-- A function that the workers can run as the caller can: its text is UTF-8, and it leaves file
descriptor 1 alone. -/
def UserFn.Portable (fn : UserFn) : Prop :=
  fn.Writes (fun s => s.encodable = true) fun _ => False

theorem inprocCall_outcome (hload : env.loads request.functionBytes request.argsBytes = .ok fn)
    (hstdio : ∀ text isStderr, env.stdio text isStderr = none) (hfn : fn.Portable) :
    (inprocCall env request s).1 = fn.outcome ∧
      (inprocCall env request s).2.streamer.flushable = true := by
  obtain ⟨t, hcall, ht⟩ := UserFn.call_outcome (I := fun t : State => t.streamer.flushable = true)
    (routerWrite env) (fun _ => pure ())
    (fun text isStderr st htext hst => routerWrite_ok hstdio htext isStderr hst)
    (fun data st hdata hst => hdata.elim) hfn { s with streamer := {} } rfl
  have hcall' : inprocCall env request s = (fn.outcome, t) := by
    rw [inprocCall, userCode, hload]
    exact hcall
  exact hcall' ▸ ⟨rfl, ht⟩

theorem naiveCall_outcome (hload : env.loads request.functionBytes request.argsBytes = .ok fn)
    (hquiet : env.loadFd request.functionBytes request.argsBytes = []) (hfn : fn.Portable) :
    (naiveCall env request).1 = fn.outcome ∧ (naiveCall env request).2.stdout = [] ∧
      (naiveCall env request).2.out.encodable = true ∧
      (naiveCall env request).2.err.encodable = true := by
  obtain ⟨p, hcall, hp⟩ := UserFn.call_outcome
    (I := fun p : Subprocess => p.stdout = [] ∧ p.out.encodable = true ∧ p.err.encodable = true)
    stringIO writeStdout (fun text isStderr p htext hp => by
      refine ⟨_, rfl, ?_⟩
      cases isStderr <;> simpa [htext] using hp)
    (fun data st hdata hst => hdata.elim) hfn {} ⟨rfl, rfl, rfl⟩
  have hcall' : naiveCall env request = (fn.outcome, p) := by
    rw [naiveCall_of_ok hload, hquiet]
    exact hcall
  exact hcall' ▸ ⟨rfl, hp⟩

/-- The worker's part in a task: its streams take every write, and nothing but the runner writes
to file descriptor 1 of a subprocess. -/
structure Env.Plain (env : Env) (request : ExecuteTaskRequest) : Prop where
  stdio : ∀ text isStderr, env.stdio text isStderr = none
  loadFd : env.loadFd request.functionBytes request.argsBytes = []
  atExit : env.atExit = []

theorem Env.Plain.stray_eq_nil (h : env.Plain request)
    (hload : env.loads request.functionBytes request.argsBytes = .ok fn) (hfn : fn.Portable) :
    stray env request = [] := by
  have hraw := (naiveCall_outcome hload h.loadFd hfn).2.1
  have hflushed : ∀ r, flushed env r = [] := by
    intro r
    unfold flushed
    split
    · rfl
    · exact h.atExit
  unfold stray
  repeat' split
  all_goals simp [hraw, hflushed]

theorem forkCall_outcome (hload : env.loads request.functionBytes request.argsBytes = .ok fn)
    (hstdio : ∀ text isStderr, env.stdio text isStderr = none) (hfn : fn.Portable) :
    (forkCall env request).1 = fn.outcome := by
  obtain ⟨sent, hcall, -⟩ := UserFn.call_outcome (I := fun _ : Bytes => True)
    (inherited env) (fun _ => pure ())
    (fun text isStderr st _ _ => ⟨st, by rw [inherited, hstdio]; rfl, trivial⟩)
    (fun data st hdata hst => hdata.elim) hfn [] trivial
  have hcall' : forkCall env request = (fn.outcome, sent) := by
    rw [forkCall, userCode, hload]
    exact hcall
  exact hcall' ▸ rfl

/-- The strategy has what it needs: a subprocess that gets the request, whose stdout is left to
the envelope and whose pipes to it, or a warm child that gets the request; and an envelope that
fits. -/
def Able (env : Env) (request : ExecuteTaskRequest) (fn : UserFn) (s : State) : Strategy → Prop
  | .inproc => True
  | .naive => spawns env request ∧ env.pipesHeld = false ∧
      env.loadFd request.functionBytes request.argsBytes = [] ∧
      ∀ data, fn.outcome = .ok (.ok data) →
        Fits (env.pickle.dumps (okEnvelope env data (naiveCall env request).2))
  | .fork => warm env request s ∧ ∀ data, fn.outcome = .ok (.ok data) →
      Fits (env.pickle.dumps (forkEnvelope env data))

/-- A worker that can run the task: there the bytes stand for `fn`, and its streams work. -/
structure Hosts (env : Env) (request : ExecuteTaskRequest) (fn : UserFn) (s : State)
    (strategy : Strategy) : Prop where
  loads : env.loads request.functionBytes request.argsBytes = .ok fn
  stdio : ∀ text isStderr, env.stdio text isStderr = none
  able : Able env request fn s strategy

namespace Hosts

variable {strategy : Strategy} (h : Hosts env request fn s strategy) (hfn : fn.Portable)

include h hfn

theorem returns_iff (data : Bytes) :
    Returns env request s data strategy ↔ fn.outcome = .ok (.ok data) := by
  cases strategy with
  | inproc => rw [Returns, (inprocCall_outcome h.loads h.stdio hfn).1]
  | naive =>
    obtain ⟨hspawns, -, hquiet, -⟩ := h.able
    rw [Returns, (naiveCall_outcome h.loads hquiet hfn).1, and_iff_right hspawns]
  | fork => rw [Returns, forkCall_outcome h.loads h.stdio hfn, and_iff_right h.able.1]

theorem stray_eq_nil (hcaught : Caught fn.outcome) (hnaive : strategy = .naive) :
    stray env request = [] := by
  subst hnaive
  obtain ⟨ho, hraw, -⟩ := naiveCall_outcome h.loads h.able.2.2.1 hfn
  rw [stray, ho]
  rcases hout : fn.outcome with stop | stop | data
  · rw [hout] at hcaught
    exact (if_pos hcaught).trans hraw
  · rw [hout] at hcaught
    exact (if_pos hcaught).trans hraw
  · exact hraw

theorem reported (hcaught : Caught fn.outcome) : Reported env request strategy s := by
  cases strategy with
  | inproc =>
    obtain ⟨ho, hflush⟩ := inprocCall_outcome (s := s) h.loads h.stdio hfn
    exact inproc_reported.mpr ⟨ho ▸ hcaught, hflush⟩
  | naive =>
    obtain ⟨-, hheld, hquiet, hfits⟩ := h.able
    obtain ⟨ho, -, hout, herr⟩ := naiveCall_outcome h.loads hquiet hfn
    refine naive_reported.mpr fun _ => ?_
    rw [if_neg (by simp [hheld]), if_pos (h.stray_eq_nil hfn hcaught rfl)]
    exact fun data hdata => ⟨hout, herr, hfits data (ho ▸ hdata)⟩
  | fork =>
    refine fork_reported.mpr fun data hdata => h.able.2 data ?_
    exact (forkCall_outcome h.loads h.stdio hfn) ▸ hdata.2

theorem outcome_reported (hcaught : Caught fn.outcome) :
    ∃ req, ((runTask env strategy request).exec s).2.reports = s.reports ++ [req] ∧
      req.jobID = request.jobID ∧ req.workerID = env.workerID ∧
      match fn.outcome with
      | .ok (.ok data) => req.success = true ∧ req.resultBytes = data
      | _ => req.success = false := by
  obtain ⟨req, hreq, hid, hsuccess, -⟩ := h.reported hfn hcaught
  obtain ⟨rs, hrs, hhonest⟩ := runTask_appends env request strategy s
  obtain rfl : [req] = rs := List.append_cancel_left (hreq.symm.trans hrs)
  have hreq' := hhonest req (by simp)
  have hret := h.returns_iff hfn
  refine ⟨req, hreq, hid, hreq'.workerID, ?_⟩
  split
  · rename_i data ho
    have hs : req.success = true := hsuccess.mpr ⟨data, (hret data).mpr ho⟩
    refine ⟨hs, ?_⟩
    -- only stray bytes on stdout can pass for another value
    rcases hreq'.success hs with hdata | ⟨hnaive, hstray⟩
    · simpa [ho] using ((hret _).mp hdata).symm
    · exact absurd (h.stray_eq_nil hfn hcaught hnaive) hstray
  · rename_i hno
    rw [← Bool.not_eq_true, hsuccess]
    rintro ⟨data, hdata⟩
    exact hno data ((hret data).mp hdata)

end Hosts

end Agreement

end Worker

end Minimodal
