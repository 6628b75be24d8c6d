import Minimodal.Worker.Executor

namespace Minimodal

namespace Worker

open Lib (Effect)

structure Report where
  jobID : String
  success : Bool
  resultBytes : Bytes := []
  error : Text := []
  coldStartMs : Int := 0
  executionMs : Int := 0
  tailLines : List LogLine := []

section Task

variable (env : Env)

def inc : Effect Stop State Unit := .modify fun s => { s with active := s.active + 1 }

def dec : Effect Stop State Unit := .modify fun s => { s with active := s.active - 1 }

def tailLines (result : ExecutionResult) : Except Stop (List LogLine) := do
  let out ← result.stdout.splitlines.mapM (env.logLine · false)
  let err ← result.stderr.splitlines.mapM (env.logLine · true)
  return out ++ err

def reportTaskResultRequest (r : Report) : Except Stop ReportTaskResultRequest := do
  let error ← env.string r.error
  return { jobID := r.jobID, workerID := env.workerID, success := r.success
           resultBytes := r.resultBytes, error, coldStartMs := r.coldStartMs
           executionMs := r.executionMs, tailLines := r.tailLines }

/-- `_report`: the request is built first, then sent. -/
def report (r : Report) : Effect Stop State Unit :=
  .rescue (·.kind = some .rpcError)
    (do
      let req ← .ofExcept (reportTaskResultRequest env r)
      Effect.modify fun s => { s with reports := s.reports ++ [req] }
      match env.orch req with
      | none => pure ()
      | some str => .stop (.raised ⟨.rpcError, str⟩))
    fun _ => pure ()

def reportResult (request : ExecuteTaskRequest) (result : ExecutionResult) :
    Effect Stop State Unit := do
  close env
  let tailLines ← .ofExcept (tailLines env result)
  report env
    { jobID := request.jobID
      success := result.success
      resultBytes := result.resultBytes
      error := result.error
      coldStartMs := result.coldStartMs
      executionMs := result.executionMs
      tailLines }

def reportInternalError (request : ExecuteTaskRequest) (e : Stop) : Effect Stop State Unit := do
  close env
  report env
    { jobID := request.jobID
      success := false
      error := text "worker internal error: " ++ e.str }

def tryBlock (strategy : Strategy) (request : ExecuteTaskRequest) : Effect Stop State Unit := do
  let result ← execute env strategy request.functionBytes request.argsBytes
  reportResult env request result

def reportTask (strategy : Strategy) (request : ExecuteTaskRequest) : Effect Stop State Unit :=
  .rescue Stop.isException (tryBlock env strategy request) (reportInternalError env request)

def runTask (strategy : Strategy) (request : ExecuteTaskRequest) : Effect Stop State Unit := do
  updateStreamer fun _ => {}
  Effect.ensure Stop.isRaised (reportTask env strategy request) dec

theorem mapM_logLine_ok (isStderr : Bool) {lines : List Text}
    (h : lines.all Text.encodable = true) : ∃ items, lines.mapM (env.logLine · isStderr) = .ok items := by
  induction lines with
  | nil => exact ⟨[], rfl⟩
  | cons line lines ih =>
    simp only [List.all_cons, Bool.and_eq_true] at h
    obtain ⟨item, hitem⟩ := env.logLine_ok h.1 isStderr
    obtain ⟨items, hitems⟩ := ih h.2
    exact ⟨item :: items, by rw [List.mapM_cons, hitem, hitems]; rfl⟩

theorem mapM_logLine_error (isStderr : Bool) {lines : List Text}
    (h : lines.all Text.encodable = false) :
    ∃ t, lines.mapM (env.logLine · isStderr) = .error (env.unicodeEncodeError t) := by
  induction lines with
  | nil => simp at h
  | cons line lines ih =>
    rw [List.mapM_cons]
    cases hline : line.encodable with
    | false => exact ⟨line, by rw [env.logLine_error hline]; rfl⟩
    | true =>
      obtain ⟨item, hitem⟩ := env.logLine_ok hline isStderr
      obtain ⟨t, ht⟩ := ih (by simpa [hline] using h)
      exact ⟨t, by rw [hitem, ht]; rfl⟩

theorem tailLines_ok {result : ExecutionResult} (hout : result.stdout.encodable = true)
    (herr : result.stderr.encodable = true) : ∃ lines, tailLines env result = .ok lines := by
  obtain ⟨out, ho⟩ := mapM_logLine_ok env false ((Text.splitlines_encodable _).trans hout)
  obtain ⟨err, he⟩ := mapM_logLine_ok env true ((Text.splitlines_encodable _).trans herr)
  exact ⟨out ++ err, by simp only [tailLines, ho, he]; rfl⟩

theorem tailLines_error {result : ExecutionResult}
    (h : (result.stdout.encodable && result.stderr.encodable) = false) :
    ∃ t, tailLines env result = .error (env.unicodeEncodeError t) := by
  cases hout : result.stdout.encodable with
  | false =>
    obtain ⟨t, ht⟩ := mapM_logLine_error env false ((Text.splitlines_encodable _).trans hout)
    exact ⟨t, by simp only [tailLines, ht]; rfl⟩
  | true =>
    have herr : result.stderr.encodable = false := by simpa [hout] using h
    obtain ⟨out, ho⟩ := mapM_logLine_ok env false ((Text.splitlines_encodable _).trans hout)
    obtain ⟨t, ht⟩ := mapM_logLine_error env true ((Text.splitlines_encodable _).trans herr)
    exact ⟨t, by simp only [tailLines, ho, ht]; rfl⟩

theorem report_ok {r : Report} (h : r.error.encodable = true) (s : State) :
    ∃ req, (report env r).exec s = (.ok (), { s with reports := s.reports ++ [req] }) ∧
      req.jobID = r.jobID ∧ req.success = r.success := by
  obtain ⟨error, herror⟩ := env.string_ok h
  obtain ⟨req, hreq, hid, hsuccess⟩ : ∃ req, reportTaskResultRequest env r = .ok req ∧
      req.jobID = r.jobID ∧ req.success = r.success :=
    ⟨_, by simp only [reportTaskResultRequest, herror]; rfl, rfl, rfl⟩
  refine ⟨req, ?_, hid, hsuccess⟩
  simp only [report, Effect.exec_rescue, Effect.exec_bind, Effect.exec_ofExcept, hreq,
    Effect.exec_modify]
  cases env.orch req <;> rfl

theorem report_error {r : Report} (h : r.error.encodable = false) (s : State) :
    (report env r).exec s = (.error (env.unicodeEncodeError r.error), s) := by
  have hreq : reportTaskResultRequest env r = .error (env.unicodeEncodeError r.error) := by
    simp only [reportTaskResultRequest, env.string_error h]
    rfl
  simp [report, Effect.exec_rescue, Effect.exec_bind, hreq, Env.unicodeEncodeError, Stop.kind]

/-- What `_run_task` reports, if anything, for what the executor did. -/
def verdict (st : TaskLogStreamer) : Except Stop ExecutionResult → Option Bool
  | .ok result =>
    if st.flushable then
      some (result.success && result.stdout.encodable && result.stderr.encodable &&
        result.error.encodable)
    else none
  | .error stop => if stop.isException && stop.str.encodable && st.flushable then some false else none

variable {request : ExecuteTaskRequest} {result : ExecutionResult} {e : Stop} {s t : State}

theorem reportResult_ok (request : ExecuteTaskRequest) (hs : s.streamer.flushable = true) (hout : result.stdout.encodable = true)
    (herr : result.stderr.encodable = true) (herror : result.error.encodable = true) :
    ∃ req st, (reportResult env request result).exec s =
      (.ok (), { s with streamer := st, reports := s.reports ++ [req] }) ∧
      req.jobID = request.jobID ∧ req.success = result.success := by
  obtain ⟨st, hclose, -⟩ := close_ok env hs
  obtain ⟨lines, hlines⟩ := tailLines_ok env hout herr
  obtain ⟨req, hreport, hid, hsuccess⟩ := report_ok env (r := ⟨request.jobID, result.success,
    result.resultBytes, result.error, result.coldStartMs, result.executionMs, lines⟩) herror
    { s with streamer := st }
  refine ⟨req, st, ?_, hid, hsuccess⟩
  rw [reportResult, Effect.exec_bind_ok hclose, hlines]
  exact hreport

theorem reportResult_error (request : ExecuteTaskRequest)
    (h : (s.streamer.flushable && (result.stdout.encodable && result.stderr.encodable) &&
      result.error.encodable) = false) :
    ∃ x st, (reportResult env request result).exec s =
      (.error (env.unicodeEncodeError x), { s with streamer := st }) ∧
      st.flushable = s.streamer.flushable := by
  cases hs : s.streamer.flushable with
  | false =>
    obtain ⟨x, st, hclose, hst⟩ := close_error env hs
    exact ⟨x, st, Effect.exec_bind_error hclose, hst⟩
  | true =>
    obtain ⟨st, hclose, hst⟩ := close_ok env hs
    cases htail : result.stdout.encodable && result.stderr.encodable with
    | false =>
      obtain ⟨x, hx⟩ := tailLines_error env htail
      refine ⟨x, st, ?_, hst⟩
      rw [reportResult, Effect.exec_bind_ok hclose, hx]
      rfl
    | true =>
      have herror : result.error.encodable = false := by simpa [hs, htail] using h
      simp only [Bool.and_eq_true] at htail
      obtain ⟨lines, hlines⟩ := tailLines_ok env htail.1 htail.2
      refine ⟨result.error, st, ?_, hst⟩
      rw [reportResult, Effect.exec_bind_ok hclose, hlines]
      exact report_error env herror _

def Reports (request : ExecuteTaskRequest) (s : State) (o : Except Stop Unit × State) :
    Option Bool → Prop
  | some b => ∃ req st, o = (.ok (), { s with streamer := st, reports := s.reports ++ [req] }) ∧
      req.jobID = request.jobID ∧ req.success = b
  | none => o.2.books = s.books

theorem Reports.of_streamer {st : TaskLogStreamer} {o : Except Stop Unit × State} {b : Option Bool}
    (h : Reports request { s with streamer := st } o b) : Reports request s o b := by
  cases b <;> exact h

theorem reportInternalError_reports :
    Reports request s ((reportInternalError env request e).exec s)
      (if e.str.encodable && s.streamer.flushable then some false else none) := by
  cases hs : s.streamer.flushable with
  | false =>
    obtain ⟨x, st, hclose, -⟩ := close_error env hs
    rw [Bool.and_false, if_neg (by simp), reportInternalError, Effect.exec_bind_error hclose]
    exact rfl
  | true =>
    obtain ⟨st, hclose, -⟩ := close_ok env hs
    rw [Bool.and_true, reportInternalError, Effect.exec_bind_ok hclose]
    cases he : e.str.encodable with
    | false =>
      rw [report_error env (by simp [he])]
      exact rfl
    | true =>
      obtain ⟨req, hreport, hid, hsuccess⟩ := report_ok env (r := ⟨request.jobID, false, [],
        text "worker internal error: " ++ e.str, 0, 0, []⟩) (by simp [he]) { s with streamer := st }
      exact ⟨req, st, hreport, hid, hsuccess⟩

theorem reportTask_reports {strategy : Strategy} {r : Except Stop ExecutionResult}
    (h : (execute env strategy request.functionBytes request.argsBytes).exec s = (r, t)) :
    Reports request t ((reportTask env strategy request).exec s) (verdict t.streamer r) := by
  cases r with
  | ok result =>
    have hx := Effect.exec_bind_ok (f := reportResult env request) h
    cases hall : t.streamer.flushable && (result.stdout.encodable && result.stderr.encodable) &&
        result.error.encodable with
    | true =>
      simp only [Bool.and_eq_true] at hall
      obtain ⟨⟨hs, hout, herr⟩, herror⟩ := hall
      obtain ⟨req, st, hreport, hid, hsuccess⟩ :=
        reportResult_ok env request hs hout herr herror
      simp only [verdict, hs, hout, herr, herror, if_true, Bool.and_true]
      exact ⟨req, st, Effect.exec_rescue_ok (hx.trans hreport), hid, hsuccess⟩
    | false =>
      obtain ⟨x, st, hreport, hst⟩ := reportResult_error env request hall
      have hinternal : Reports request { t with streamer := st }
          ((reportInternalError env request (env.unicodeEncodeError x)).exec _) _ :=
        reportInternalError_reports env
      have hx : (reportTask env strategy request).exec s = _ :=
        Effect.exec_rescue_error (hx.trans hreport) rfl
      have hstr : (env.unicodeEncodeError x).str.encodable = true := Text.encodable_text _
      rw [hx]
      rw [hstr, Bool.true_and, hst] at hinternal
      cases hs : t.streamer.flushable with
      | false => simpa [verdict, hs] using hinternal.of_streamer
      | true =>
        have hfalse : (result.success && result.stdout.encodable && result.stderr.encodable &&
            result.error.encodable) = false := by
          rw [hs, Bool.true_and] at hall
          rw [Bool.and_assoc result.success, Bool.and_assoc, hall, Bool.and_false]
        simpa [verdict, hs, hfalse] using hinternal.of_streamer
  | error stop =>
    have hx := Effect.exec_bind_error (f := reportResult env request) h
    cases hexc : stop.isException with
    | false =>
      have hx : (reportTask env strategy request).exec s = _ := Effect.exec_rescue_skip hx hexc
      simp [verdict, hexc, hx, Reports]
    | true =>
      have hx : (reportTask env strategy request).exec s = _ := Effect.exec_rescue_error hx hexc
      rw [hx, verdict, hexc, Bool.true_and]
      exact reportInternalError_reports env

theorem runTask_reports {strategy : Strategy} {r : Except Stop ExecutionResult}
    (h : (execute env strategy request.functionBytes request.argsBytes).exec
      { s with streamer := {} } = (r, t)) (hbooks : t.books = s.books) :
    match verdict t.streamer r with
    | some b => ∃ req, ((runTask env strategy request).exec s).2.books =
        (s.reports ++ [req], s.active - 1) ∧ req.jobID = request.jobID ∧ req.success = b
    | none => ((runTask env strategy request).exec s).2.reports = s.reports := by
  have hreports := reportTask_reports env h
  have hrun : (runTask env strategy request).exec s =
      (Effect.ensure Stop.isRaised (reportTask env strategy request) dec).exec
        { s with streamer := {} } := rfl
  simp only [State.books, Prod.mk.injEq] at hbooks
  cases hv : verdict t.streamer r with
  | some b =>
    rw [hv] at hreports
    obtain ⟨req, st, ho, hid, hsuccess⟩ := hreports
    rw [hrun, Effect.exec_ensure, ho]
    exact ⟨req, by rw [← hbooks.1, ← hbooks.2]; rfl, hid, hsuccess⟩
  | none =>
    rw [hv] at hreports
    have hdec : Effect.Preserves State.reports dec := .modify fun _ => rfl
    exact (hdec.ensure _).trans ((congrArg Prod.fst hreports).trans hbooks.1)

end Task

end Worker

end Minimodal
