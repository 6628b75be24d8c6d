import Minimodal.Worker.Outcome

namespace Minimodal

namespace Sdk

open Worker (Stop Raised Text UserFn text)

/-- A call of user code: what it writes, which may raise, and how it ends. -/
inductive Program (Obj : Type)
  | returns (value : Obj)
  | raises (e : Raised)
  | exits (code : Int)
  | write (s : Text) (isStderr : Bool) (k : Option Stop → Program Obj)
  | writeFd (data : Bytes) (k : Program Obj)

namespace Program

variable {Obj : Type}

def pickled (dumps : Obj → Except Stop Bytes) : Program Obj → UserFn
  | .returns value => .returns (dumps value)
  | .raises e => .raises e
  | .exits code => .exits code
  | .write s isStderr k => .write s isStderr fun r => (k r).pickled dumps
  | .writeFd data k => .writeFd data (k.pickled dumps)

/-- What the caller gets of it in their own process, if none of its writes raises. -/
def outcome : Program Obj → Except Stop Obj
  | .returns value => .ok value
  | .raises e => .error (.raised e)
  | .exits code => .error (.exited code)
  | .write _ _ k => (k none).outcome
  | .writeFd _ k => k.outcome

theorem outcome_pickled {dumps : Obj → Except Stop Bytes} {p : Program Obj} {data : Bytes}
    (h : (p.pickled dumps).outcome = .ok (.ok data)) :
    ∃ value, p.outcome = .ok value ∧ dumps value = .ok data := by
  induction p with
  | returns value => exact ⟨value, rfl, Except.ok.inj h⟩
  | raises e => simp [pickled, UserFn.outcome] at h
  | exits code => simp [pickled, UserFn.outcome] at h
  | write s isStderr k ih => exact ih none h
  | writeFd data' k ih => exact ih h

end Program

/-- The libraries that the two ends share, and what a call does. `call` applies a function to the
pair of `args` and `kwargs`; its first argument is where and when, since a function may look at
the process that it runs in. -/
structure Runtime (Obj : Type) where
  none : Obj
  dumps : Obj → Except Stop Bytes
  loads : Bytes → Except Stop Obj
  call : Nat → Obj → Obj → Program Obj
  -- the length of the message on the wire
  wireSize : JobEvent → Nat

def Runtime.Faithful {Obj : Type} (rt : Runtime Obj) (x : Obj) : Prop :=
  ∀ data, rt.dumps x = .ok data → data ≠ [] ∧ rt.loads data = .ok x

section Serialization

variable {Obj : Type} (rt : Runtime Obj)

def serialize (what : String) (value : Obj) : Except Stop Bytes :=
  match rt.dumps value with
  | .ok data => .ok data
  | .error stop =>
    if stop.isException then .error (.raised ⟨.other, text (what ++ " not picklable: ") ++ stop.str⟩)
    else .error stop

def serializeCallable (fn : Obj) : Except Stop Bytes := serialize rt "function" fn

def serializeArgs (args : Obj) : Except Stop Bytes := serialize rt "args" args

def deserializeResult (payload : Bytes) : Except Stop Obj :=
  if payload.isEmpty then .ok rt.none else rt.loads payload

def loadTask (site : Nat) (functionBytes argsBytes : Bytes) : Except Stop UserFn := do
  let fn ← rt.loads functionBytes
  let args ← rt.loads argsBytes
  return (rt.call site fn args).pickled rt.dumps

variable {rt} {x fn args : Obj} {data functionBytes argsBytes : Bytes}

theorem dumps_of_serialize {what : String} (h : serialize rt what x = .ok data) :
    rt.dumps x = .ok data := by
  unfold serialize at h
  split at h
  · rename_i hd
    rw [hd, Except.ok.inj h]
  · split at h <;> simp at h

theorem deserializeResult_dumps (hx : rt.Faithful x) (h : rt.dumps x = .ok data) :
    deserializeResult rt data = .ok x := by
  obtain ⟨hne, hload⟩ := hx data h
  rw [deserializeResult, if_neg (by simpa using hne), hload]

theorem loadTask_dumps (hfn : rt.Faithful fn) (hargs : rt.Faithful args)
    (hf : rt.dumps fn = .ok functionBytes) (ha : rt.dumps args = .ok argsBytes) (site : Nat) :
    loadTask rt site functionBytes argsBytes = .ok ((rt.call site fn args).pickled rt.dumps) := by
  simp only [loadTask, (hfn _ hf).2, (hargs _ ha).2]
  rfl

end Serialization

structure Func (Obj : Type) where
  fn : Obj
  qualname : String

def Func.request {Obj : Type} (rt : Runtime Obj) (f : Func Obj) (args : Obj)
    (idempotencyKey : String) : Except Stop InvokeFunctionRequest := do
  let functionBytes ← serializeCallable rt f.fn
  let argsBytes ← serializeArgs rt args
  return { functionBytes, argsBytes, functionName := f.qualname, idempotencyKey }

theorem Func.request_ok {Obj : Type} {rt : Runtime Obj} {f : Func Obj} {args : Obj} {key : String}
    {req : InvokeFunctionRequest} (h : f.request rt args key = .ok req) :
    rt.dumps f.fn = .ok req.functionBytes ∧ rt.dumps args = .ok req.argsBytes ∧
      req.idempotencyKey = key := by
  cases hf : serializeCallable rt f.fn with
  | error stop => simp [request, hf, bind, Except.bind] at h
  | ok functionBytes =>
    cases ha : serializeArgs rt args with
    | error stop => simp [request, hf, ha, bind, Except.bind] at h
    | ok argsBytes =>
      simp only [request, hf, ha, bind, Except.bind, pure, Except.pure, Except.ok.injEq] at h
      subst h
      exact ⟨dumps_of_serialize hf, dumps_of_serialize ha, rfl⟩

inductive RpcCode
  | deadlineExceeded
  | unavailable
  | internal
  | resourceExhausted
  | status (st : Status)
  deriving DecidableEq, Repr

inductive Error
  | futureError (message : String)
  | timeoutError (message : String)
  | rpcError (code : RpcCode)
  | python (stop : Stop)
  deriving DecidableEq, Repr

structure Future (Obj : Type) where
  jobID : String
  cachedResult : Obj
  resolved : Bool := false
  logs : List (Bytes × Bool) := []
  coldStartMs : Int := 0
  totalDurationMs : Int := 0
  executionMs : Int := 0
  workerID : String := ""

/-- What comes out of the `WatchJob` stream: an event, with what printing it raises, an error, or
its end. -/
inductive Item
  | event (ev : JobEvent) (print : Option Stop)
  | error (code : RpcCode)
  | ended
  deriving DecidableEq, Repr

namespace Future

variable {Obj : Type} (rt : Runtime Obj) (fut : Future Obj)

def new (jobID : String) : Future Obj where
  jobID := jobID
  cachedResult := rt.none

def onLog (line : LogLine) : Future Obj :=
  { fut with logs := fut.logs ++ [(line.line, line.isStderr)] }

def finish (result : JobResult) : Future Obj × Except Error Obj :=
  let fut := { fut with
    coldStartMs := result.coldStartMs
    totalDurationMs := result.totalDurationMs
    executionMs := max 0 (result.totalDurationMs - result.coldStartMs)
    workerID := result.workerID }
  if result.status = .done then
    match deserializeResult rt result.resultBytes with
    | .ok value => ({ fut with cachedResult := value, resolved := true }, .ok value)
    | .error stop => (fut, .error (.python stop))
  else (fut, .error (.futureError ("job " ++ fut.jobID ++ " failed: " ++ result.error)))

def endedMessage : String := "job " ++ fut.jobID ++ ": watch stream ended without a result"

/-- One round of the loop in `get`; the loop goes on as long as there is no outcome. -/
def receive (timeout : String) (printLogs : Bool) :
    Item → Future Obj × Option (Except Error Obj)
  | .event (.status _ _) _ => (fut, none)
  | .event (.log _ line) print =>
    (fut.onLog line, if printLogs then print.map fun stop => .error (.python stop) else none)
  | .event (.result _ result) _ =>
    let (fut, outcome) := fut.finish rt result
    (fut, some outcome)
  | .error .deadlineExceeded =>
    (fut, some (.error (.timeoutError
      ("job " ++ fut.jobID ++ " did not complete within " ++ timeout ++ "s"))))
  | .error code => (fut, some (.error (.rpcError code)))
  | .ended => (fut, some (.error (.futureError fut.endedMessage)))

variable {rt fut} {fut' : Future Obj} {timeout : String} {printLogs : Bool} {item : Item}

@[simp] theorem finish_jobID (result : JobResult) : (fut.finish rt result).1.jobID = fut.jobID := by
  unfold finish
  simp only
  repeat' split
  all_goals rfl

theorem finish_ok {result : JobResult} {value : Obj}
    (h : (fut.finish rt result).2 = .ok value) :
    result.status = .done ∧ deserializeResult rt result.resultBytes = .ok value := by
  unfold finish at h
  simp only at h
  split at h
  · rename_i hs
    split at h
    · rename_i v hv
      obtain rfl := Except.ok.inj h
      exact ⟨hs, hv⟩
    · simp at h
  · simp at h

@[simp] theorem receive_jobID : (fut.receive rt timeout printLogs item).1.jobID = fut.jobID := by
  unfold receive
  split
  · rfl
  · rfl
  · exact finish_jobID _
  all_goals rfl

theorem jobID_of_receive {r : Option (Except Error Obj)}
    (h : fut.receive rt timeout printLogs item = (fut', r)) : fut'.jobID = fut.jobID :=
  (congrArg (fun p => p.1.jobID) h).symm.trans receive_jobID

theorem receive_ok {value : Obj}
    (h : (fut.receive rt timeout printLogs item).2 = some (.ok value)) :
    ∃ j result print, item = .event (.result j result) print ∧ result.status = .done ∧
      deserializeResult rt result.resultBytes = .ok value := by
  unfold receive at h
  split at h
  · simp at h
  · cases printLogs <;> simp at h
  · exact ⟨_, _, _, rfl, finish_ok (Option.some.inj h)⟩
  all_goals simp at h

theorem receive_none (h : (fut.receive rt timeout printLogs item).2 = none) :
    ∃ ev print, item = .event ev print ∧ ev.isResult = false := by
  unfold receive at h
  split at h
  · exact ⟨_, _, rfl, rfl⟩
  · exact ⟨_, _, rfl, rfl⟩
  all_goals simp at h

theorem receive_resolved {r : Option (Except Error Obj)}
    (h : fut.receive rt timeout printLogs item = (fut', r)) (hres : fut'.resolved = true) :
    fut.resolved = true ∨ r = some (.ok fut'.cachedResult) := by
  unfold receive at h
  split at h
  · obtain ⟨rfl, -⟩ := Prod.mk.inj h
    exact .inl hres
  · obtain ⟨rfl, -⟩ := Prod.mk.inj h
    exact .inl hres
  · unfold finish at h
    simp only at h
    split at h
    · split at h
      all_goals obtain ⟨rfl, rfl⟩ := Prod.mk.inj h
      · exact .inr rfl
      · exact .inl hres
    · obtain ⟨rfl, -⟩ := Prod.mk.inj h
      exact .inl hres
  all_goals
    obtain ⟨rfl, -⟩ := Prod.mk.inj h
    exact .inl hres

theorem receive_event_error {ev : JobEvent} {print : Option Stop} {e : Error}
    (h : (fut.receive rt timeout printLogs (.event ev print)).2 = some (.error e)) :
    (∃ error, e = .futureError ("job " ++ fut.jobID ++ " failed: " ++ error)) ∨
      ∃ stop, e = .python stop := by
  cases ev with
  | status => simp [receive] at h
  | log j line =>
    cases print with
    | none => cases printLogs <;> simp [receive] at h
    | some stop =>
      cases printLogs <;> simp [receive] at h
      exact .inr ⟨stop, h.symm⟩
  | result j result =>
    simp only [receive, finish] at h
    split at h
    · split at h
      · simp at h
      · simp only [Option.some.injEq, Except.error.injEq] at h
        exact .inr ⟨_, h.symm⟩
    · simp only [Option.some.injEq, Except.error.injEq] at h
      exact .inl ⟨_, h.symm⟩

theorem receive_futureError {message : String}
    (h : (fut.receive rt timeout printLogs item).2 = some (.error (.futureError message))) :
    item = .ended ∧ message = fut.endedMessage ∨
      ∃ j result print, item = .event (.result j result) print ∧ result.status ≠ .done ∧
        message = "job " ++ fut.jobID ++ " failed: " ++ result.error := by
  unfold receive at h
  split at h
  · simp at h
  · rename_i print
    cases printLogs <;> cases print <;> simp at h
  · refine .inr ⟨_, _, _, rfl, ?_⟩
    unfold finish at h
    simp only at h
    split at h
    · split at h <;> simp at h
    · rename_i hs
      simp only [Option.some.injEq, Except.error.injEq, Error.futureError.injEq] at h
      exact ⟨hs, h.symm⟩
  · simp at h
  · simp at h
  · simp only [Option.some.injEq, Except.error.injEq, Error.futureError.injEq] at h
    exact .inl ⟨rfl, h.symm⟩

end Future

end Sdk

end Minimodal
