import Minimodal.Server.Hub
import Minimodal.Server.Results
import Minimodal.Store.Bolt

namespace Minimodal

structure Config where
  workerTimeout : Nat
  heartbeatIntervalMs : Int
  maxRetries : Int
  maxDispatchAttempts : Int
  maxPayloadBytes : Int
  deriving DecidableEq, Repr

/-- `attemptDispatch` falls back to 30 attempts. -/
def Config.maxAttempts (cfg : Config) : Nat :=
  (if cfg.maxDispatchAttempts < 1 then 30 else cfg.maxDispatchAttempts).toNat

structure RegisterWorkerRequest where
  workerID : String
  address : String
  capacity : Int
  deriving DecidableEq, Repr

structure RegisterWorkerResponse where
  workerID : String
  heartbeatIntervalMs : Int
  deriving DecidableEq, Repr

structure HeartbeatRequest where
  workerID : String
  activeTasks : Int
  deriving DecidableEq, Repr

structure HeartbeatResponse where
  shouldDrain : Bool
  deriving DecidableEq, Repr

structure InvokeFunctionRequest where
  functionBytes : Bytes
  argsBytes : Bytes := []
  functionName : String := ""
  idempotencyKey : String := ""
  deriving DecidableEq, Repr

structure ReportTaskResultRequest where
  jobID : String
  workerID : String
  success : Bool
  resultBytes : Bytes := []
  error : String := ""
  coldStartMs : Int := 0
  executionMs : Int := 0
  tailLines : List LogLine := []
  deriving DecidableEq, Repr

structure ExecuteTaskRequest where
  jobID : String
  functionBytes : Bytes
  argsBytes : Bytes
  functionName : String
  deriving DecidableEq, Repr

def JobRecord.executeTaskRequest (rec : JobRecord) : ExecuteTaskRequest where
  jobID := rec.id
  functionBytes := rec.functionBytes
  argsBytes := rec.argsBytes
  functionName := rec.functionName

structure TaskLogChunk where
  jobID : String
  lines : List LogLine
  deriving DecidableEq, Repr

inductive Code
  | invalidArgument
  | notFound
  | failedPrecondition
  | internal
  deriving DecidableEq, Repr

structure Status where
  code : Code
  message : String
  deriving DecidableEq, Repr

def storeErrToStatus (err : Err) (context : String) : Status where
  code := if err.is .errNotLeader then .failedPrecondition else .internal
  message := context ++ ": " ++ err.error

/-- The closures that the server and the scheduler pass to `Transition`. -/
inductive Mutator
  | missingPayload
  | markRunning (workerID : String)
  | revert
  | dispatchFailed (message : String)
  | reap (maxRetries : Int)
  | report (req : ReportTaskResultRequest)
  | recover
  deriving DecidableEq, Repr

/-- The two locals that the reaper's closure sets. -/
structure Captured where
  markedPending : Bool := false
  markedFailed : Bool := false
  deriving DecidableEq, Repr

def unlessTerminal (r r' : JobRecord) : Except Err JobRecord :=
  if r.terminal then .error .errSkipTransition else .ok r'

def reportResult (req : ReportTaskResultRequest) (rec : JobRecord) : JobRecord :=
  { rec with
    status := if req.success then .done else .failed
    error := if req.success then "" else req.error
    functionBytes := []
    argsBytes := []
    resultBytes := req.resultBytes
    coldStartMs := req.coldStartMs
    executionMs := req.executionMs }

namespace Mutator

def run : Mutator → Captured → JobRecord → Captured × Except Err JobRecord
  | .missingPayload, c, r =>
    (c, .ok { r with status := .failed, error := "missing payload (pre-Phase-4 WAL entry)" })
  | .markRunning workerID, c, r => (c, unlessTerminal r { r with status := .running, workerID })
  | .revert, c, r =>
    (c, unlessTerminal r
      { r with status := .pending, workerID := "", retryCount := r.retryCount + 1 })
  | .dispatchFailed message, c, r =>
    (c, unlessTerminal r { r with status := .failed, error := message })
  | .reap maxRetries, c, r =>
    if r.status ≠ .running then (c, .error .errSkipTransition)
    else if r.retryCount + 1 > maxRetries then
      ({ c with markedFailed := true },
        .ok { r with
          retryCount := r.retryCount + 1
          status := .failed
          error := "exceeded max retries after worker death(s)" })
    else
      ({ c with markedPending := true },
        .ok { r with retryCount := r.retryCount + 1, status := .pending, workerID := "" })
  | .report req, c, r => (c, unlessTerminal r (reportResult req r))
  | .recover, c, r =>
    (c, .ok (if r.status = .running then { r with status := .pending, workerID := "" } else r))

inductive Rewrites (c : Captured) (r : JobRecord) : Mutator → Captured → JobRecord → Prop
  | missingPayload : Rewrites c r .missingPayload c
      { r with status := .failed, error := "missing payload (pre-Phase-4 WAL entry)" }
  | markRunning {workerID} : r.terminal = false →
      Rewrites c r (.markRunning workerID) c { r with status := .running, workerID }
  | revert : r.terminal = false → Rewrites c r .revert c
      { r with status := .pending, workerID := "", retryCount := r.retryCount + 1 }
  | dispatchFailed {message} : r.terminal = false →
      Rewrites c r (.dispatchFailed message) c { r with status := .failed, error := message }
  | giveUp {maxRetries} : r.status = .running → maxRetries < r.retryCount + 1 →
      Rewrites c r (.reap maxRetries) { c with markedFailed := true }
        { r with
          retryCount := r.retryCount + 1
          status := .failed
          error := "exceeded max retries after worker death(s)" }
  | requeue {maxRetries} : r.status = .running → r.retryCount + 1 ≤ maxRetries →
      Rewrites c r (.reap maxRetries) { c with markedPending := true }
        { r with retryCount := r.retryCount + 1, status := .pending, workerID := "" }
  | report {req} : r.terminal = false → Rewrites c r (.report req) c (reportResult req r)
  | recover : r.status = .running →
      Rewrites c r .recover c { r with status := .pending, workerID := "" }
  | keep : r.status ≠ .running → Rewrites c r .recover c r

inductive Skips (r : JobRecord) : Mutator → Prop
  | terminal {m} : (∀ k, m ≠ .reap k) → r.terminal = true → Skips r m
  | reap {k} : r.status ≠ .running → Skips r (.reap k)

section Run

variable {m : Mutator} {c c' : Captured} {r r' q : JobRecord} {e : Err}

theorem unlessTerminal_ok (h : unlessTerminal r q = .ok r') : r.terminal = false ∧ r' = q := by
  unfold unlessTerminal at h
  split at h
  · simp at h
  · rename_i ht
    simp only [Except.ok.injEq] at h
    exact ⟨by simpa using ht, h.symm⟩

theorem unlessTerminal_error (h : unlessTerminal r q = .error e) :
    r.terminal = true ∧ e = .errSkipTransition := by
  unfold unlessTerminal at h
  split at h
  · rename_i ht
    simp only [Except.error.injEq] at h
    exact ⟨ht, h.symm⟩
  · simp at h

theorem rewrites_of_run (h : m.run c r = (c', .ok r')) : Rewrites c r m c' r' := by
  cases m with
  | missingPayload =>
    cases h
    exact .missingPayload
  | markRunning | revert | dispatchFailed | report =>
    simp only [run, Prod.mk.injEq] at h
    obtain ⟨ht, rfl⟩ := unlessTerminal_ok h.2
    rw [← h.1]
    constructor
    exact ht
  | reap maxRetries =>
    simp only [run] at h
    split at h
    · simp at h
    · rename_i hrun
      rw [not_not] at hrun
      split at h
      · rename_i hk
        cases h
        exact .giveUp hrun hk
      · rename_i hk
        cases h
        exact .requeue hrun (not_lt.mp hk)
  | recover =>
    simp only [run, Prod.mk.injEq, Except.ok.injEq] at h
    obtain ⟨rfl, rfl⟩ := h
    split
    · exact .recover ‹_›
    · exact .keep ‹_›

theorem skips_of_run (h : m.run c r = (c', .error e)) : Skips r m ∧ e = .errSkipTransition := by
  cases m with
  | missingPayload | recover => simp [run] at h
  | reap maxRetries =>
    simp only [run] at h
    split at h
    · rename_i hrun
      simp only [Prod.mk.injEq, Except.error.injEq] at h
      exact ⟨.reap hrun, h.2.symm⟩
    · split at h <;> simp at h
  | _ =>
    simp only [run, Prod.mk.injEq] at h
    obtain ⟨ht, he⟩ := unlessTerminal_error h.2
    exact ⟨.terminal (by simp) ht, he⟩

end Run

end Mutator

def dispatchFailedMessage (err : Err) : String := "dispatch failed: " ++ err.error

def noWorkerMessage (maxAttempts : Nat) : String :=
  "dispatch failed: no worker accepted after " ++ toString maxAttempts ++ " attempts"

/-- Go's conversions and sums wrap around. -/
def int32 (n : Int) : Int := n.bmod (2 ^ 32)

def int64 (n : Int) : Int := n.bmod (2 ^ 64)

def jobResultEvent (rec : JobRecord) : JobEvent :=
  .result rec.id
    { status := rec.status
      resultBytes := rec.resultBytes
      error := rec.error
      coldStartMs := rec.coldStartMs
      totalDurationMs := int64 (rec.coldStartMs + rec.executionMs)
      retryCount := int32 rec.retryCount
      workerID := rec.workerID }

structure JobStatusResponse where
  jobID : String
  status : JobStatus
  resultBytes : Bytes := []
  error : String
  coldStartMs : Int := 0
  totalDurationMs : Int
  retryCount : Int
  workerID : String
  deriving DecidableEq, Repr

/-- `time.Since(t) / time.Millisecond`, on clock readings in nanoseconds. -/
def sinceMs (now : Nat) (t : Time) : Int := int64 (((now : Int) - t.getD 0).tdiv 1000000)

def statusOfRecord (rec : JobRecord) (now : Nat) : JobStatusResponse where
  jobID := rec.id
  status := rec.status
  error := rec.error
  retryCount := int32 rec.retryCount
  workerID := rec.workerID
  totalDurationMs := sinceMs now rec.createdAt

def jobStatusResponse (rec : JobRecord) (now : Nat) (entry : Option ResultEntry) :
    JobStatusResponse :=
  let resp := statusOfRecord rec now
  match entry with
  | some entry =>
    { resp with
      resultBytes := entry.resultBytes
      coldStartMs := entry.coldStartMs
      error := if entry.errorMsg ≠ "" ∧ resp.error = "" then entry.errorMsg else resp.error
      totalDurationMs := int64 (entry.executionMs + entry.coldStartMs) }
  | none =>
    if rec.resultBytes ≠ [] ∨ rec.coldStartMs > 0 ∨ rec.executionMs > 0 then
      { resp with
        resultBytes := rec.resultBytes
        coldStartMs := rec.coldStartMs
        totalDurationMs := int64 (rec.coldStartMs + rec.executionMs) }
    else resp

end Minimodal
