import Minimodal.Lib.Machine
import Minimodal.Server.Memory

namespace Minimodal.Server

abbrev Code (Pc : Type) := Lib.Stmt Op Op.Res Pc

inductive EnqueuePc
  | check
  | send
  deriving DecidableEq, Repr

/-- During shutdown the send is skipped: the job is recovered at the next start. -/
def EnqueuePc.code {Pc : Type} (jobID : String) (at_ : EnqueuePc → Pc) (ret : Pc) :
    EnqueuePc → Code Pc
  | .check => ⟨.loadShuttingDown, fun down => if down then ret else at_ .send⟩
  | .send => ⟨.send jobID, fun _ => ret⟩

@[elab_as_elim]
theorem EnqueuePc.next_ind {Pc : Type} {motive : Pc → Prop} {jobID : String}
    {at_ : EnqueuePc → Pc} {ret : Pc} (hat : ∀ pc, motive (at_ pc)) (hret : motive ret)
    (pc : EnqueuePc) (r : (pc.code jobID at_ ret).op.Res) :
    motive ((pc.code jobID at_ ret).next r) := by
  cases pc with
  | check =>
    simp only [code]
    split
    · exact hret
    · exact hat .send
  | send => exact hret

inductive NotifyPc
  | load
  | finish (rec : JobRecord)
  deriving DecidableEq, Repr

def NotifyPc.code {Pc : Type} (jobID : String) (at_ : NotifyPc → Pc) (ret : Pc) :
    NotifyPc → Code Pc
  | .load => ⟨.getJob jobID, fun
    | .ok (some rec) => if rec.terminal then at_ (.finish rec) else ret
    | _ => ret⟩
  | .finish rec => ⟨.finish jobID (jobResultEvent rec), fun _ => ret⟩

@[elab_as_elim]
theorem NotifyPc.next_ind {Pc : Type} {motive : Pc → Prop} {jobID : String}
    {at_ : NotifyPc → Pc} {ret : Pc} (hat : ∀ pc, motive (at_ pc)) (hret : motive ret)
    (pc : NotifyPc) (r : (pc.code jobID at_ ret).op.Res) :
    motive ((pc.code jobID at_ ret).next r) := by
  cases pc with
  | load =>
    rcases r with e | _ | rec
    · exact hret
    · exact hret
    · simp only [code]
      split
      · exact hat (.finish rec)
      · exact hret
  | finish rec => exact hret

/-- The main goroutine: `RecoverUnfinishedJobs` runs before anything is served. -/
inductive Main
  | down
  | list
  | replay (job : JobRecord) (jobs : List JobRecord)
  | enqueue (jobID : String) (pc : EnqueuePc) (jobs : List JobRecord)
  | serving
  deriving DecidableEq, Repr

def Main.next : List JobRecord → Main
  | [] => .serving
  | job :: jobs => .replay job jobs

def Main.code : Main → Option (Code Main)
  | .list => some ⟨.listUnfinished, fun
    | .error _ => .down
    | .ok jobs => .next jobs⟩
  | .replay job jobs => some ⟨.transition job.id .recover, fun
    | (_, .error _) => .next jobs
    | (_, .ok _) => .enqueue job.id .check jobs⟩
  | .enqueue jobID pc jobs => some (pc.code jobID (.enqueue jobID · jobs) (.next jobs))
  | .down => none
  | .serving => none

structure Attempt where
  jobID : String
  attempt : Nat := 1
  backoffMs : Nat := 100
  stalled : Bool := false
  deriving DecidableEq, Repr

inductive DispatchPc
  | load
  | missingPayload
  | pick (rec : JobRecord) (tried : List String)
  | mark (rec : JobRecord) (tried : List String) (workerID address : String)
  | dial (rec : JobRecord) (tried : List String) (workerID address : String)
  | send (rec : JobRecord) (tried : List String) (workerID conn : String)
  | await (rec : JobRecord) (tried : List String) (workerID : String)
  | drop (rec : JobRecord) (tried : List String) (workerID : String)
  | revert (rec : JobRecord) (tried : List String)
  deriving DecidableEq, Repr

def DispatchPc.code {Pc : Type} (jobID : String) (at_ : DispatchPc → Pc)
    (ret : Except Err Unit → Pc) : DispatchPc → Code Pc
  | .load => ⟨.getJob jobID, fun
    | .error e => ret (.error (.wrapf ("load job " ++ jobID ++ ": " ++ e.error) e))
    | .ok none => ret (.error (.errorf ("job " ++ jobID ++ " not found")))
    | .ok (some rec) =>
      if rec.terminal then ret (.error .errJobAlreadyTerminal)
      else if rec.functionBytes.isEmpty then at_ .missingPayload
      else at_ (.pick rec [])⟩
  | .missingPayload => ⟨.transition jobID .missingPayload, fun _ =>
    ret (.error (.errorf ("job " ++ jobID ++ " has no payload")))⟩
  | .pick rec tried => ⟨.leastLoadedAliveExcluding tried, fun
    | none =>
      ret (.error (if tried.isEmpty then .errNoWorkersAvailable else .errAllWorkersExhausted))
    | some (workerID, w) => at_ (.mark rec (workerID :: tried) workerID w.address)⟩
  | .mark rec tried workerID address => ⟨.transition jobID (.markRunning workerID), fun
    | (_, .error e) =>
      ret (.error (.wrapf ("mark RUNNING for job " ++ jobID ++ ": " ++ e.error) e))
    | (_, .ok false) => ret (.error .errJobAlreadyTerminal)
    | (_, .ok true) => at_ (.dial rec tried workerID address)⟩
  | .dial rec tried workerID address => ⟨.getOrDial workerID address, fun
    | none => at_ (.revert rec tried)
    | some conn => at_ (.send rec tried workerID conn)⟩
  | .send rec tried workerID conn => ⟨.executeTask workerID conn rec.executeTaskRequest, fun sent =>
    if sent then at_ (.await rec tried workerID) else at_ (.drop rec tried workerID)⟩
  | .await rec tried workerID => ⟨.answer workerID jobID, fun
    | .accepted => ret (.ok ())
    | .rejected => at_ (.revert rec tried)
    | .failed => at_ (.drop rec tried workerID)⟩
  | .drop rec tried workerID => ⟨.dropChannel workerID, fun _ => at_ (.revert rec tried)⟩
  | .revert rec tried => ⟨.transition jobID .revert, fun _ => at_ (.pick rec tried)⟩

@[elab_as_elim]
theorem DispatchPc.next_ind {Pc : Type} {motive : Pc → Prop} {jobID : String}
    {at_ : DispatchPc → Pc} {ret : Except Err Unit → Pc} (hat : ∀ pc, motive (at_ pc))
    (hret : ∀ result, motive (ret result)) (pc : DispatchPc)
    (r : (pc.code jobID at_ ret).op.Res) : motive ((pc.code jobID at_ ret).next r) := by
  cases pc with
  | missingPayload => exact hret _
  | drop | revert => exact hat _
  | load =>
    rcases r with e | _ | rec
    · exact hret _
    · exact hret _
    · simp only [code]
      split
      · exact hret _
      · split
        · exact hat _
        · exact hat _
  | pick =>
    cases r with
    | none => exact hret _
    | some => exact hat _
  | mark =>
    rcases r with ⟨captured, e | _ | _⟩
    · exact hret _
    · exact hret _
    · exact hat _
  | dial =>
    cases r with
    | none => exact hat _
    | some => exact hat _
  | send =>
    cases r with
    | false => exact hat _
    | true => exact hat _
  | await =>
    cases r with
    | accepted => exact hret _
    | rejected | failed => exact hat _

/-- `RunPendingQueueLoop` with `attemptDispatch`. -/
inductive Drainer
  | idle
  | dispatch (a : Attempt) (pc : DispatchPc)
  | stall (a : Attempt)
  | backoff (a : Attempt)
  | fail (a : Attempt) (message : String) (exhausted : Bool)
  | notify (a : Attempt) (exhausted : Bool) (pc : NotifyPc)
  | recordFailed (a : Attempt)
  | unstall (a : Attempt)
  | stopped
  deriving DecidableEq, Repr

namespace Drainer

def return_ (a : Attempt) : Drainer := if a.stalled then .unstall a else .idle

@[elab_as_elim]
theorem return_ind {motive : Drainer → Prop} (a : Attempt) (hunstall : motive (.unstall a))
    (hidle : motive .idle) : motive (return_ a) := by
  unfold return_
  split
  · exact hunstall
  · exact hidle

def retry (cfg : Config) (a : Attempt) : Drainer :=
  if a.attempt = cfg.maxAttempts then .fail a (noWorkerMessage cfg.maxAttempts) true
  else .backoff a

@[elab_as_elim]
theorem retry_ind {motive : Drainer → Prop} {cfg : Config} (a : Attempt)
    (hfail : motive (.fail a (noWorkerMessage cfg.maxAttempts) true))
    (hbackoff : motive (.backoff a)) : motive (retry cfg a) := by
  unfold retry
  split
  · exact hfail
  · exact hbackoff

def dispatched (cfg : Config) (a : Attempt) : Except Err Unit → Drainer
  | .ok () => return_ a
  | .error e =>
    if e.is .errJobAlreadyTerminal then return_ a
    else if e.is .errNoWorkersAvailable || e.is .errAllWorkersExhausted then
      if a.stalled then retry cfg a else .stall a
    else .fail a (dispatchFailedMessage e) false

@[elab_as_elim]
theorem dispatched_ind {motive : Drainer → Prop} {cfg : Config} (a : Attempt)
    (r : Except Err Unit) (hreturn : motive (return_ a)) (hretry : motive (retry cfg a))
    (hstall : motive (.stall a)) (hfail : ∀ message, motive (.fail a message false)) :
    motive (dispatched cfg a r) := by
  rcases r with e | _
  · simp only [dispatched]
    split
    · exact hreturn
    · split
      · split
        · exact hretry
        · exact hstall
      · exact hfail _
  · exact hreturn

def code (cfg : Config) : Drainer → Option (Code Drainer)
  | .idle => some ⟨.receive, fun
    | none => .stopped
    | some jobID => .dispatch { jobID } .load⟩
  | .dispatch a pc => some (pc.code a.jobID (.dispatch a) (dispatched cfg a))
  | .stall a => some ⟨.addStalled 1, fun _ => retry cfg { a with stalled := true }⟩
  | .backoff a => some ⟨.wait, fun stop =>
    if stop then return_ a
    else
      .dispatch { a with
        attempt := a.attempt + 1
        backoffMs := if a.backoffMs < 2000 then a.backoffMs * 2 else a.backoffMs } .load⟩
  | .fail a message exhausted => some ⟨.transition a.jobID (.dispatchFailed message), fun _ =>
    .notify a exhausted .load⟩
  | .notify a exhausted pc => some (pc.code a.jobID (.notify a exhausted)
    (if exhausted then .recordFailed a else return_ a))
  | .recordFailed a => some ⟨.recordFailed, fun _ => return_ a⟩
  | .unstall _ => some ⟨.addStalled (-1), fun _ => .idle⟩
  | .stopped => none

end Drainer

/-- `RunFaultDetector` with `ReassignJobsOf`; `dead` are the workers of the last sweep
that are still to be handed to the reaper. -/
inductive Detector
  | owed (dead : List String)
  | reassign (workerID : String) (job : JobRecord) (jobs : List JobRecord) (dead : List String)
  | enqueue (workerID jobID : String) (pc : EnqueuePc) (jobs : List JobRecord) (dead : List String)
  | notify (workerID jobID : String) (pc : NotifyPc) (jobs : List JobRecord) (dead : List String)
  | stopped
  deriving DecidableEq, Repr

namespace Detector

def next (workerID : String) (jobs : List JobRecord) (dead : List String) : Detector :=
  match jobs with
  | [] => .owed dead
  | job :: jobs => .reassign workerID job jobs dead

@[elab_as_elim]
theorem next_ind {motive : Detector → Prop} (workerID : String) (jobs : List JobRecord)
    (dead : List String) (howed : motive (.owed dead))
    (hreassign : ∀ job jobs, motive (.reassign workerID job jobs dead)) :
    motive (next workerID jobs dead) := by
  cases jobs with
  | nil => exact howed
  | cons job jobs => exact hreassign job jobs

def code (cfg : Config) : Detector → Option (Code Detector)
  | .owed [] => some ⟨.tick, fun
    | none => .stopped
    | some dead => .owed dead⟩
  | .owed (workerID :: dead) => some ⟨.listRunningOnWorker workerID, fun
    | .error _ => .owed dead
    | .ok jobs => next workerID jobs dead⟩
  | .reassign workerID job jobs dead => some ⟨.transition job.id (.reap cfg.maxRetries), fun
    | (captured, .ok true) =>
      if captured.markedPending then .enqueue workerID job.id .check jobs dead
      else if captured.markedFailed then .notify workerID job.id .load jobs dead
      else next workerID jobs dead
    | _ => next workerID jobs dead⟩
  | .enqueue workerID jobID pc jobs dead =>
    some (pc.code jobID (.enqueue workerID jobID · jobs dead) (next workerID jobs dead))
  | .notify workerID jobID pc jobs dead =>
    some (pc.code jobID (.notify workerID jobID · jobs dead) (next workerID jobs dead))
  | .stopped => none

end Detector

end Minimodal.Server
