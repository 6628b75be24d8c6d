import Minimodal.Server.Handlers

namespace Minimodal.Server

/-- The single-node server. A process that is not running keeps the database file only;
`uuids` are the ids that `uuid.NewString` has ever returned. -/
structure State where
  mem : Mem
  uuids : List String := []
  main : Main := .down
  drainer : Drainer := .idle
  detector : Detector := .owed []
  calls : Nat → Handler := fun _ => .idle

def init : State := { mem := { store := .empty } }

namespace State

def lose (s : State) : State := { mem := { store := s.mem.store }, uuids := s.uuids }

def setCall (s : State) (call : Nat) (h : Handler) : State :=
  { s with calls := Function.update s.calls call h }

end State

inductive Action
  | start
  | crash
  | beginShutdown
  | cancel
  | close
  | main (ch : Choice)
  | drainer (ch : Choice)
  | detector (ch : Choice)
  | call (call : Nat) (ch : Choice)
  | invokeFunction (call : Nat) (req : InvokeFunctionRequest) (uuid : String) (now : Nat)
  | reportTaskResult (call : Nat) (req : ReportTaskResultRequest)
  | getJobStatus (call : Nat) (jobID : String)
  | watchJob (call : Nat) (jobID : String)
  | streamTaskLogs (call : Nat)
  | registerWorker (req : RegisterWorkerRequest) (now : Nat)
  | heartbeat (req : HeartbeatRequest) (now : Nat)

def registerWorker (cfg : Config) (p : WorkerPool) (req : RegisterWorkerRequest) (now : Nat) :
    WorkerPool × Except Status RegisterWorkerResponse :=
  if h : validWorkerID req.workerID = true ∧ req.address ≠ "" then
    let capacity := if req.capacity ≤ 0 then 1 else req.capacity
    (p.register req.workerID req.address capacity now h.1,
      .ok ⟨req.workerID, int32 cfg.heartbeatIntervalMs⟩)
  else (p, .error ⟨.invalidArgument, "worker_id and address required"⟩)

def heartbeat (p : WorkerPool) (req : HeartbeatRequest) (now : Nat) :
    WorkerPool × Except Status HeartbeatResponse :=
  if req.workerID = "" then (p, .error ⟨.invalidArgument, "worker_id required"⟩)
  else
    let (p, known) := p.recordHeartbeat req.workerID req.activeTasks now
    (p, .ok ⟨!known⟩)

def State.accept (s : State) (call : Nat) (h : Handler) : Option (State × List Event) :=
  if s.main = .serving ∧ s.calls call = .idle then some (s.setCall call h, []) else none

def step (cfg : Config) (s : State) : Action → Option (State × List Event)
  | .start => if s.main = .down then some ({ s.lose with main := .list }, []) else none
  | .crash => some (s.lose, [.crashed])
  | .beginShutdown =>
    if s.main = .serving then some ({ s with mem.shuttingDown := true }, []) else none
  | .cancel =>
    if s.mem.shuttingDown then some ({ s with mem.ctxDone := true }, []) else none
  | .close => if s.mem.ctxDone then some ({ s with mem.channels := none }, []) else none
  | .main ch =>
    (Lib.Thread.step (perform cfg) Main.code s.mem s.main ch).map fun (mem, main, es) =>
      ({ s with mem, main }, es)
  | .drainer ch =>
    if s.main = .serving then
      (Lib.Thread.step (perform cfg) (Drainer.code cfg) s.mem s.drainer ch).map
        fun (mem, drainer, es) => ({ s with mem, drainer }, es)
    else none
  | .detector ch =>
    if s.main = .serving then
      (Lib.Thread.step (perform cfg) (Detector.code cfg) s.mem s.detector ch).map
        fun (mem, detector, es) => ({ s with mem, detector }, es)
    else none
  | .call call ch =>
    (Lib.Thread.step (perform cfg) (Handler.code call) s.mem (s.calls call) ch).map
      fun (mem, h, es) => ({ s with mem }.setCall call h, es)
  | .invokeFunction call req uuid now =>
    if uuid ∉ s.uuids ∧ validKey uuid then
      { s with uuids := uuid :: s.uuids }.accept call
        (.invokeFunction cfg req uuid now)
    else none
  | .reportTaskResult call req => s.accept call (.reportTaskResult req)
  | .getJobStatus call jobID => s.accept call (.getJobStatus jobID)
  | .watchJob call jobID => s.accept call (.watchJob jobID)
  | .streamTaskLogs call => s.accept call .recvChunk
  | .registerWorker req now =>
    if s.main = .serving then
      let (pool, result) := Server.registerWorker cfg s.mem.pool req now
      some ({ s with mem.pool := pool }, [.registered result])
    else none
  | .heartbeat req now =>
    if s.main = .serving then
      let (pool, result) := Server.heartbeat s.mem.pool req now
      some ({ s with mem.pool := pool }, [.heartbeat result])
    else none

def machine (cfg : Config) : Lib.Machine State Action Event := ⟨step cfg⟩

end Minimodal.Server
