import Minimodal.Sdk.Client
import Minimodal.Server.Calls

namespace Minimodal

namespace System

open Sdk (Runtime Func Future Item RpcCode loadTask)
open Worker (Stop Strategy Env)

/-- A worker process; `tasks` are the requests that it has accepted and not finished, and `active`
is the counter that its heartbeats report. -/
structure Process where
  workerID : String
  strategy : Strategy
  tasks : List ExecuteTaskRequest := []
  active : Int := 0

/-- The connection under a call, with the deadline that the client has put on it. It has `failed`
if the handler could not send a message, which ends the call with an error. -/
inductive Link
  | up
  | expired
  | failed
  | broken
  deriving DecidableEq, Repr

/-- A thread of a program that uses the SDK: `spawn` is waiting for its answer, or there is a
future, and `get` may be reading its stream. -/
inductive Client (Obj : Type)
  | idle
  | invoking (req : InvokeFunctionRequest) (call : Nat)
  | holds (req : InvokeFunctionRequest) (fut : Future Obj)
  | getting (req : InvokeFunctionRequest) (fut : Future Obj) (call : Nat) (timeout : String)
      (printLogs : Bool)

/-- The orchestrator, the workers and the callers. `tasks` and `reports` are the calls of
`ExecuteTask` and `ReportTaskResult` on the wire, `next` is the number of the next call to the
orchestrator, and `inbox` is what it has sent on a call and nobody has read. -/
structure State (Obj : Type) where
  server : Server.State := Server.init
  processes : String → Option Process := fun _ => none
  tasks : List (String × ExecuteTaskRequest) := []
  reports : List ReportTaskResultRequest := []
  next : Nat := 0
  link : Nat → Link := fun _ => .up
  inbox : Nat → List Server.Event := fun _ => []
  clients : Nat → Client Obj := fun _ => .idle

inductive Action (Obj : Type)
  | server (a : Server.Action)
  | getJobStatus (jobID : String)
  | streamTaskLogs
  | launch (address workerID : String) (strategy : Strategy)
  | kill (address : String)
  | register (address : String) (capacity : Int) (now : Nat)
  | heartbeat (address : String) (now : Nat)
  | executeTask (i : Nat)
  | dropTask (i : Nat)
  | runTask (address : String) (i site : Nat) (env : Env) (st : Worker.State)
  | cancelTask (address : String) (i : Nat)
  | reportTaskResult (i : Nat)
  | dropReport (i : Nat)
  | spawn (client : Nat) (f : Func Obj) (args : Obj) (key uuid : String) (now : Nat)
  | response (client : Nat)
  | get (client : Nat) (timeout : String) (printLogs : Bool)
  | receive (client : Nat) (print : Option Stop)
  | expire (client : Nat)
  | timeout (client : Nat)
  | eof (client : Nat)
  | fail (client : Nat)
  | cut (call : Nat)

inductive Event (Obj : Type)
  | server (ev : Server.Event)
  | executed (strategy : Strategy) (env : Env) (st : Worker.State) (request : ExecuteTaskRequest)
  | unpicklable (client : Nat) (stop : Stop)
  | called (client call : Nat) (p : Server.Served)
  | spawned (client : Nat) (req : InvokeFunctionRequest) (jobID : String)
  | refused (client : Nat) (code : RpcCode)
  | returned (client : Nat) (req : InvokeFunctionRequest) (jobID : String) (value : Obj)
  | raised (client : Nat) (req : InvokeFunctionRequest) (jobID : String) (e : Sdk.Error)

def sentTask : Server.Event → Option (String × ExecuteTaskRequest)
  | .executeTask _ address req => some (address, req)
  | _ => none

/-- The largest message that a client takes, in bytes: the SDK leaves gRPC's default. -/
def maxReceiveLength : Nat := 4 * 1024 * 1024

def sending : Server.Handler → Bool
  | .sendEvent _ _ _ _ => true
  | _ => false

/-- What the orchestrator does by itself. The context of a call ends with its connection or its
deadline, not before, but `Send` may fail at any time. -/
def State.own {Obj : Type} (s : State Obj) : Server.Action → Bool
  | .call c ch => !ch.stop || s.link c ≠ .up || sending (s.server.calls c)
  | .start | .crash | .beginShutdown | .cancel | .close | .main _ | .drainer _ | .detector _ => true
  | _ => false

def hangsUp : Server.Action → Bool
  | .start | .crash => true
  | _ => false

section Act

variable {Obj : Type} (rt : Runtime Obj) (s : State Obj)

def State.dial : State Obj :=
  { s with
    next := s.next + 1
    link := Function.update s.link s.next .up
    inbox := Function.update s.inbox s.next [] }

def State.setClient (k : Nat) (client : Client Obj) : State Obj :=
  { s with clients := Function.update s.clients k client }

def State.setProcess (address : String) (p : Option Process) : State Obj :=
  { s with processes := Function.update s.processes address p }

def State.setInbox (call : Nat) (rest : List Server.Event) : State Obj :=
  { s with inbox := Function.update s.inbox call rest }

def State.setLink (call : Nat) (link : Link) : State Obj :=
  { s with link := Function.update s.link call link }

/-- The call whose `Send` fails though the connection holds. -/
def State.unsent : Server.Action → Option Nat
  | .call c ch => if ch.stop ∧ s.link c = .up then some c else none
  | _ => none

def State.item (k : Nat) (req : InvokeFunctionRequest) (fut : Future Obj) (call : Nat)
    (timeout : String) (printLogs : Bool) (item : Item) : State Obj × List (Event Obj) :=
  let (fut, outcome) := fut.receive rt timeout printLogs item
  let closed : State Obj := (s.setLink call .broken).setClient k (.holds req fut)
  match outcome with
  | none => (s.setClient k (.getting req fut call timeout printLogs), [])
  | some (.ok value) => (closed, [.returned k req fut.jobID value])
  | some (.error e) => (closed, [.raised k req fut.jobID e])

def taskEnv (p : Process) (site : Nat) (env : Env) : Env :=
  { env with workerID := p.workerID, loads := loadTask rt site }

/-- `_run_task` on a worker thread. A function that ends the interpreter takes the process along. -/
def State.runTask (address : String) (p : Process) (i site : Nat) (request : ExecuteTaskRequest)
    (env : Env) (st : Worker.State) : State Obj × List (Event Obj) :=
  let env := taskEnv rt p site env
  let st : Worker.State := { st with reports := [], active := p.active }
  let (result, st') := (Worker.runTask env p.strategy request).exec st
  let p' : Option Process :=
    match result with
    | .error (.exited _) => none
    | _ => some { p with tasks := p.tasks.eraseIdx i, active := st'.active }
  ({ s with reports := s.reports ++ st'.reports }.setProcess address p',
    [.executed p.strategy env st request])

/-- What the acting party does, and the step of the orchestrator that comes of it. -/
def State.act : Action Obj → Option (State Obj × List (Event Obj) × Option Server.Action)
  | .server a =>
    if s.own a then
      match s.unsent a with
      | some c => some (s.setLink c .failed, [], some a)
      | none => some (s, [], some a)
    else none
  | .getJobStatus jobID => some (s.dial, [], some (.getJobStatus s.next jobID))
  | .streamTaskLogs => some (s.dial, [], some (.streamTaskLogs s.next))
  | .launch address workerID strategy =>
    match s.processes address with
    | some _ => none
    | none => some (s.setProcess address (some { workerID, strategy }), [], none)
  | .kill address => some (s.setProcess address none, [], none)
  | .register address capacity now =>
    (s.processes address).map fun p =>
      (s, [], some (.registerWorker ⟨p.workerID, address, capacity⟩ now))
  | .heartbeat address now =>
    (s.processes address).map fun p => (s, [], some (.heartbeat ⟨p.workerID, p.active⟩ now))
  | .executeTask i => do
    let (address, request) ← s.tasks[i]?
    let p ← s.processes address
    return ({ s with tasks := s.tasks.eraseIdx i }.setProcess address
      (some { p with tasks := p.tasks ++ [request], active := p.active + 1 }), [], none)
  | .dropTask i => some ({ s with tasks := s.tasks.eraseIdx i }, [], none)
  | .runTask address i site env st => do
    let p ← s.processes address
    let request ← p.tasks[i]?
    let (t, es) := s.runTask rt address p i site request env st
    return (t, es, none)
  | .cancelTask address i =>
    (s.processes address).map fun p =>
      (s.setProcess address (some { p with tasks := p.tasks.eraseIdx i }), [], none)
  | .reportTaskResult i =>
    (s.reports[i]?).map fun req =>
      ({ s with reports := s.reports.eraseIdx i }.dial, [], some (.reportTaskResult s.next req))
  | .dropReport i => some ({ s with reports := s.reports.eraseIdx i }, [], none)
  | .spawn k f args key uuid now =>
    match s.clients k with
    | .idle =>
      match f.request rt args key with
      | .error stop => some (s, [.unpicklable k stop], none)
      | .ok req =>
        if s.server.main = .serving then
          some ((s.setClient k (.invoking req s.next)).dial, [.called k s.next (.invoking req)],
            some (.invokeFunction s.next req uuid now))
        else some (s, [.refused k .unavailable], none)
    | _ => none
  | .response k =>
    match s.clients k with
    | .invoking req call =>
      match s.inbox call with
      | .invoked _ _ jobID _ :: rest =>
        some ((s.setInbox call rest).setClient k (.holds req (.new rt jobID)),
          [.spawned k req jobID], none)
      | .refused _ st :: rest =>
        some ((s.setInbox call rest).setClient k .idle, [.refused k (.status st)], none)
      | rest =>
        if s.link call = .broken then
          some ((s.setInbox call rest).setClient k .idle, [.refused k .unavailable], none)
        else none
    | _ => none
  | .get k timeout printLogs =>
    match s.clients k with
    | .holds req fut =>
      if fut.resolved then some (s, [.returned k req fut.jobID fut.cachedResult], none)
      else if s.server.main = .serving then
        some ((s.setClient k (.getting req fut s.next timeout printLogs)).dial,
          [.called k s.next (.watching fut.jobID)], some (.watchJob s.next fut.jobID))
      else some (s, [.raised k req fut.jobID (.rpcError .unavailable)], none)
    | _ => none
  | .receive k print =>
    match s.clients k with
    | .getting req fut call timeout printLogs =>
      match s.inbox call with
      | .watched _ ev :: rest =>
        let (t, es) := (s.setInbox call rest).item rt k req fut call timeout printLogs
          (if rt.wireSize ev ≤ maxReceiveLength then .event ev print else .error .resourceExhausted)
        some (t, es, none)
      | .refused _ st :: rest =>
        let (t, es) := (s.setInbox call rest).item rt k req fut call timeout printLogs
          (.error (.status st))
        some (t, es, none)
      | _ => none
    | _ => none
  | .expire k =>
    match s.clients k with
    | .getting _ _ call _ _ =>
      if s.link call = .up ∨ s.link call = .failed then some (s.setLink call .expired, [], none)
      else none
    | _ => none
  | .timeout k =>
    match s.clients k with
    | .getting req fut call timeout printLogs =>
      let (t, es) := s.item rt k req fut call timeout printLogs (.error .deadlineExceeded)
      if s.link call = .expired then some (t, es, none) else none
    | _ => none
  | .eof k =>
    match s.clients k with
    | .getting req fut call timeout printLogs =>
      let (t, es) := s.item rt k req fut call timeout printLogs .ended
      if (s.link call = .up ∨ s.link call = .expired) ∧ s.server.calls call = .idle ∧
          s.inbox call = [] then
        some (t, es, none)
      else none
    | _ => none
  | .fail k =>
    match s.clients k with
    | .getting req fut call timeout printLogs =>
      match s.link call with
      | .broken =>
        let (t, es) := s.item rt k req fut call timeout printLogs (.error .unavailable)
        some (t, es, none)
      | .failed =>
        let (t, es) := s.item rt k req fut call timeout printLogs (.error .internal)
        if s.server.calls call = .idle ∧ s.inbox call = [] then some (t, es, none) else none
      | _ => none
    | _ => none
  | .cut call => some (s.setLink call .broken, [], none)

end Act

def State.serve {Obj : Type} (cfg : Config) (s : State Obj) (a : Server.Action) :
    Option (State Obj × List (Event Obj)) :=
  (Server.step cfg s.server a).map fun (server, es) =>
    ({ s with
        server
        tasks := s.tasks ++ es.filterMap sentTask
        link := fun c => if hangsUp a && c < s.next then .broken else s.link c
        inbox := fun c => s.inbox c ++ es.filter fun ev => ev.call = some c },
      es.map .server)

def step {Obj : Type} (rt : Runtime Obj) (cfg : Config) (s : State Obj) (a : Action Obj) :
    Option (State Obj × List (Event Obj)) :=
  match s.act rt a with
  | none => none
  | some (t, es, none) => some (t, es)
  | some (t, es, some b) => (t.serve cfg b).map fun (u, fs) => (u, es ++ fs)

def machine {Obj : Type} (rt : Runtime Obj) (cfg : Config) :
    Lib.Machine (State Obj) (Action Obj) (Event Obj) := ⟨step rt cfg⟩

end System

end Minimodal
