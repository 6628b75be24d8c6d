import Minimodal.Raft.Store
import Minimodal.Server.Machine

namespace Minimodal.Raft

open Server (Mem Main Drainer Detector Handler Choice)
open RaftStore (maxCASRetries errGaveUp casCommand submitCommand)

/-- What raft decides when a node uses its store: whether a proposal fails, and which
leader it names to a node that is not the leader. -/
structure Net where
  applyFault : Option String := none
  leaderID : String := ""
  leaderAddr : String := ""

def notLeaderErr (net : Net) : Err :=
  .wrapf (Err.errNotLeader.error ++ " (leader: " ++ net.leaderID ++ " at " ++ net.leaderAddr ++ ")")
    .errNotLeader

/-- A goroutine of a node. `attempt` and `captured` are the locals of the `Transition`
it is in; `waiting` is the future of the entry it proposed. -/
inductive Routine (Pc : Type)
  | run (pc : Pc) (attempt : Nat) (captured : Captured)
  | waiting (pc : Pc) (attempt : Nat) (captured : Captured) (index term : Nat)
  deriving DecidableEq

abbrev Routine.at {Pc : Type} (pc : Pc) : Routine Pc := .run pc 0 {}

def Routine.pc {Pc : Type} : Routine Pc → Pc
  | .run pc _ _ => pc
  | .waiting pc _ _ _ _ => pc

/-- One orchestrator in raft mode. `mem.store` is the database that its FSM writes.
`replies` are the FSM's answers to the entries applied so far, each with the term in
which the node led when it applied the entry. -/
structure Node where
  log : List FsmCommand := []
  commit : Nat := 0
  replies : List (FsmResponse × Option Nat) := []
  leading : Bool := false
  term : Nat := 0
  leaderCh : Option Bool := none
  mem : Mem := { store := .empty }
  watcher : Routine Main := .at .serving
  drainer : Routine Drainer := .at .idle
  detector : Routine Detector := .at (.owed [])
  calls : Nat → Routine Handler := fun _ => .at .idle

namespace Node

def applied (n : Node) : Nat := n.replies.length

def propose (n : Node) (net : Net) (cmd : FsmCommand) : Except Err Node :=
  if n.leading then
    match net.applyFault with
    | some msg => .error (.errorf ("raft apply: " ++ msg))
    | none => .ok { n with log := n.log ++ [cmd] }
  else .error (notLeaderErr net)

/-- The future of the entry that the node proposed at `index` in `term`; `none` while it
is pending. -/
def future (n : Node) (net : Net) (index term : Nat) : Option (Except Err FsmResponse) :=
  match net.applyFault, n.replies[index]? with
  | some msg, _ => some (.error (.errorf ("raft apply: " ++ msg)))
  | none, some (resp, some t) =>
    if t = term then
      match resp.err with
      | some e => some (.error e)
      | none => some (.ok resp)
    else some (.error (notLeaderErr net))
  | none, _ => if n.leading ∧ n.term = term then none else some (.error (notLeaderErr net))

end Node

def Routine.step {Pc : Type} (cfg : Config) (code : Pc → Option (Server.Code Pc)) (n : Node) (net : Net)
    (ch : Choice) : Routine Pc → Option (Node × Routine Pc × List Server.Event)
  | .run pc attempt captured =>
    match code pc with
    | none => none
    | some ⟨.transition jobID mutate, next⟩ =>
      let back captured result :=
        some (n, .at (next (captured, result)), [.transitioned jobID mutate result])
      match Server.view ch.fault (n.mem.store.getJob jobID) with
      | .error e => back captured (.error e)
      | .ok none => back captured (.error (BoltStore.errNotFound jobID))
      | .ok (some rec) =>
        match mutate.run captured rec with
        | (captured, .error .errSkipTransition) => back captured (.ok false)
        | (captured, .error e) => back captured (.error e)
        | (captured, .ok cur) =>
          match n.propose net (casCommand rec cur ch.now) with
          | .error e => back captured (.error e)
          | .ok n' => some (n', .waiting pc attempt captured n.log.length n.term, [])
    | some ⟨.submitWithIdempotency rec key, next⟩ =>
      match n.propose net (submitCommand rec key ch.now) with
      | .error e => some (n, .at (next (.error e)), [.submitted rec key (.error e)])
      | .ok n' => some (n', .waiting pc attempt captured n.log.length n.term, [])
    | some ⟨op, next⟩ =>
      (Server.perform cfg n.mem ch op).map fun (mem, r, es) => ({ n with mem }, .at (next r), es)
  | .waiting pc attempt captured index term =>
    match code pc, n.future net index term with
    | some ⟨.transition jobID mutate, next⟩, some result =>
      let back result :=
        some (n, .at (next (captured, result)), [.transitioned jobID mutate result])
      match result with
      | .error e => back (.error e)
      | .ok resp =>
        if resp.conflict then
          if attempt + 1 < maxCASRetries then some (n, .run pc (attempt + 1) captured, [])
          else back (.error (errGaveUp jobID))
        else back (.ok true)
    | some ⟨.submitWithIdempotency rec key, next⟩, some result =>
      let result := result.map fun resp => (resp.jobID, resp.created)
      some (n, .at (next result), [.submitted rec key result])
    | _, _ => none

namespace Node

def apply (n : Node) : Option Node :=
  if n.applied < n.commit then
    match n.log[n.applied]? with
    | none => none
    | some cmd =>
      let (store, resp) := JobFSM.apply n.mem.store cmd
      some { n with
        mem.store := store
        replies := n.replies ++ [(resp, if n.leading then some n.term else none)] }
  else none

def watch (n : Node) : Option Node :=
  if n.watcher.pc = .serving ∨ n.watcher.pc = .down then
    match n.leaderCh with
    | none => none
    | some true => some { n with leaderCh := none, watcher := .at .list }
    | some false => some { n with leaderCh := none }
  else none

def setCall (n : Node) (call : Nat) (h : Routine Handler) : Node :=
  { n with calls := Function.update n.calls call h }

def accept (n : Node) (call : Nat) (h : Handler) : Option (Node × List Server.Event) :=
  if (n.calls call).pc = .idle then some (n.setCall call (.at h), []) else none

/-- A step of the server on this node; `main` is the recovery that the watcher runs. -/
def serve (cfg : Config) (n : Node) (net : Net) : Server.Action → Option (Node × List Server.Event)
  | .start => none
  | .crash => none
  | .beginShutdown => some ({ n with mem.shuttingDown := true }, [])
  | .cancel => if n.mem.shuttingDown then some ({ n with mem.ctxDone := true }, []) else none
  | .close => if n.mem.ctxDone then some ({ n with mem.channels := none }, []) else none
  | .main ch =>
    (n.watcher.step cfg Main.code n net ch).map fun (n, watcher, es) => ({ n with watcher }, es)
  | .drainer ch =>
    (n.drainer.step cfg (Drainer.code cfg) n net ch).map fun (n, drainer, es) =>
      ({ n with drainer }, es)
  | .detector ch =>
    (n.detector.step cfg (Detector.code cfg) n net ch).map fun (n, detector, es) =>
      ({ n with detector }, es)
  | .call call ch =>
    ((n.calls call).step cfg (Handler.code call) n net ch).map fun (n, h, es) =>
      (n.setCall call h, es)
  | .invokeFunction call req uuid now => n.accept call (.invokeFunction cfg req uuid now)
  | .reportTaskResult call req => n.accept call (.reportTaskResult req)
  | .getJobStatus call jobID => n.accept call (.getJobStatus jobID)
  | .watchJob call jobID => n.accept call (.watchJob jobID)
  | .streamTaskLogs call => n.accept call .recvChunk
  | .registerWorker req now =>
    let (pool, result) := Server.registerWorker cfg n.mem.pool req now
    some ({ n with mem.pool := pool }, [.registered result])
  | .heartbeat req now =>
    let (pool, result) := Server.heartbeat n.mem.pool req now
    some ({ n with mem.pool := pool }, [.heartbeat result])

end Node

end Minimodal.Raft
