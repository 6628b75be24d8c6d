import Minimodal.Server.Machine

namespace Minimodal

namespace Worker

/-- How a worker presents itself; `main` makes up an id where none is configured, and the address
ends in the port. -/
structure Identity where
  workerID : String
  address : String
  capacity : Int
  validID : validWorkerID workerID = true
  validAddress : address ≠ ""

def Identity.registerWorkerRequest (w : Identity) : RegisterWorkerRequest :=
  ⟨w.workerID, w.address, w.capacity⟩

/-- Where the worker is in the first `register` of `main` or in `heartbeat_loop`. `interval`, in
milliseconds, is the one of the loop, which `main` does not have before it is registered. -/
inductive Beat
  | register (interval : Option Int) (backoffMs : Nat)
  | registering (interval : Option Int) (backoffMs : Nat)
    (answer : Option (Except Status RegisterWorkerResponse))
  | sleep (interval : Option Int) (backoffMs : Nat)
  | beat (interval : Int)
  | beating (interval : Int) (answer : Option (Except Status HeartbeatResponse))
  | wait (interval : Int)
  | stopped
  deriving DecidableEq

def heartbeatInterval (resp : RegisterWorkerResponse) : Int :=
  if resp.heartbeatIntervalMs = 0 then 2000 else resp.heartbeatIntervalMs

namespace Beat

/-- Back from `register`: `main` starts the loop, the loop comes to its wait. -/
def registered (resp : RegisterWorkerResponse) : Option Int → Beat
  | none => .beat (heartbeatInterval resp)
  | some interval => .wait interval

def send : Beat → Option Beat
  | .register interval backoffMs => some (.registering interval backoffMs none)
  | .beat interval => some (.beating interval none)
  | _ => none

def fail : Beat → Option Beat
  | .registering interval backoffMs _ => some (.sleep interval backoffMs)
  | .beating interval _ => some (.wait interval)
  | _ => none

def receive : Beat → Option Beat
  | .registering interval _ (some (.ok resp)) => some (registered resp interval)
  | .registering interval backoffMs (some (.error _)) => some (.sleep interval backoffMs)
  | .beating interval (some (.ok resp)) =>
    some (if resp.shouldDrain then .register (some interval) 500 else .wait interval)
  | .beating interval (some (.error _)) => some (.wait interval)
  | _ => none

def answered : Beat → Bool
  | .registering _ _ (some (.ok _)) | .beating _ (some (.ok _)) => true
  | _ => false

def missed (n : Nat) : Beat → Nat
  | .beating _ _ => n + 1
  | _ => n

def pauseMs : Beat → Nat
  | .sleep _ backoffMs => backoffMs
  | .wait interval => interval.toNat
  | _ => 0

def wake : Beat → Option Beat
  | .sleep interval backoffMs => some (.register interval (min (backoffMs * 2) 5000))
  | .wait interval => some (.beat interval)
  | _ => none

/-- The loop sees the stop flag; `register` does not look at it. -/
def stop : Beat → Option Beat
  | .beat _ | .wait _ => some .stopped
  | _ => none

end Beat

end Worker

/-- A worker's heartbeat thread and the orchestrator, with a clock in milliseconds. `since` is when
the thread came to where it is, `missed` how many of its last heartbeats have failed in a row. -/
structure Membership where
  server : Server.State := Server.init
  now : Nat := 0
  beat : Worker.Beat := .register none 500
  since : Nat := 0
  missed : Nat := 0

namespace Membership

/-- `handle` is the orchestrator's part of the call in flight, which reports `activeTasks`. -/
inductive Action
  | elapse (ms : Nat)
  | server (a : Server.Action)
  | send
  | handle (activeTasks : Int)
  | receive
  | fail
  | wake
  | stop

end Membership

def Server.Action.time : Server.Action → Option Nat
  | .main ch | .drainer ch | .detector ch | .call _ ch => some ch.now
  | .invokeFunction _ _ _ now | .registerWorker _ now | .heartbeat _ now => some now
  | _ => none

namespace Membership

def move (s : Membership) (missed : Nat) (beat : Worker.Beat) : Membership :=
  { s with beat, since := s.now, missed }

def handle (cfg : Config) (w : Worker.Identity) (s : Membership) (activeTasks : Int) :
    Option (Membership × List Server.Event) :=
  match s.beat with
  | .registering interval backoffMs none =>
    (Server.step cfg s.server (.registerWorker w.registerWorkerRequest s.now)).map
      fun (server, es) =>
        ({ s with
          server
          beat := .registering interval backoffMs
            (some (Server.registerWorker cfg s.server.mem.pool w.registerWorkerRequest s.now).2) },
          es)
  | .beating interval none =>
    (Server.step cfg s.server (.heartbeat ⟨w.workerID, activeTasks⟩ s.now)).map
      fun (server, es) =>
        ({ s with
          server
          beat := .beating interval
            (some (Server.heartbeat s.server.mem.pool ⟨w.workerID, activeTasks⟩ s.now).2) }, es)
  | _ => none

def step (cfg : Config) (w : Worker.Identity) (s : Membership) :
    Action → Option (Membership × List Server.Event)
  | .elapse ms => some ({ s with now := s.now + ms }, [])
  | .server a =>
    if a.time.all (· = s.now) then
      (Server.step cfg s.server a).map fun (server, es) => ({ s with server }, es)
    else none
  | .send => s.beat.send.map fun beat => (s.move s.missed beat, [])
  | .handle activeTasks => s.handle cfg w activeTasks
  | .receive =>
    s.beat.receive.map fun beat =>
      (s.move (if s.beat.answered then 0 else s.beat.missed s.missed) beat, [])
  | .fail => s.beat.fail.map fun beat => (s.move (s.beat.missed s.missed) beat, [])
  | .wake =>
    if s.since + s.beat.pauseMs ≤ s.now then
      s.beat.wake.map fun beat => (s.move s.missed beat, [])
    else none
  | .stop => s.beat.stop.map fun beat => (s.move s.missed beat, [])

def machine (cfg : Config) (w : Worker.Identity) :
    Lib.Machine Membership Action Server.Event := ⟨step cfg w⟩

end Membership

end Minimodal
