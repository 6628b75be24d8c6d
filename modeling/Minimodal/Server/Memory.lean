import Minimodal.Lib.Thread
import Minimodal.Server.Mutators
import Minimodal.Server.Pool

namespace Minimodal

def coldStartRingSize : Nat := 1024

structure Metrics where
  totalInvocations : Int := 0
  totalCompleted : Int := 0
  totalFailed : Int := 0
  coldStarts : List Int := List.replicate coldStartRingSize 0
  coldHead : Nat := 0
  coldSize : Nat := 0

def Metrics.recordColdStart (m : Metrics) (ms : Int) : Metrics :=
  if ms < 0 then m
  else
    { m with
      coldStarts := m.coldStarts.set m.coldHead ms
      coldHead := (m.coldHead + 1) % m.coldStarts.length
      coldSize := if m.coldSize < m.coldStarts.length then m.coldSize + 1 else m.coldSize }

namespace Server

def pendingQueueSize : Nat := 10000

def resultsCacheSize : Int := 10000

structure Mem where
  store : BoltStore
  pool : WorkerPool := .new
  pendingQueue : List String := []
  results : LruResults := .new resultsCacheSize
  logHub : LogHub := .new
  metrics : Metrics := {}
  /-- The cached connections with the address each was dialled to; `none` once closed. -/
  channels : Option (Std.ExtTreeMap String String) := some ∅
  stalledDispatches : Int := 0
  shuttingDown : Bool := false
  ctxDone : Bool := false

inductive Answer
  | accepted
  | rejected
  | failed
  deriving DecidableEq, Repr

/-- What the environment decides at a step: the clock, whether the database reports an
I/O error, the iteration order of the worker map, whether a client for a worker can be
made, the worker's answer, which branch of a `select` is taken and what a client sends. -/
structure Choice where
  now : Nat := 0
  fault : Option String := none
  order : List String := []
  dialFails : Bool := false
  answer : Answer := .accepted
  stop : Bool := false
  tick : Bool := false
  chunk : Option TaskLogChunk := none

inductive Event
  | submitted (rec : JobRecord) (key : String) (result : Except Err (String × Bool))
  | transitioned (jobID : String) (m : Mutator) (result : Except Err Bool)
  | executeTask (workerID address : String) (req : ExecuteTaskRequest)
  | answered (workerID jobID : String) (answer : Answer)
  | declaredDead (workerID : String)
  | registered (result : Except Status RegisterWorkerResponse)
  | heartbeat (result : Except Status HeartbeatResponse)
  | invoked (call : Nat) (req : InvokeFunctionRequest) (jobID : String) (created : Bool)
  | acknowledged (call : Nat) (req : ReportTaskResultRequest)
  | jobStatus (call : Nat) (resp : JobStatusResponse)
  | watched (call : Nat) (ev : JobEvent)
  | refused (call : Nat) (status : Status)
  | crashed
  deriving DecidableEq

inductive Wake
  | done
  | event (ev : JobEvent)
  | tick
  deriving DecidableEq, Repr

/-- The atomic operations on shared state: store transactions, channel operations,
critical sections, atomics, and the calls to workers and clients. -/
inductive Op
  | clock
  | getJob (id : String)
  | transition (jobID : String) (m : Mutator)
  | listUnfinished
  | listRunningOnWorker (workerID : String)
  | submitWithIdempotency (rec : JobRecord) (key : String)
  | loadShuttingDown
  | send (jobID : String)
  | receive
  | leastLoadedAliveExcluding (tried : List String)
  | tick
  | getOrDial (workerID address : String)
  | executeTask (workerID conn : String) (req : ExecuteTaskRequest)
  | answer (workerID jobID : String)
  | dropChannel (workerID : String)
  | wait
  | addStalled (delta : Int)
  | recordInvocation
  | recordCompleted
  | recordFailed
  | recordColdStart (ms : Int)
  | putResult (jobID : String) (entry : ResultEntry)
  | getResult (jobID : String)
  | append (jobID : String) (lines : List LogLine)
  | finish (jobID : String) (result : JobEvent)
  | subscribe (jobID : String) (sub : Nat)
  | unsubscribe (jobID : String) (sub : Nat)
  | mailbox (jobID : String) (sub : Nat)
  | awaitEvent (jobID : String) (sub : Nat)
  | sendEvent (call : Nat) (ev : JobEvent)
  | recvChunk
  | reply (ev : Event)

@[reducible] def Op.Res : Op → Type
  | .clock => Nat
  | .getJob _ => Except Err (Option JobRecord)
  | .transition _ _ => Captured × Except Err Bool
  | .listUnfinished => Except Err (List JobRecord)
  | .listRunningOnWorker _ => Except Err (List JobRecord)
  | .submitWithIdempotency _ _ => Except Err (String × Bool)
  | .loadShuttingDown => Bool
  | .receive => Option String
  | .leastLoadedAliveExcluding _ => Option (String × WorkerState)
  | .tick => Option (List String)
  | .getOrDial _ _ => Option String
  | .executeTask _ _ _ => Bool
  | .answer _ _ => Answer
  | .wait => Bool
  | .getResult _ => Option ResultEntry
  | .subscribe _ _ => List JobEvent × Option JobEvent
  | .mailbox _ _ => Option JobEvent
  | .awaitEvent _ _ => Wake
  | .sendEvent _ _ => Bool
  | .recvChunk => Option TaskLogChunk
  | _ => Unit

def view {α : Type} (fault : Option String) (result : α) : Except Err α :=
  match fault with
  | some msg => .error (.errorf msg)
  | none => .ok result

/-- A read-write transaction; when it fails the file is as before. -/
def Mem.update {α : Type} (m : Mem) (fault : Option String) (result : BoltStore × Except Err α) :
    Mem × Except Err α :=
  match fault with
  | some msg => (m, .error (.errorf msg))
  | none => ({ m with store := result.1 }, result.2)

def perform (cfg : Config) : Lib.Thread.Memory Op Op.Res Mem Choice Event := fun m ch op =>
  match op with
  | .clock => some (m, ch.now, [])
  | .getJob id => some (m, view ch.fault (m.store.getJob id), [])
  | .transition jobID mutate =>
    let (store, captured, result) := m.store.transitionWith jobID mutate.run {} ch.now
    let (m, result) := m.update ch.fault (store, result)
    some (m, (captured, result), [.transitioned jobID mutate result])
  | .listUnfinished => some (m, view ch.fault m.store.listUnfinished, [])
  | .listRunningOnWorker workerID =>
    some (m, view ch.fault (m.store.listRunningOnWorker workerID), [])
  | .submitWithIdempotency rec key =>
    let (m, result) := m.update ch.fault (m.store.submitWithIdempotency rec key ch.now)
    some (m, result, [.submitted rec key result])
  | .loadShuttingDown => some (m, m.shuttingDown, [])
  | .send jobID =>
    if m.pendingQueue.length < pendingQueueSize then
      some ({ m with pendingQueue := m.pendingQueue ++ [jobID] }, (), [])
    else none
  | .receive =>
    if ch.stop then if m.ctxDone then some (m, none, []) else none
    else
      match m.pendingQueue with
      | [] => none
      | jobID :: rest => some ({ m with pendingQueue := rest }, some jobID, [])
  | .leastLoadedAliveExcluding tried =>
    match m.pool.range ch.order with
    | none => none
    | some entries => some (m, WorkerPool.leastLoadedAliveExcluding tried entries, [])
  | .tick =>
    if ch.stop then if m.ctxDone then some (m, none, []) else none
    else
      match m.pool.range ch.order with
      | none => none
      | some entries =>
        let (pool, dead) := m.pool.sweep cfg.workerTimeout ch.now entries
        some ({ m with pool }, some dead, dead.map .declaredDead)
  | .getOrDial workerID address =>
    match m.channels with
    | none => some (m, none, [])
    | some channels =>
      match channels[workerID]? with
      | some conn => some (m, some conn, [])
      | none =>
        if ch.dialFails then some (m, none, [])
        else
          some ({ m with channels := some (channels.insert workerID address) }, some address, [])
  | .executeTask workerID conn req =>
    if m.ctxDone then some (m, false, []) else some (m, true, [.executeTask workerID conn req])
  | .answer workerID jobID =>
    -- a call in flight fails when its context is cancelled
    if m.ctxDone ∧ ch.answer ≠ .failed then none
    else some (m, ch.answer, [.answered workerID jobID ch.answer])
  | .dropChannel workerID =>
    some ({ m with channels := m.channels.map fun channels => channels.erase workerID }, (), [])
  | .wait => if ch.stop ∧ ¬ m.ctxDone then none else some (m, ch.stop, [])
  | .addStalled delta =>
    some ({ m with stalledDispatches := m.stalledDispatches + delta }, (), [])
  | .recordInvocation =>
    some ({ m with metrics.totalInvocations := m.metrics.totalInvocations + 1 }, (), [])
  | .recordCompleted =>
    some ({ m with metrics.totalCompleted := m.metrics.totalCompleted + 1 }, (), [])
  | .recordFailed =>
    some ({ m with metrics.totalFailed := m.metrics.totalFailed + 1 }, (), [])
  | .recordColdStart ms => some ({ m with metrics := m.metrics.recordColdStart ms }, (), [])
  | .putResult jobID entry => some ({ m with results := m.results.put jobID entry }, (), [])
  | .getResult jobID =>
    let (results, entry) := m.results.get jobID
    some ({ m with results }, entry, [])
  | .append jobID lines => some ({ m with logHub := m.logHub.append jobID lines }, (), [])
  | .finish jobID result => some ({ m with logHub := m.logHub.finish jobID result }, (), [])
  | .subscribe jobID sub =>
    let (logHub, replay) := m.logHub.subscribe jobID sub
    some ({ m with logHub }, replay, [])
  | .unsubscribe jobID sub =>
    some ({ m with logHub := m.logHub.unsubscribe jobID sub }, (), [])
  | .mailbox jobID sub =>
    let (logHub, ev) := m.logHub.receive jobID sub
    some ({ m with logHub }, ev, [])
  | .awaitEvent jobID sub =>
    if ch.stop then some (m, .done, [])
    else if ch.tick then some (m, .tick, [])
    else
      match m.logHub.receive jobID sub with
      | (_, none) => none
      | (logHub, some ev) => some ({ m with logHub }, .event ev, [])
  | .sendEvent call ev =>
    if ch.stop then some (m, false, []) else some (m, true, [.watched call ev])
  | .recvChunk => some (m, ch.chunk, [])
  | .reply ev => some (m, (), [ev])

inductive Performs (cfg : Config) (m : Mem) (ch : Choice) :
    (op : Op) → Mem → op.Res → List Event → Prop
  | clock : Performs cfg m ch .clock m ch.now []
  | getJob {id} : Performs cfg m ch (.getJob id) m (view ch.fault (m.store.getJob id)) []
  | transition {jobID mutate store c b} : ch.fault = none →
      m.store.transitionWith jobID mutate.run {} ch.now = (store, c, b) →
      Performs cfg m ch (.transition jobID mutate) { m with store } (c, b)
        [.transitioned jobID mutate b]
  | transitionFault {jobID mutate c msg} : ch.fault = some msg →
      Performs cfg m ch (.transition jobID mutate) m (c, .error (.errorf msg))
        [.transitioned jobID mutate (.error (.errorf msg))]
  | listUnfinished :
      Performs cfg m ch .listUnfinished m (view ch.fault m.store.listUnfinished) []
  | listRunningOnWorker {workerID} : Performs cfg m ch (.listRunningOnWorker workerID) m
      (view ch.fault (m.store.listRunningOnWorker workerID)) []
  | submit {rec key store result} : ch.fault = none →
      m.store.submitWithIdempotency rec key ch.now = (store, result) →
      Performs cfg m ch (.submitWithIdempotency rec key) { m with store } result
        [.submitted rec key result]
  | submitFault {rec key msg} : ch.fault = some msg →
      Performs cfg m ch (.submitWithIdempotency rec key) m (.error (.errorf msg))
        [.submitted rec key (.error (.errorf msg))]
  | loadShuttingDown : Performs cfg m ch .loadShuttingDown m m.shuttingDown []
  | send {jobID} : m.pendingQueue.length < pendingQueueSize → Performs cfg m ch (.send jobID)
      { m with pendingQueue := m.pendingQueue ++ [jobID] } () []
  | receiveDone : ch.stop = true → m.ctxDone = true → Performs cfg m ch .receive m none []
  | receive {jobID rest} : ch.stop = false → m.pendingQueue = jobID :: rest →
      Performs cfg m ch .receive { m with pendingQueue := rest } (some jobID) []
  | leastLoaded {tried entries} : m.pool.range ch.order = some entries →
      Performs cfg m ch (.leastLoadedAliveExcluding tried) m
        (WorkerPool.leastLoadedAliveExcluding tried entries) []
  | tickDone : ch.stop = true → m.ctxDone = true → Performs cfg m ch .tick m none []
  | tick {entries pool dead} : ch.stop = false → m.pool.range ch.order = some entries →
      m.pool.sweep cfg.workerTimeout ch.now entries = (pool, dead) →
      Performs cfg m ch .tick { m with pool } (some dead) (dead.map .declaredDead)
  | closed {workerID address} : m.channels = none →
      Performs cfg m ch (.getOrDial workerID address) m none []
  | cached {workerID address channels conn} : m.channels = some channels →
      channels[workerID]? = some conn →
      Performs cfg m ch (.getOrDial workerID address) m (some conn) []
  | dialError {workerID address channels} : m.channels = some channels →
      channels[workerID]? = none → ch.dialFails = true →
      Performs cfg m ch (.getOrDial workerID address) m none []
  | dial {workerID address channels} : m.channels = some channels →
      channels[workerID]? = none → ch.dialFails = false →
      Performs cfg m ch (.getOrDial workerID address)
        { m with channels := some (channels.insert workerID address) } (some address) []
  | executeDone {workerID conn req} : m.ctxDone = true →
      Performs cfg m ch (.executeTask workerID conn req) m false []
  | execute {workerID conn req} : m.ctxDone = false →
      Performs cfg m ch (.executeTask workerID conn req) m true [.executeTask workerID conn req]
  | answer {workerID jobID} : (m.ctxDone = true → ch.answer = .failed) →
      Performs cfg m ch (.answer workerID jobID) m ch.answer [.answered workerID jobID ch.answer]
  | dropChannel {workerID} : Performs cfg m ch (.dropChannel workerID)
      { m with channels := m.channels.map fun channels => channels.erase workerID } () []
  | wait : (ch.stop = true → m.ctxDone = true) → Performs cfg m ch .wait m ch.stop []
  | addStalled {delta} : Performs cfg m ch (.addStalled delta)
      { m with stalledDispatches := m.stalledDispatches + delta } () []
  | recordInvocation : Performs cfg m ch .recordInvocation
      { m with metrics.totalInvocations := m.metrics.totalInvocations + 1 } () []
  | recordCompleted : Performs cfg m ch .recordCompleted
      { m with metrics.totalCompleted := m.metrics.totalCompleted + 1 } () []
  | recordFailed : Performs cfg m ch .recordFailed
      { m with metrics.totalFailed := m.metrics.totalFailed + 1 } () []
  | recordColdStart {ms} : Performs cfg m ch (.recordColdStart ms)
      { m with metrics := m.metrics.recordColdStart ms } () []
  | putResult {jobID entry} : Performs cfg m ch (.putResult jobID entry)
      { m with results := m.results.put jobID entry } () []
  | getResult {jobID} : Performs cfg m ch (.getResult jobID)
      { m with results := (m.results.get jobID).1 } (m.results.get jobID).2 []
  | append {jobID lines} : Performs cfg m ch (.append jobID lines)
      { m with logHub := m.logHub.append jobID lines } () []
  | finish {jobID result} : Performs cfg m ch (.finish jobID result)
      { m with logHub := m.logHub.finish jobID result } () []
  | subscribe {jobID sub} : Performs cfg m ch (.subscribe jobID sub)
      { m with logHub := (m.logHub.subscribe jobID sub).1 } (m.logHub.subscribe jobID sub).2 []
  | unsubscribe {jobID sub} : Performs cfg m ch (.unsubscribe jobID sub)
      { m with logHub := m.logHub.unsubscribe jobID sub } () []
  | mailbox {jobID sub} : Performs cfg m ch (.mailbox jobID sub)
      { m with logHub := (m.logHub.receive jobID sub).1 } (m.logHub.receive jobID sub).2 []
  | awaitDone {jobID sub} : ch.stop = true → Performs cfg m ch (.awaitEvent jobID sub) m .done []
  | awaitTick {jobID sub} : ch.stop = false → ch.tick = true →
      Performs cfg m ch (.awaitEvent jobID sub) m .tick []
  | awaitEvent {jobID sub logHub ev} : ch.stop = false → ch.tick = false →
      m.logHub.receive jobID sub = (logHub, some ev) →
      Performs cfg m ch (.awaitEvent jobID sub) { m with logHub } (.event ev) []
  | sendDone {call ev} : ch.stop = true → Performs cfg m ch (.sendEvent call ev) m false []
  | sendEvent {call ev} : ch.stop = false →
      Performs cfg m ch (.sendEvent call ev) m true [.watched call ev]
  | recvChunk : Performs cfg m ch .recvChunk m ch.chunk []
  | reply {ev} : Performs cfg m ch (.reply ev) m () [ev]

section Performs

variable {cfg : Config} {m m' : Mem} {ch : Choice} {es : List Event}

theorem Mem.update_cases {α : Type} {result res : Except Err α} {store : BoltStore}
    (h : m.update ch.fault (store, result) = (m', res)) :
    ch.fault = none ∧ m' = { m with store } ∧ res = result ∨
      ∃ msg, ch.fault = some msg ∧ m' = m ∧ res = .error (.errorf msg) := by
  cases hf : ch.fault with
  | none =>
    simp only [Mem.update, hf, Prod.mk.injEq] at h
    exact .inl ⟨rfl, h.1.symm, h.2.symm⟩
  | some msg =>
    simp only [Mem.update, hf, Prod.mk.injEq] at h
    exact .inr ⟨msg, rfl, h.1.symm, h.2.symm⟩

theorem performs_of_perform {op : Op} {r : op.Res} (h : perform cfg m ch op = some (m', r, es)) :
    Performs cfg m ch op m' r es := by
  cases op with
  | transition jobID mutate =>
    cases h
    rcases Mem.update_cases rfl with ⟨hf, hm, hr⟩ | ⟨msg, hf, hm, hr⟩
    · rw [hm, hr]
      exact .transition hf rfl
    · rw [hm, hr]
      exact .transitionFault hf
  | submitWithIdempotency rec key =>
    cases h
    rcases Mem.update_cases rfl with ⟨hf, hm, hr⟩ | ⟨msg, hf, hm, hr⟩
    · rw [hm, hr]
      exact .submit hf rfl
    · rw [hm, hr]
      exact .submitFault hf
  | send jobID =>
    simp only [perform, Option.ite_none_right_eq_some] at h
    obtain ⟨hlen, h⟩ := h
    cases h
    exact .send hlen
  | receive =>
    simp only [perform] at h
    split at h
    · rename_i hstop
      rw [Option.ite_none_right_eq_some] at h
      obtain ⟨hctx, h⟩ := h
      cases h
      exact .receiveDone hstop hctx
    · rename_i hstop
      split at h
      · cases h
      · rename_i hqueue
        cases h
        exact .receive (by simpa using hstop) hqueue
  | leastLoadedAliveExcluding tried =>
    simp only [perform] at h
    split at h
    · cases h
    · rename_i hrange
      cases h
      exact .leastLoaded hrange
  | tick =>
    simp only [perform] at h
    split at h
    · rename_i hstop
      rw [Option.ite_none_right_eq_some] at h
      obtain ⟨hctx, h⟩ := h
      cases h
      exact .tickDone hstop hctx
    · rename_i hstop
      split at h
      · cases h
      · rename_i hrange
        cases h
        exact .tick (by simpa using hstop) hrange rfl
  | getOrDial workerID address =>
    simp only [perform] at h
    split at h
    · rename_i hchannels
      cases h
      exact .closed hchannels
    · rename_i hchannels
      split at h
      · rename_i hconn
        cases h
        exact .cached hchannels hconn
      · rename_i hconn
        split at h
        · rename_i hdial
          cases h
          exact .dialError hchannels hconn hdial
        · rename_i hdial
          cases h
          exact .dial hchannels hconn (by simpa using hdial)
  | executeTask workerID conn req =>
    simp only [perform] at h
    split at h
    · rename_i hctx
      cases h
      exact .executeDone hctx
    · rename_i hctx
      cases h
      exact .execute (by simpa using hctx)
  | answer workerID jobID =>
    simp only [perform] at h
    split at h
    · cases h
    · rename_i hctx
      cases h
      exact .answer fun hdone => by simpa [hdone] using hctx
  | wait =>
    simp only [perform] at h
    split at h
    · cases h
    · rename_i hctx
      cases h
      exact .wait fun hstop => by simpa [hstop] using hctx
  | awaitEvent jobID sub =>
    simp only [perform] at h
    split at h
    · rename_i hstop
      cases h
      exact .awaitDone hstop
    · rename_i hstop
      split at h
      · rename_i htick
        cases h
        exact .awaitTick (by simpa using hstop) htick
      · rename_i htick
        split at h
        · cases h
        · rename_i hrecv
          cases h
          exact .awaitEvent (by simpa using hstop) (by simpa using htick) hrecv
  | sendEvent call ev =>
    simp only [perform] at h
    split at h
    · rename_i hstop
      cases h
      exact .sendDone hstop
    · rename_i hstop
      cases h
      exact .sendEvent (by simpa using hstop)
  | _ =>
    cases h
    constructor

end Performs

end Server

end Minimodal
