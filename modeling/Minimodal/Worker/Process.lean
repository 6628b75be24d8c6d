import Minimodal.Worker.WarmPool

namespace Minimodal

namespace Worker

inductive MainPc
  | building
  | forking
  | opening
  | registering
  | serving
  | stopping
  | joining
  | closing
  | exited
  /-- `executor.start()` has raised. -/
  | failed
  deriving DecidableEq, Repr

inductive ExecuteTask
  | inc (request : ExecuteTaskRequest)
  | submit (request : ExecuteTaskRequest)
  | answered
  deriving DecidableEq, Repr

/-- Where a thread of the task pool is in `_run_task`; `execute` is with the number of its call of
the warm pool. -/
inductive PoolThread
  | idle
  | run (request : ExecuteTaskRequest)
  | execute (request : ExecuteTaskRequest) (call : Nat)
  | report (request : ExecuteTaskRequest)
  | dec (request : ExecuteTaskRequest)
  deriving DecidableEq, Repr

/-- A worker process: `accepting` is its gRPC server, `closed` and `queue` are the state of
`task_pool`, `signalled` is the event that the signal handler sets. -/
structure Process where
  main : MainPc := .building
  signalled : Bool := false
  accepting : Bool := false
  handlers : List ExecuteTask := []
  active : Int := 0
  closed : Bool := false
  queue : List ExecuteTaskRequest := []
  threads : List PoolThread := []
  pool : ForkWarmPoolExecutor := {}
  deriving DecidableEq, Repr

namespace Process

inductive Action
  | main (choice : Choice)
  | signal
  | call (request : ExecuteTaskRequest)
  | handler (k : Nat)
  | take (n : Nat)
  | thread (n : Nat) (choice : Choice)
  | outside (o : Outside)

/-- `unserved` is a task that the warm pool turned down, `cancelled` one that `task_pool.shutdown`
has dropped from the queue. -/
inductive Event
  | accepted (request : ExecuteTaskRequest)
  | refused (request : ExecuteTaskRequest)
  | unserved (request : ExecuteTaskRequest)
  | ended (request : ExecuteTaskRequest)
  | cancelled (request : ExecuteTaskRequest)
  deriving DecidableEq, Repr

section Step

variable (strategy : Strategy) (capacity : Nat) (p : Process)

def setThread (n : Nat) (thread : PoolThread) : Process :=
  { p with threads := p.threads.set n thread }

def setHandler (k : Nat) (handler : ExecuteTask) : Process :=
  { p with handlers := p.handlers.set k handler }

def stepMain (choice : Choice) : Option (Process × List Event) :=
  match p.main with
  | .building =>
    if strategy = .fork then
      (p.pool.step capacity .start).map fun pool => ({ p with pool, main := .forking }, [])
    else some ({ p with main := .opening }, [])
  | .forking =>
    if p.pool.lifecycle = .ready then
      some ({ p with main := if p.pool.started then .opening else .failed }, [])
    else (p.pool.step capacity (.main choice)).map fun pool => ({ p with pool }, [])
  | .opening => some ({ p with accepting := true, main := .registering }, [])
  | .registering => some ({ p with main := .serving }, [])
  | .serving =>
    if p.signalled then some ({ p with accepting := false, main := .stopping }, []) else none
  -- `server.stop` is over, its grace period with it
  | .stopping =>
    some ({ p with closed := true, queue := [], main := .joining }, p.queue.map .cancelled)
  | .joining =>
    if p.threads.all (· = .idle) then
      if strategy = .fork then
        (p.pool.step capacity .shutdown).map fun pool => ({ p with pool, main := .closing }, [])
      else some ({ p with main := .exited }, [])
    else none
  | .closing =>
    if p.pool.lifecycle = .ready then some ({ p with main := .exited }, [])
    else (p.pool.step capacity (.main choice)).map fun pool => ({ p with pool }, [])
  | .exited | .failed => none

def stepThread (n : Nat) (choice : Choice) : PoolThread → Option (Process × List Event)
  | .idle => none
  | .run request =>
    if strategy = .fork then
      (p.pool.step capacity .execute).map fun pool =>
        if p.pool.started then
          ({ p with pool }.setThread n (.execute request p.pool.calls.length), [])
        else ({ p with pool }.setThread n (.report request), [.unserved request])
    else some (p.setThread n (.report request), [])
  | .execute request k =>
    (p.pool.step capacity (.call k choice)).map fun pool =>
      ({ p with pool }.setThread n
        (if pool.calls[k]? = some Call.returned then .report request else .execute request k),
        if p.pool.calls[k]? = some Call.waiting ∧ p.pool.books.idle = [] then [.unserved request]
        else [])
  | .report request => some (p.setThread n (.dec request), [])
  | .dec request => some ({ p with active := p.active - 1 }.setThread n .idle, [.ended request])

def step : Action → Option (Process × List Event)
  | .main choice => p.stepMain strategy capacity choice
  | .signal => if p.main = .serving then some ({ p with signalled := true }, []) else none
  | .call request =>
    if p.accepting then some ({ p with handlers := p.handlers ++ [.inc request] }, []) else none
  | .handler k =>
    match p.handlers[k]? with
    | some (.inc request) =>
      some ({ p with active := p.active + 1 }.setHandler k (.submit request), [])
    | some (.submit request) =>
      -- a pool that is shut down raises
      if p.closed then some (p.setHandler k .answered, [.refused request])
      else some ({ p with queue := p.queue ++ [request] }.setHandler k .answered,
        [.accepted request])
    | _ => none
  | .take n =>
    match p.threads[n]?, p.queue with
    | some .idle, request :: queue => some ({ p with queue }.setThread n (.run request), [])
    | _, _ => none
  | .thread n choice => (p.threads[n]?).bind (p.stepThread strategy capacity n choice)
  | .outside o => (p.pool.step capacity (.outside o)).map fun pool => ({ p with pool }, [])

def machine : Lib.Machine Process Action Event := ⟨fun p a => p.step strategy capacity a⟩

def init : Process := { threads := List.replicate capacity .idle }

end Step

inductive Steps (strategy : Strategy) (capacity : Nat) (p : Process) :
    Action → Process → List Event → Prop
  | start {choice pool} : p.main = .building → strategy = .fork →
      p.pool.step capacity .start = some pool →
      Steps strategy capacity p (.main choice) { p with pool, main := .forking } []
  | skip {choice} : p.main = .building → strategy ≠ .fork →
      Steps strategy capacity p (.main choice) { p with main := .opening } []
  | started {choice} : p.main = .forking → p.pool.lifecycle = .ready → p.pool.started = true →
      Steps strategy capacity p (.main choice) { p with main := .opening } []
  | raised {choice} : p.main = .forking → p.pool.lifecycle = .ready →
      Steps strategy capacity p (.main choice) { p with main := .failed } []
  | fork {choice pool} : p.main = .forking → p.pool.lifecycle ≠ .ready →
      p.pool.step capacity (.main choice) = some pool →
      Steps strategy capacity p (.main choice) { p with pool } []
  | opened {choice} : p.main = .opening →
      Steps strategy capacity p (.main choice) { p with accepting := true, main := .registering } []
  | registered {choice} : p.main = .registering →
      Steps strategy capacity p (.main choice) { p with main := .serving } []
  | stop {choice} : p.main = .serving →
      Steps strategy capacity p (.main choice) { p with accepting := false, main := .stopping } []
  | close {choice} : p.main = .stopping →
      Steps strategy capacity p (.main choice)
        { p with closed := true, queue := [], main := .joining } (p.queue.map .cancelled)
  | shutdown {choice pool} : p.main = .joining → (∀ thread ∈ p.threads, thread = .idle) →
      strategy = .fork → p.pool.step capacity .shutdown = some pool →
      Steps strategy capacity p (.main choice) { p with pool, main := .closing } []
  | leave {choice} : p.main = .joining → (∀ thread ∈ p.threads, thread = .idle) →
      strategy ≠ .fork → Steps strategy capacity p (.main choice) { p with main := .exited } []
  | kill {choice pool} : p.main = .closing → p.pool.lifecycle ≠ .ready →
      p.pool.step capacity (.main choice) = some pool →
      Steps strategy capacity p (.main choice) { p with pool } []
  | exit {choice} : p.main = .closing → p.pool.lifecycle = .ready →
      Steps strategy capacity p (.main choice) { p with main := .exited } []
  | signal : p.main = .serving → Steps strategy capacity p .signal { p with signalled := true } []
  | call {request} : p.accepting = true →
      Steps strategy capacity p (.call request)
        { p with handlers := p.handlers ++ [.inc request] } []
  | inc {k request} : p.handlers[k]? = some (.inc request) →
      Steps strategy capacity p (.handler k)
        ({ p with active := p.active + 1 }.setHandler k (.submit request)) []
  | refuse {k request} : p.handlers[k]? = some (.submit request) → p.closed = true →
      Steps strategy capacity p (.handler k) (p.setHandler k .answered) [.refused request]
  | submit {k request} : p.handlers[k]? = some (.submit request) → p.closed = false →
      Steps strategy capacity p (.handler k)
        ({ p with queue := p.queue ++ [request] }.setHandler k .answered) [.accepted request]
  | take {n request queue} : p.threads[n]? = some .idle → p.queue = request :: queue →
      Steps strategy capacity p (.take n) ({ p with queue }.setThread n (.run request)) []
  | acquire {n choice request pool} : p.threads[n]? = some (.run request) → strategy = .fork →
      p.pool.started = true → p.pool.step capacity .execute = some pool →
      Steps strategy capacity p (.thread n choice)
        ({ p with pool }.setThread n (.execute request p.pool.calls.length)) []
  | unstarted {n choice request pool} : p.threads[n]? = some (.run request) → strategy = .fork →
      p.pool.started = false → p.pool.step capacity .execute = some pool →
      Steps strategy capacity p (.thread n choice)
        ({ p with pool }.setThread n (.report request)) [.unserved request]
  | run {n choice request} : p.threads[n]? = some (.run request) → strategy ≠ .fork →
      Steps strategy capacity p (.thread n choice) (p.setThread n (.report request)) []
  | execute {n choice request k pool} : p.threads[n]? = some (.execute request k) →
      p.pool.step capacity (.call k choice) = some pool →
      Steps strategy capacity p (.thread n choice)
        ({ p with pool }.setThread n
          (if pool.calls[k]? = some Call.returned then .report request else .execute request k))
        (if p.pool.calls[k]? = some Call.waiting ∧ p.pool.books.idle = [] then [.unserved request]
          else [])
  | report {n choice request} : p.threads[n]? = some (.report request) →
      Steps strategy capacity p (.thread n choice) (p.setThread n (.dec request)) []
  | dec {n choice request} : p.threads[n]? = some (.dec request) →
      Steps strategy capacity p (.thread n choice)
        ({ p with active := p.active - 1 }.setThread n .idle) [.ended request]
  | outside {o pool} : p.pool.step capacity (.outside o) = some pool →
      Steps strategy capacity p (.outside o) { p with pool } []

variable {strategy : Strategy} {capacity : Nat} {p q : Process} {a : Action} {e : List Event}

theorem steps_of_stepMain {choice : Choice}
    (h : p.stepMain strategy capacity choice = some (q, e)) :
    Steps strategy capacity p (.main choice) q e := by
  unfold stepMain at h
  split at h <;> rename_i hmain
  · split at h
    · simp only [Option.map_eq_some_iff, Prod.mk.injEq] at h
      obtain ⟨pool, hpool, rfl, rfl⟩ := h
      exact .start hmain ‹_› hpool
    · cases h
      exact .skip hmain ‹_›
  · split at h
    · cases h
      split
      · exact .started hmain ‹_› ‹_›
      · exact .raised hmain ‹_›
    · simp only [Option.map_eq_some_iff, Prod.mk.injEq] at h
      obtain ⟨pool, hpool, rfl, rfl⟩ := h
      exact .fork hmain ‹_› hpool
  · cases h
    exact .opened hmain
  · cases h
    exact .registered hmain
  · split at h <;> cases h
    exact .stop hmain
  · cases h
    exact .close hmain
  · split at h
    · rename_i hidle
      have hidle : ∀ thread ∈ p.threads, thread = .idle := by simpa using hidle
      split at h
      · simp only [Option.map_eq_some_iff, Prod.mk.injEq] at h
        obtain ⟨pool, hpool, rfl, rfl⟩ := h
        exact .shutdown hmain hidle ‹_› hpool
      · cases h
        exact .leave hmain hidle ‹_›
    · cases h
  · split at h
    · cases h
      exact .exit hmain ‹_›
    · simp only [Option.map_eq_some_iff, Prod.mk.injEq] at h
      obtain ⟨pool, hpool, rfl, rfl⟩ := h
      exact .kill hmain ‹_› hpool
  · cases h
  · cases h

theorem steps_of_stepThread {n : Nat} {choice : Choice} {thread : PoolThread}
    (hn : p.threads[n]? = some thread)
    (h : p.stepThread strategy capacity n choice thread = some (q, e)) :
    Steps strategy capacity p (.thread n choice) q e := by
  cases thread with
  | idle => cases h
  | run request =>
    simp only [stepThread] at h
    split at h
    · simp only [Option.map_eq_some_iff] at h
      obtain ⟨pool, hpool, h⟩ := h
      split at h <;> cases h
      · exact .acquire hn ‹_› ‹_› hpool
      · exact .unstarted hn ‹_› (by simpa using ‹¬ p.pool.started = true›) hpool
    · cases h
      exact .run hn ‹_›
  | execute request k =>
    simp only [stepThread, Option.map_eq_some_iff] at h
    obtain ⟨pool, hpool, h⟩ := h
    cases h
    exact .execute hn hpool
  | report request =>
    cases h
    exact .report hn
  | dec request =>
    cases h
    exact .dec hn

theorem steps_of_step (h : p.step strategy capacity a = some (q, e)) :
    Steps strategy capacity p a q e := by
  cases a with
  | main choice => exact steps_of_stepMain h
  | signal =>
    simp only [step] at h
    split at h <;> cases h
    exact .signal ‹_›
  | call request =>
    simp only [step] at h
    split at h <;> cases h
    exact .call ‹_›
  | handler k =>
    simp only [step] at h
    split at h
    · cases h
      exact .inc ‹_›
    · split at h <;> cases h
      · exact .refuse ‹_› ‹_›
      · exact .submit ‹_› (by simpa using ‹¬ p.closed = true›)
    · cases h
  | take n =>
    simp only [step] at h
    split at h <;> cases h
    exact .take ‹_› ‹_›
  | thread n choice =>
    simp only [step, Option.bind_eq_some_iff] at h
    obtain ⟨thread, hn, h⟩ := h
    exact steps_of_stepThread hn h
  | outside o =>
    simp only [step, Option.map_eq_some_iff, Prod.mk.injEq] at h
    obtain ⟨pool, hpool, rfl, rfl⟩ := h
    exact .outside hpool

end Process

end Worker

end Minimodal
