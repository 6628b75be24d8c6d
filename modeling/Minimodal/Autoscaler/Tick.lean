import Minimodal.Lib.Machine
import Minimodal.Server.Pool

namespace Minimodal

structure AutoscalerConfig where
  min : Int
  max : Int
  queueThreshold : Int
  idleTimeout : Int
  cooldown : Int
  registerTimeout : Int
  deriving DecidableEq, Repr

def AutoscalerConfig.new (cfg : AutoscalerConfig) : AutoscalerConfig where
  min := cfg.min
  max := if cfg.max < cfg.min then cfg.min else cfg.max
  queueThreshold := if cfg.queueThreshold < 1 then 1 else cfg.queueThreshold
  idleTimeout := cfg.idleTimeout
  cooldown := cfg.cooldown
  registerTimeout := cfg.registerTimeout

/-- `idleSince` is `none` while busy or before the first idle observation. -/
structure ManagedWorker where
  launchedAt : Nat
  registered : Bool := false
  idleSince : Option Nat := none
  deriving DecidableEq, Repr

structure Autoscaler where
  managed : List (String × ManagedWorker) := []
  lastLaunch : Option Nat := none
  seq : Nat := 0
  deriving DecidableEq, Repr

structure WorkerMetrics where
  alive : Bool
  activeTasks : Int
  capacity : Int
  deriving DecidableEq, Repr

def WorkerState.metrics (w : WorkerState) : WorkerMetrics where
  alive := w.alive
  activeTasks := w.activeTasks
  capacity := w.capacity

def WorkerPool.snapshot (p : WorkerPool) : List (String × WorkerMetrics) :=
  p.workers.forEach.map fun (id, w) => (id, w.metrics)

namespace Autoscaler

section Policy

variable (cfg : AutoscalerConfig) (now : Nat) (byID : List (String × WorkerMetrics))

/-- `reconcile` on one managed worker; `none` stops it and takes it off the map. -/
def reconcileWorker (id : String) (m : ManagedWorker) : Option ManagedWorker :=
  let w := byID.lookup id
  if !m.registered then
    if w.isSome then some { m with registered := true }
    else if (now : Int) - m.launchedAt > cfg.registerTimeout then none
    else some m
  else
    match w with
    | none => none
    | some w =>
      if !w.alive then none
      else if w.activeTasks > 0 then some { m with idleSince := none }
      else if m.idleSince.isNone then some { m with idleSince := some now }
      else some m

def reconcile (a : Autoscaler) : Autoscaler × List String :=
  ({ a with managed := a.managed.filterMap fun (id, m) =>
      (reconcileWorker cfg now byID id m).map fun m => (id, m) },
    (a.managed.filter fun (id, m) => (reconcileWorker cfg now byID id m).isNone).map Prod.fst)

def alive : Int := (byID.filter fun (_, w) => w.alive).length

def capacity : Int := ((byID.filter fun (_, w) => w.alive).map fun (_, w) => w.capacity).sum

def active : Int := ((byID.filter fun (_, w) => w.alive).map fun (_, w) => w.activeTasks).sum

def saturated : Bool := capacity byID > 0 ∧ active byID ≥ capacity byID

def pending (a : Autoscaler) : Int := (a.managed.filter fun (_, m) => !m.registered).length

def effective (a : Autoscaler) : Int := alive byID + a.pending

/-- `now.Sub(a.lastLaunch) >= a.cfg.Cooldown`; no launch yet is long ago. -/
def cooled (a : Autoscaler) : Bool :=
  match a.lastLaunch with
  | none => true
  | some t => (now : Int) - t ≥ cfg.cooldown

def longerIdle (best : Option (String × Nat)) (entry : String × ManagedWorker) :
    Option (String × Nat) :=
  match entry.2.registered, entry.2.idleSince with
  | true, some since =>
    if (now : Int) - since < cfg.idleTimeout then best
    else
      match best with
      | none => some (entry.1, since)
      | some b => if since < b.2 then some (entry.1, since) else best
  | _, _ => best

/-- `pickIdle`, on the entries in an order of the runtime's choice. -/
def pickIdle (entries : List (String × ManagedWorker)) : Option String :=
  (entries.foldl (longerIdle cfg now) none).map Prod.fst

def range (a : Autoscaler) (order : List String) : Option (List (String × ManagedWorker)) :=
  if order.isPerm (a.managed.map Prod.fst) then
    some (order.filterMap fun id => (a.managed.lookup id).map fun m => (id, m))
  else none

end Policy

def workerID (pid seq : Nat) : String :=
  "autoscale-" ++ toString pid ++ "-" ++ toString seq

def insert (managed : List (String × ManagedWorker)) (id : String) (m : ManagedWorker) :
    List (String × ManagedWorker) :=
  managed.filter (fun entry => entry.1 != id) ++ [(id, m)]

def launch (pid now : Nat) (a : Autoscaler) (ok : Bool) : Autoscaler :=
  let id := workerID pid (a.seq + 1)
  if ok then
    { managed := insert a.managed id { launchedAt := now }, lastLaunch := some now, seq := a.seq + 1 }
  else { a with seq := a.seq + 1 }

inductive Decision
  | launch
  | stop (id : String)
  | nothing
  deriving DecidableEq, Repr

def decision (cfg : AutoscalerConfig) (now : Nat) (byID : List (String × WorkerMetrics))
    (a : Autoscaler) (queue : Int) (entries : List (String × ManagedWorker)) : Decision :=
  if a.effective byID < cfg.min then .launch
  else if (queue ≥ cfg.queueThreshold ∨ saturated byID = true) ∧ a.effective byID < cfg.max ∧
      a.cooled cfg now = true then .launch
  else if queue = 0 ∧ saturated byID = false ∧ a.effective byID > cfg.min then
    match pickIdle cfg now entries with
    | some id => .stop id
    | none => .nothing
  else .nothing

/-- A tick takes a snapshot, updates the managed set and acts; the pool goes on in between. -/
inductive Tick
  | waiting
  | reconcile (now : Nat) (byID : List (String × WorkerMetrics))
  | decide (now : Nat) (byID : List (String × WorkerMetrics))
  deriving DecidableEq, Repr

structure State where
  pool : WorkerPool := .new
  scaler : Autoscaler := {}
  tick : Tick := .waiting
  stopped : List String := []

inductive Event
  | launchWorker (id : String) (ok : Bool)
  | stopWorker (id : String) (idle : Bool) (ok : Bool)
  deriving DecidableEq, Repr

inductive Action
  | register (id address : String) (capacity : Int) (now : Nat)
  | heartbeat (id : String) (activeTasks : Int) (now : Nat)
  | sweep (now : Nat) (order : List String)
  | tick (now : Nat)
  | reconcile (failing : List String)
  | decide (queue : Nat) (order : List String) (ok : Bool)

/-- The policy's parameters: `pid` is part of the ids, `timeout` is the pool's. -/
structure Params where
  cfg : AutoscalerConfig
  pid : Nat
  timeout : Nat

def act (ps : Params) (s : State) (now : Nat) (ok : Bool) : Decision → State × List Event
  | .launch =>
    ({ s with scaler := s.scaler.launch ps.pid now ok, tick := .waiting },
      [.launchWorker (workerID ps.pid (s.scaler.seq + 1)) ok])
  | .stop id =>
    let event := Event.stopWorker id true ok
    if ok then
      ({ s with
          scaler := { s.scaler with managed := s.scaler.managed.filter fun entry => entry.1 != id }
          tick := .waiting
          stopped := id :: s.stopped }, [event])
    else ({ s with tick := .waiting }, [event])
  | .nothing => ({ s with tick := .waiting }, [])

theorem tick_of_act {ps : Params} {s t : State} {now : Nat} {ok : Bool} {d : Decision}
    {es : List Event} (h : act ps s now ok d = (t, es)) :
    t.tick = .waiting := by
  have hact : (act ps s now ok d).1.tick = .waiting := by
    cases d with
    | stop id => cases ok <;> rfl
    | _ => rfl
  rwa [h] at hact

def step (ps : Params) (s : State) : Action → Option (State × List Event)
  | .register id address capacity now =>
    if h : validWorkerID id = true then
      some ({ s with pool := s.pool.register id address capacity now h }, [])
    else none
  | .heartbeat id activeTasks now =>
    some ({ s with pool := (s.pool.recordHeartbeat id activeTasks now).1 }, [])
  | .sweep now order =>
    (s.pool.range order).map fun entries =>
      ({ s with pool := (s.pool.sweep ps.timeout now entries).1 }, [])
  | .tick now =>
    match s.tick with
    | .waiting => some ({ s with tick := .reconcile now s.pool.snapshot }, [])
    | _ => none
  | .reconcile failing =>
    match s.tick with
    | .reconcile now byID =>
      let (scaler, gone) := reconcile ps.cfg.new now byID s.scaler
      some ({ s with scaler, tick := .decide now byID,
                     stopped := gone.filter (· ∉ failing) ++ s.stopped },
        gone.map fun id => .stopWorker id false (id ∉ failing))
    | _ => none
  | .decide queue order ok =>
    match s.tick with
    | .decide now byID =>
      (s.scaler.range order).map fun entries =>
        act ps s now ok (decision ps.cfg.new now byID s.scaler queue entries)
    | _ => none

inductive Steps (ps : Params) (s : State) : Action → State → List Event → Prop
  | register {id address capacity now} (h : validWorkerID id = true) :
      Steps ps s (.register id address capacity now)
        { s with pool := s.pool.register id address capacity now h } []
  | heartbeat {id activeTasks now} :
      Steps ps s (.heartbeat id activeTasks now)
        { s with pool := (s.pool.recordHeartbeat id activeTasks now).1 } []
  | sweep {now order entries} : s.pool.range order = some entries →
      Steps ps s (.sweep now order)
        { s with pool := (s.pool.sweep ps.timeout now entries).1 } []
  | tick {now} : s.tick = .waiting →
      Steps ps s (.tick now) { s with tick := .reconcile now s.pool.snapshot } []
  | reconcile {now byID failing scaler gone} : s.tick = .reconcile now byID →
      reconcile ps.cfg.new now byID s.scaler = (scaler, gone) →
      Steps ps s (.reconcile failing)
        { s with scaler, tick := .decide now byID,
                 stopped := gone.filter (· ∉ failing) ++ s.stopped }
        (gone.map fun id => .stopWorker id false (id ∉ failing))
  | decide {now byID} {queue : Nat} {order entries ok t es} : s.tick = .decide now byID →
      s.scaler.range order = some entries →
      act ps s now ok (decision ps.cfg.new now byID s.scaler queue entries) = (t, es) →
      Steps ps s (.decide queue order ok) t es

theorem steps_of_step {ps : Params} {s t : State} {a : Action} {es : List Event}
    (h : step ps s a = some (t, es)) : Steps ps s a t es := by
  cases a with
  | register id address capacity now =>
    simp only [step, Option.dite_none_right_eq_some, Option.some.injEq, Prod.mk.injEq] at h
    obtain ⟨hid, rfl, rfl⟩ := h
    exact .register hid
  | heartbeat id activeTasks now =>
    cases h
    exact .heartbeat
  | sweep now order =>
    simp only [step, Option.map_eq_some_iff, Prod.mk.injEq] at h
    obtain ⟨entries, hentries, rfl, rfl⟩ := h
    exact .sweep hentries
  | tick now =>
    match htick : s.tick with
    | .waiting =>
      simp only [step, htick, Option.some.injEq, Prod.mk.injEq] at h
      obtain ⟨rfl, rfl⟩ := h
      exact .tick htick
    | .reconcile _ _ | .decide _ _ => simp [step, htick] at h
  | reconcile failing =>
    match htick : s.tick with
    | .reconcile now byID =>
      simp only [step, htick, Option.some.injEq, Prod.mk.injEq] at h
      obtain ⟨rfl, rfl⟩ := h
      exact .reconcile htick rfl
    | .waiting | .decide _ _ => simp [step, htick] at h
  | decide queue order ok =>
    match htick : s.tick with
    | .decide now byID =>
      simp only [step, htick, Option.map_eq_some_iff] at h
      obtain ⟨entries, hentries, hact⟩ := h
      exact .decide htick hentries hact
    | .waiting | .reconcile _ _ => simp [step, htick] at h

def machine (ps : Params) : Lib.Machine State Action Event := ⟨step ps⟩

end Autoscaler

end Minimodal
