import Minimodal.Server.Terminal

namespace Minimodal

namespace Server

def Mem.cached (m : Mem) (workerID : String) : Option String :=
  m.channels.bind fun channels => channels[workerID]?

/-- The worker that `Dispatch` has picked, with the address it took from the pool or, once it
has a connection, the address of that. -/
def Drainer.target : Drainer → Option (String × String)
  | .dispatch _ (.mark _ _ workerID address) | .dispatch _ (.dial _ _ workerID address) =>
    some (workerID, address)
  | .dispatch _ (.send _ _ workerID conn) => some (workerID, conn)
  | _ => none

/-- A worker registers under another address only while no connection to it is cached and
`Dispatch` is not about to call it. -/
def movesCold (s : State) : Action → Bool
  | .registerWorker req _ =>
    req.address == "" || (s.mem.pool.address req.workerID).all (· == req.address) ||
      ((s.mem.cached req.workerID).isNone &&
        s.drainer.target.all fun (workerID, _) => workerID != req.workerID)
  | _ => true

structure Coherent (m : Mem) (d : Drainer) : Prop where
  cached : ∀ w conn, m.cached w = some conn → m.pool.address w = some conn
  target : ∀ w address, d.target = some (w, address) → m.pool.address w = some address

section Operations

variable {cfg : Config} {m m' : Mem} {ch : Choice} {op : Op} {r : op.Res} {es : List Event}

theorem perform_address (h : perform cfg m ch op = some (m', r, es)) (x : String) :
    m'.pool.address x = m.pool.address x := by
  cases performs_of_perform h with
  | @tick entries _ _ _ _ hsweep =>
    have hpool := m.pool.address_sweep cfg.workerTimeout ch.now entries x
    rw [hsweep] at hpool
    exact hpool
  | _ => rfl

theorem perform_cached (h : perform cfg m ch op = some (m', r, es)) {w conn : String}
    (hc : m'.cached w = some conn) : m.cached w = some conn ∨ op = .getOrDial w conn := by
  cases performs_of_perform h with
  | @dial v address channels hchannels =>
    simp only [Mem.cached, Option.bind_some, Std.ExtTreeMap.getElem?_insert] at hc
    split at hc
    · rename_i hv
      simp only [Option.some.injEq] at hc
      rw [hc, Std.LawfulEqOrd.eq_of_compare hv]
      exact .inr rfl
    · exact .inl (by simpa [Mem.cached, hchannels] using hc)
  | @dropChannel v =>
    refine .inl ?_
    cases hchannels : m.channels with
    | none => simp [Mem.cached, hchannels] at hc
    | some channels =>
      simp only [Mem.cached, hchannels, Option.map_some, Option.bind_some,
        Std.ExtTreeMap.getElem?_erase] at hc
      split at hc
      · simp at hc
      · simpa [Mem.cached, hchannels] using hc
  | _ => exact .inl hc

theorem getOrDial_some {w address conn : String} {r : Op.Res (.getOrDial w address)}
    (h : perform cfg m ch (.getOrDial w address) = some (m', r, es)) (hr : r = some conn) :
    m.cached w = some conn ∨ conn = address := by
  cases performs_of_perform h with
  | closed | dialError => simp at hr
  | cached hchannels hconn =>
    obtain rfl := Option.some.inj hr
    exact .inl (by simpa [Mem.cached, hchannels] using hconn)
  | dial => exact .inr (Option.some.inj hr).symm

end Operations

section Steps

variable {cfg : Config} {m m' : Mem} {ch : Choice} {es : List Event}

theorem Main.code_ne_getOrDial {pc : Main} {stmt : Code Main} (h : Main.code pc = some stmt)
    (w address : String) : stmt.op ≠ .getOrDial w address := by
  cases pc with
  | down | serving => simp [code] at h
  | enqueue jobID pc jobs =>
    cases h
    cases pc <;> simp [EnqueuePc.code]
  | list | replay =>
    cases h
    simp

theorem Detector.code_ne_getOrDial {d : Detector} {stmt : Code Detector}
    (h : Detector.code cfg d = some stmt) (w address : String) :
    stmt.op ≠ .getOrDial w address := by
  cases d with
  | stopped => simp [code] at h
  | owed dead =>
    cases dead <;>
    · cases h
      simp
  | reassign =>
    cases h
    simp
  | enqueue workerID jobID pc jobs dead =>
    cases h
    cases pc <;> simp [EnqueuePc.code]
  | notify workerID jobID pc jobs dead =>
    cases h
    cases pc <;> simp [NotifyPc.code]

theorem Handler.code_ne_getOrDial {call : Nat} {p : Handler} {stmt : Code Handler}
    (h : Handler.code call p = some stmt) (w address : String) :
    stmt.op ≠ .getOrDial w address := by
  cases p with
  | idle => simp [code] at h
  | enqueue req jobID pc =>
    cases h
    cases pc <;> simp [EnqueuePc.code]
  | notify req pc =>
    cases h
    cases pc <;> simp [NotifyPc.code]
  | count req =>
    simp only [code] at h
    split at h <;>
    · cases h
      simp
  | _ =>
    cases h
    simp

theorem Drainer.target_of_getOrDial {d : Drainer} {stmt : Code Drainer} {w address : String}
    (h : Drainer.code cfg d = some stmt) (hop : stmt.op = .getOrDial w address) :
    d.target = some (w, address) := by
  cases d with
  | stopped => simp [code] at h
  | dispatch a pc =>
    cases h
    cases pc with
    | dial rec tried v conn =>
      simp only [DispatchPc.code, Op.getOrDial.injEq] at hop
      obtain ⟨rfl, rfl⟩ := hop
      rfl
    | _ => simp [DispatchPc.code] at hop
  | notify a exhausted pc =>
    cases h
    cases pc <;> simp [NotifyPc.code] at hop
  | _ =>
    cases h
    simp at hop

theorem Drainer.target_return (a : Attempt) : (return_ a).target = none :=
  return_ind a rfl rfl

theorem Drainer.target_retry (a : Attempt) : (retry cfg a).target = none :=
  retry_ind a rfl rfl

theorem Drainer.Steps.target_cases {d d' : Drainer} {w address : String}
    (h : Drainer.Steps cfg m ch d m' d' es) (ht : d'.target = some (w, address)) :
    m.pool.address w = some address ∨ d.target = some (w, address) ∨
      ∃ a rec tried addr, d = .dispatch a (.dial rec tried w addr) := by
  cases h with
  | pick hget =>
    simp only [Drainer.target, Option.some.injEq, Prod.mk.injEq] at ht
    obtain ⟨rfl, rfl⟩ := ht
    exact .inl (by simp [WorkerPool.address, hget])
  | mark => exact .inr (.inl ht)
  | dial =>
    simp only [Drainer.target, Option.some.injEq, Prod.mk.injEq] at ht
    exact .inr (.inr ⟨_, _, _, _, by rw [ht.1]⟩)
  | loadTerminal | markSkip | accepted | backoffStop | recordFailed => simp [target_return] at ht
  | stall => simp [target_retry] at ht
  | pickNone =>
    split at ht
    · simp [target_retry] at ht
    · simp [Drainer.target] at ht
  | notified =>
    split at ht
    · simp [Drainer.target] at ht
    · simp [target_return] at ht
  | _ => simp [Drainer.target] at ht

theorem Drainer.Steps.target_of_executeTask {d d' : Drainer} {w conn : String}
    {req : ExecuteTaskRequest} (h : Drainer.Steps cfg m ch d m' d' es)
    (hev : Event.executeTask w conn req ∈ es) : d.target = some (w, conn) := by
  cases h with
  | send =>
    simp only [List.mem_singleton, Event.executeTask.injEq] at hev
    obtain ⟨rfl, rfl, -⟩ := hev
    rfl
  | _ => simp at hev

theorem Coherent.fresh (store : BoltStore) : Coherent { store } .idle where
  cached w conn h := by simp [Mem.cached] at h
  target w address h := by simp [Drainer.target] at h

theorem Coherent.perform {d : Drainer} {op : Op} {r : op.Res} (h : Coherent m d)
    (hp : perform cfg m ch op = some (m', r, es))
    (hdial : ∀ w conn, op = .getOrDial w conn → d.target = some (w, conn)) : Coherent m' d where
  cached w conn hc := by
    rw [perform_address hp]
    rcases perform_cached hp hc with hc | hop
    · exact h.cached w conn hc
    · exact h.target w conn (hdial w conn hop)
  target w address ht := by
    rw [perform_address hp]
    exact h.target w address ht

theorem Coherent.drainer {d : Drainer} {stmt : Code Drainer} {r : stmt.op.Res} (h : Coherent m d)
    (hcode : Drainer.code cfg d = some stmt) (hp : Server.perform cfg m ch stmt.op = some (m', r, es)) :
    Coherent m' (stmt.next r) where
  cached := (h.perform hp fun _ _ => Drainer.target_of_getOrDial hcode).cached
  target w address ht := by
    rw [perform_address hp]
    rcases (Drainer.steps hcode hp).target_cases ht with ha | hd | ⟨a, rec, tried, addr, rfl⟩
    · exact ha
    · exact h.target w address hd
    · cases hcode
      rcases hr : r with _ | conn
      · simp [hr, DispatchPc.code, Drainer.target] at ht
      · simp only [hr, DispatchPc.code, Drainer.target, Option.some.injEq, Prod.mk.injEq,
          true_and] at ht
        subst ht
        rcases getOrDial_some hp hr with hc | rfl
        · exact h.cached w conn hc
        · exact h.target w conn rfl

variable {s t : State} {a : Action}

theorem Coherent.register (h : Coherent s.mem s.drainer) {req : RegisterWorkerRequest} {now : Nat}
    (hok : movesCold s (.registerWorker req now) = true) :
    Coherent { s.mem with pool := (registerWorker cfg s.mem.pool req now).1 } s.drainer := by
  unfold registerWorker
  split
  · rename_i hvalid
    have hempty : (req.address == "") = false := by simpa using hvalid.2
    simp only [movesCold, hempty, Bool.false_or, Bool.or_eq_true, Bool.and_eq_true] at hok
    -- whoever knows the worker knows the address it registers under now
    have hnew : ∀ w conn, (s.mem.cached w = some conn ∨ s.drainer.target = some (w, conn)) →
        req.workerID = w → s.mem.pool.address w = some conn → conn = req.address := by
      rintro w conn hknown rfl haddr
      rcases hok with hsame | ⟨hcold, htarget⟩
      · simpa [haddr] using hsame
      · rcases hknown with hc | ht
        · simp [hc] at hcold
        · simp [ht] at htarget
    constructor
    · intro w conn hc
      have haddr := h.cached w conn hc
      rw [WorkerPool.address_register]
      split
      · rename_i hw
        rw [hnew w conn (.inl hc) hw haddr]
      · exact haddr
    · intro w conn ht
      have haddr := h.target w conn ht
      rw [WorkerPool.address_register]
      split
      · rename_i hw
        rw [hnew w conn (.inr ht) hw haddr]
      · exact haddr
  · exact h

theorem heartbeat_address (p : WorkerPool) (req : HeartbeatRequest) (now : Nat) (x : String) :
    (heartbeat p req now).1.address x = p.address x := by
  unfold heartbeat
  split
  · rfl
  · exact p.address_recordHeartbeat req.workerID req.activeTasks now x

theorem Coherent.step (h : Coherent s.mem s.drainer) (hok : movesCold s a = true)
    (hst : Stepped cfg s a t es) : Coherent t.mem t.drainer := by
  cases hst with
  | start | crash => exact .fresh s.mem.store
  | beginShutdown | cancel => exact ⟨h.cached, h.target⟩
  | close => exact ⟨fun w conn hc => by simp [Mem.cached] at hc, h.target⟩
  | main hcode hp =>
    exact h.perform hp fun w conn hop => absurd hop (Main.code_ne_getOrDial hcode w conn)
  | drainer _ hcode hp => exact h.drainer hcode hp
  | detector _ hcode hp =>
    exact h.perform hp fun w conn hop => absurd hop (Detector.code_ne_getOrDial hcode w conn)
  | call hcode hp =>
    exact h.perform hp fun w conn hop => absurd hop (Handler.code_ne_getOrDial hcode w conn)
  | invokeFunction | accept => exact h
  | registerWorker => exact h.register hok
  | @heartbeat req now =>
    constructor
    · intro w conn hc
      rw [heartbeat_address]
      exact h.cached w conn hc
    · intro w conn ht
      rw [heartbeat_address]
      exact h.target w conn ht

end Steps

/-- Tasks go to the address under which their worker registered last, if no worker changes its
address while `Dispatch` has a connection to it or is about to call it: each cached connection
was dialled to the worker's address in the pool, `sendExecuteTask` uses a connection to the
address it was given, and so does every `ExecuteTask`. -/
theorem channels_follow_registration (cfg : Config) {as : List Action} {es : List Event}
    {s : State} (h : (machine cfg).Run (fun s a => movesCold s a = true) init as es s) :
    (∀ channels w conn ws, s.mem.channels = some channels → channels[w]? = some conn →
      s.mem.pool.workers.get w = some ws → conn = ws.address) ∧
    (∀ a rec tried w address ch t fs conn, s.drainer = .dispatch a (.dial rec tried w address) →
      step cfg s (.drainer ch) = some (t, fs) →
      t.drainer = .dispatch a (.send rec tried w conn) → conn = address) ∧
    ∀ ch t fs w conn req, step cfg s (.drainer ch) = some (t, fs) →
      .executeTask w conn req ∈ fs →
      ∃ ws, s.mem.pool.workers.get w = some ws ∧ conn = ws.address := by
  have hco : Coherent s.mem s.drainer := by
    refine h.invariant (P := fun s => Coherent s.mem s.drainer) (.fresh .empty) fun t a u e ht hok hst => ?_
    exact ht.step hok (stepped_of_step hst)
  refine ⟨fun channels w conn ws hchannels hconn hws => ?_,
    fun a rec tried w address ch t fs conn hd hst ht => ?_,
    fun ch t fs w conn req hst hev => ?_⟩
  · have hc : s.mem.cached w = some conn := by simpa [Mem.cached, hchannels] using hconn
    simpa [WorkerPool.address, hws, eq_comm] using hco.cached w conn hc
  · have hbefore := hco.target w address (congrArg Drainer.target hd)
    obtain ⟨stmt, mem, q, -, hcode, hp, rfl⟩ := step_drainer hst
    have hafter := (hco.drainer hcode hp).target w conn (congrArg Drainer.target ht)
    rw [perform_address hp, hbefore] at hafter
    exact (Option.some.inj hafter).symm
  · obtain ⟨stmt, mem, q, -, hcode, hp, rfl⟩ := step_drainer hst
    have haddr := hco.target w conn ((Drainer.steps hcode hp).target_of_executeTask hev)
    obtain ⟨ws, hws, hconn⟩ := Option.map_eq_some_iff.mp haddr
    exact ⟨ws, hws, hconn.symm⟩

def sampleCached : List Action :=
  sampleSubmit ++ sampleDispatch ++
    ([.invokeFunction 1 { functionBytes := [3] } "k" 4, .call 1 { now := 5 }, .call 1 {},
      .call 1 {}, .call 1 {}, .call 1 {}] : List Action)

def sampleSameAddress : State × List Event :=
  ((machine sampleConfig).exec movesCold init
    (sampleCached ++ ([.registerWorker ⟨"w", "host:1", 1⟩ 6, .drainer {}, .drainer {},
      .drainer { order := ["w"] }, .drainer { now := 7 }, .drainer {}] : List Action))).get
    (by decide)

theorem channels_follow_registration_sample :
    ∃ t fs, step sampleConfig sampleSameAddress.1 (.drainer {}) = some (t, fs) ∧
      .executeTask "w" "host:1" ⟨"k", [3], [], ""⟩ ∈ fs ∧
      ∃ ws, sampleSameAddress.1.mem.pool.workers.get "w" = some ws ∧ "host:1" = ws.address := by
  have hrun : (machine sampleConfig).Run (fun s a => movesCold s a = true) init _
      sampleSameAddress.2 sampleSameAddress.1 := Lib.Machine.run_of_exec_get (by decide)
  have hev : Event.executeTask "w" "host:1" ⟨"k", [3], [], ""⟩ ∈
      [Event.executeTask "w" "host:1" ⟨"k", [3], [], ""⟩] := List.mem_singleton_self _
  exact ⟨_, _, rfl, hev,
    (channels_follow_registration sampleConfig hrun).2.2 {} _ _ "w" "host:1" _ rfl hev⟩

def sampleReaddressed : State × List Event :=
  ((machine sampleConfig).exec (fun _ _ => true) init
    (sampleCached ++ ([.registerWorker ⟨"w", "host:2", 1⟩ 6, .drainer {}, .drainer {},
      .drainer { order := ["w"] }, .drainer { now := 7 }] : List Action))).get (by decide)

/-- `sendExecuteTask` is given the new address and uses the connection to the old one. -/
theorem task_sent_to_old_address : ∃ as es s a rec tried t u fs,
    (machine sampleConfig).Run Lib.Machine.Always init as es s ∧
      s.mem.pool.address "w" = some "host:2" ∧ s.mem.cached "w" = some "host:1" ∧
      s.drainer = .dispatch a (.dial rec tried "w" "host:2") ∧
      step sampleConfig s (.drainer {}) = some (t, []) ∧
      t.drainer = .dispatch a (.send rec tried "w" "host:1") ∧
      step sampleConfig t (.drainer {}) = some (u, fs) ∧
      .executeTask "w" "host:1" rec.executeTaskRequest ∈ fs :=
  ⟨_, sampleReaddressed.2, sampleReaddressed.1, _, _, _, _, _, _,
    (Lib.Machine.run_of_exec_get (by decide)).mono fun _ _ _ => trivial, rfl, by decide, rfl, rfl,
    rfl, rfl, List.mem_singleton_self _⟩

end Server

end Minimodal
