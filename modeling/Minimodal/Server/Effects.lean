import Minimodal.Server.Machine

namespace Minimodal

namespace Server

inductive Transits (m : Mem) (ch : Choice) (jobID : String) (mutate : Mutator) :
    Mem → Captured → Except Err Bool → Prop
  | commit {r r' c} (hkey : validKey jobID = true) : ch.fault = none →
      m.store.jobs.get jobID = some r → mutate.run {} r = (c, .ok r') →
      Transits m ch jobID mutate
        { m with store.jobs := m.store.jobs.insert jobID (r'.stamp ch.now) hkey } c (.ok true)
  | skip {r c} : ch.fault = none → m.store.jobs.get jobID = some r →
      mutate.run {} r = (c, .error .errSkipTransition) → Transits m ch jobID mutate m c (.ok false)
  | error {c msg} : (ch.fault = some msg ∨ m.store.jobs.get jobID = none) →
      Transits m ch jobID mutate m c (.error (.errorf msg))

variable {cfg : Config} {m m' : Mem} {ch : Choice} {es : List Event} {jobID : String}
  {mutate : Mutator}

theorem transits_of_perform {r : Op.Res (.transition jobID mutate)}
    (h : perform cfg m ch (.transition jobID mutate) = some (m', r, es)) :
    Transits m ch jobID mutate m' r.1 r.2 ∧ es = [.transitioned jobID mutate r.2] := by
  cases performs_of_perform h with
  | transitionFault hf => exact ⟨.error (.inl hf), rfl⟩
  | transition hf hres =>
    refine ⟨?_, rfl⟩
    cases hget : m.store.jobs.get jobID with
    | none =>
      simp only [BoltStore.transitionWith, hget, Prod.mk.injEq] at hres
      obtain ⟨rfl, rfl, rfl⟩ := hres
      exact .error (.inr hget)
    | some r =>
      have hkey := Lib.Bucket.admitted_of_get hget
      rcases hrun : mutate.run {} r with ⟨c, _ | r'⟩
      · obtain rfl := (Mutator.skips_of_run hrun).2
        simp only [BoltStore.transitionWith, hget, hrun, Prod.mk.injEq] at hres
        obtain ⟨rfl, rfl, rfl⟩ := hres
        exact .skip hf hget hrun
      · simp only [BoltStore.transitionWith, hget, hrun, Bucket.tryPut_ok _ _ hkey,
          Prod.mk.injEq] at hres
        obtain ⟨rfl, rfl, rfl⟩ := hres
        exact .commit hkey hf hget hrun

theorem Transits.reap {maxRetries : Int} {c : Captured}
    (h : Transits m ch jobID (.reap maxRetries) m' c (.ok true)) :
    c.markedPending = true ∨ c.markedPending = false ∧ c.markedFailed = true := by
  cases h with
  | commit hkey hf hget hrun =>
    cases Mutator.rewrites_of_run hrun with
    | giveUp => exact .inr ⟨rfl, rfl⟩
    | requeue => exact .inl rfl

inductive Drainer.Steps (cfg : Config) (m : Mem) (ch : Choice) :
    Drainer → Mem → Drainer → List Event → Prop
  | receive {jobID rest} : m.pendingQueue = jobID :: rest →
      Steps cfg m ch .idle { m with pendingQueue := rest } (.dispatch { jobID } .load) []
  | stop : m.ctxDone = true → Steps cfg m ch .idle m .stopped []
  | load {a rec} : m.store.jobs.get a.jobID = some rec → rec.terminal = false →
      rec.functionBytes ≠ [] →
      Steps cfg m ch (.dispatch a .load) m (.dispatch a (.pick rec [])) []
  | loadMissing {a rec} : m.store.jobs.get a.jobID = some rec → rec.terminal = false →
      rec.functionBytes = [] →
      Steps cfg m ch (.dispatch a .load) m (.dispatch a .missingPayload) []
  | loadTerminal {a rec} : m.store.jobs.get a.jobID = some rec → rec.terminal = true →
      Steps cfg m ch (.dispatch a .load) m (return_ a) []
  | loadError {a msg} : (ch.fault.isSome = true ∨ m.store.jobs.get a.jobID = none) →
      Steps cfg m ch (.dispatch a .load) m (.fail a msg false) []
  | missingPayload {a m' c r msg} : Transits m ch a.jobID .missingPayload m' c r →
      Steps cfg m ch (.dispatch a .missingPayload) m' (.fail a msg false)
        [.transitioned a.jobID .missingPayload r]
  | pick {a rec tried workerID w} : m.pool.workers.get workerID = some w → w.alive = true →
      workerID ∉ tried →
      Steps cfg m ch (.dispatch a (.pick rec tried)) m
        (.dispatch a (.mark rec (workerID :: tried) workerID w.address)) []
  | pickNone {a rec tried} : Steps cfg m ch (.dispatch a (.pick rec tried)) m
      (if a.stalled then retry cfg a else .stall a) []
  | mark {a rec tried workerID address m' c} :
      Transits m ch a.jobID (.markRunning workerID) m' c (.ok true) →
      Steps cfg m ch (.dispatch a (.mark rec tried workerID address)) m'
        (.dispatch a (.dial rec tried workerID address))
        [.transitioned a.jobID (.markRunning workerID) (.ok true)]
  | markSkip {a rec tried workerID address m' c} :
      Transits m ch a.jobID (.markRunning workerID) m' c (.ok false) →
      Steps cfg m ch (.dispatch a (.mark rec tried workerID address)) m' (return_ a)
        [.transitioned a.jobID (.markRunning workerID) (.ok false)]
  | markError {a rec tried workerID address m' c e msg} :
      Transits m ch a.jobID (.markRunning workerID) m' c (.error e) →
      Steps cfg m ch (.dispatch a (.mark rec tried workerID address)) m' (.fail a msg false)
        [.transitioned a.jobID (.markRunning workerID) (.error e)]
  | dial {a rec tried workerID address channels conn} :
      Steps cfg m ch (.dispatch a (.dial rec tried workerID address)) { m with channels }
        (.dispatch a (.send rec tried workerID conn)) []
  | dialError {a rec tried workerID address} :
      Steps cfg m ch (.dispatch a (.dial rec tried workerID address)) m
        (.dispatch a (.revert rec tried)) []
  | send {a rec tried workerID conn} : m.ctxDone = false →
      Steps cfg m ch (.dispatch a (.send rec tried workerID conn)) m
        (.dispatch a (.await rec tried workerID))
        [.executeTask workerID conn rec.executeTaskRequest]
  | sendError {a rec tried workerID conn} : m.ctxDone = true →
      Steps cfg m ch (.dispatch a (.send rec tried workerID conn)) m
        (.dispatch a (.drop rec tried workerID)) []
  | accepted {a rec tried workerID} : ch.answer = .accepted → m.ctxDone = false →
      Steps cfg m ch (.dispatch a (.await rec tried workerID)) m (return_ a)
        [.answered workerID a.jobID .accepted]
  | rejected {a rec tried workerID} : ch.answer = .rejected → m.ctxDone = false →
      Steps cfg m ch (.dispatch a (.await rec tried workerID)) m (.dispatch a (.revert rec tried))
        [.answered workerID a.jobID .rejected]
  | failed {a rec tried workerID} : ch.answer = .failed →
      Steps cfg m ch (.dispatch a (.await rec tried workerID)) m
        (.dispatch a (.drop rec tried workerID)) [.answered workerID a.jobID .failed]
  | drop {a rec tried workerID channels} :
      Steps cfg m ch (.dispatch a (.drop rec tried workerID)) { m with channels }
        (.dispatch a (.revert rec tried)) []
  | revert {a rec tried m' c r} : Transits m ch a.jobID .revert m' c r →
      Steps cfg m ch (.dispatch a (.revert rec tried)) m' (.dispatch a (.pick rec tried))
        [.transitioned a.jobID .revert r]
  | stall {a stalledDispatches} : Steps cfg m ch (.stall a) { m with stalledDispatches }
      (retry cfg { a with stalled := true }) []
  | backoffStop {a} : m.ctxDone = true → Steps cfg m ch (.backoff a) m (return_ a) []
  | backoff {a a'} : a'.jobID = a.jobID → Steps cfg m ch (.backoff a) m (.dispatch a' .load) []
  | fail {a message exhausted m' c r} :
      Transits m ch a.jobID (.dispatchFailed message) m' c r →
      Steps cfg m ch (.fail a message exhausted) m' (.notify a exhausted .load)
        [.transitioned a.jobID (.dispatchFailed message) r]
  | notify {a exhausted rec} : m.store.jobs.get a.jobID = some rec → rec.terminal = true →
      Steps cfg m ch (.notify a exhausted .load) m (.notify a exhausted (.finish rec)) []
  | notified {a exhausted pc logHub} : Steps cfg m ch (.notify a exhausted pc) { m with logHub }
      (if exhausted then .recordFailed a else return_ a) []
  | recordFailed {a metrics} : Steps cfg m ch (.recordFailed a) { m with metrics } (return_ a) []
  | unstall {a stalledDispatches} :
      Steps cfg m ch (.unstall a) { m with stalledDispatches } .idle []

theorem getJob_some {id : String} {found : Option JobRecord} {r : Op.Res (.getJob id)}
    (h : perform cfg m ch (.getJob id) = some (m', r, es)) (hr : r = .ok found) :
    m' = m ∧ es = [] ∧ m.store.jobs.get id = found := by
  cases performs_of_perform h
  unfold view at hr
  split at hr
  · simp at hr
  · simp only [Except.ok.injEq] at hr
    exact ⟨rfl, rfl, hr⟩

theorem getJob_error {id : String} {e : Err} {r : Op.Res (.getJob id)}
    (h : perform cfg m ch (.getJob id) = some (m', r, es)) (hr : r = .error e) :
    m' = m ∧ es = [] ∧ ∃ msg, ch.fault = some msg ∧ e = .errorf msg := by
  cases performs_of_perform h
  unfold view at hr
  split at hr
  · rename_i msg hf
    simp only [Except.error.injEq] at hr
    exact ⟨rfl, rfl, msg, hf, hr.symm⟩
  · simp at hr

theorem Drainer.dispatched_errorf (a : Attempt) (msg : String) :
    dispatched cfg a (.error (.errorf msg)) =
      .fail a (dispatchFailedMessage (.errorf msg)) false := by
  simp [dispatched, Err.is]

theorem Drainer.dispatched_wrapf (a : Attempt) (msg msg' : String) :
    dispatched cfg a (.error (.wrapf msg (.errorf msg'))) =
      .fail a (dispatchFailedMessage (.wrapf msg (.errorf msg'))) false := by
  simp [dispatched, Err.is]

theorem Drainer.dispatched_terminal (a : Attempt) :
    dispatched cfg a (.error .errJobAlreadyTerminal) = return_ a := by
  simp [dispatched, Err.is]

theorem DispatchPc.steps {a : Attempt} {pc : DispatchPc}
    {r : (pc.code a.jobID (.dispatch a) (Drainer.dispatched cfg a)).op.Res}
    (h : perform cfg m ch (pc.code a.jobID (.dispatch a) (Drainer.dispatched cfg a)).op =
      some (m', r, es)) :
    Drainer.Steps cfg m ch (.dispatch a pc) m'
      ((pc.code a.jobID (.dispatch a) (Drainer.dispatched cfg a)).next r) es := by
  cases pc with
  | load =>
    rcases r with e | _ | rec
    · obtain ⟨rfl, rfl, msg, hf, rfl⟩ := getJob_error h rfl
      simp only [code, Drainer.dispatched_wrapf]
      exact .loadError (.inl (by simp [hf]))
    · obtain ⟨rfl, rfl, hget⟩ := getJob_some h rfl
      simp only [code, Drainer.dispatched_errorf]
      exact .loadError (.inr hget)
    · obtain ⟨rfl, rfl, hget⟩ := getJob_some h rfl
      simp only [code]
      split
      · rename_i ht
        rw [Drainer.dispatched_terminal]
        exact .loadTerminal hget ht
      · rename_i ht
        have ht : rec.terminal = false := by simpa using ht
        split
        · rename_i hempty
          exact .loadMissing hget ht (List.isEmpty_iff.mp hempty)
        · rename_i hload
          exact .load hget ht fun he => hload (List.isEmpty_iff.mpr he)
  | missingPayload =>
    obtain ⟨ht, rfl⟩ := transits_of_perform h
    simp only [code, Drainer.dispatched_errorf]
    exact .missingPayload ht
  | pick rec tried =>
    cases performs_of_perform h with
    | @leastLoaded _ entries hrange =>
      cases hbest : WorkerPool.leastLoadedAliveExcluding tried entries with
      | none =>
        have hret : Drainer.dispatched cfg a (.error
            (if tried.isEmpty then .errNoWorkersAvailable else .errAllWorkersExhausted)) =
            if a.stalled then Drainer.retry cfg a else .stall a := by
          cases htried : tried.isEmpty <;> simp [Drainer.dispatched, Err.is]
        simp only [code, hret]
        exact .pickNone
      | some entry =>
        obtain ⟨hm, halive, hex⟩ := WorkerPool.leastLoadedAliveExcluding_some hbest
        exact .pick (WorkerPool.get_of_mem_range hrange hm) halive hex
  | mark rec tried workerID address =>
    obtain ⟨ht, rfl⟩ := transits_of_perform h
    rcases r with ⟨c, e | _ | _⟩
    · cases ht with
      | error hbad =>
        simp only [code, Drainer.dispatched_wrapf]
        exact .markError (c := c) (.error hbad)
    · simp only [code, Drainer.dispatched_terminal]
      exact .markSkip ht
    · exact .mark ht
  | dial rec tried workerID address =>
    cases performs_of_perform h with
    | closed | dialError => exact .dialError
    | cached | dial => exact .dial
  | send rec tried workerID conn =>
    cases performs_of_perform h with
    | executeDone hctx => exact .sendError hctx
    | execute hctx => exact .send hctx
  | await rec tried workerID =>
    cases performs_of_perform h with
    | answer hctx =>
      cases hans : ch.answer with
      | accepted => exact .accepted hans (by simpa [hans] using hctx)
      | rejected => exact .rejected hans (by simpa [hans] using hctx)
      | failed => exact .failed hans
  | drop rec tried workerID =>
    cases performs_of_perform h
    exact .drop
  | revert rec tried =>
    obtain ⟨ht, rfl⟩ := transits_of_perform h
    exact .revert ht

theorem Drainer.steps {d : Drainer} {stmt : Code Drainer} {r : stmt.op.Res}
    (hcode : Drainer.code cfg d = some stmt) (h : perform cfg m ch stmt.op = some (m', r, es)) :
    Drainer.Steps cfg m ch d m' (stmt.next r) es := by
  cases d with
  | idle =>
    simp only [code, Option.some.injEq] at hcode
    subst hcode
    cases performs_of_perform h with
    | receiveDone _ hctx => exact .stop hctx
    | receive _ hqueue => exact .receive hqueue
  | dispatch a pc =>
    simp only [code, Option.some.injEq] at hcode
    subst hcode
    exact DispatchPc.steps h
  | stall a =>
    simp only [code, Option.some.injEq] at hcode
    subst hcode
    cases performs_of_perform h
    exact .stall
  | backoff a =>
    simp only [code, Option.some.injEq] at hcode
    subst hcode
    cases performs_of_perform h with
    | wait hctx =>
      cases hstop : ch.stop with
      | true => exact .backoffStop (hctx hstop)
      | false => exact .backoff rfl
  | fail a message exhausted =>
    simp only [code, Option.some.injEq] at hcode
    subst hcode
    obtain ⟨ht, rfl⟩ := transits_of_perform h
    exact .fail ht
  | notify a exhausted pc =>
    simp only [code, Option.some.injEq] at hcode
    subst hcode
    cases pc with
    | load =>
      rcases r with e | _ | rec
      · obtain ⟨rfl, rfl, -⟩ := getJob_error h rfl
        exact .notified
      · obtain ⟨rfl, rfl, -⟩ := getJob_some h rfl
        exact .notified
      · obtain ⟨rfl, rfl, hget⟩ := getJob_some h rfl
        simp only [NotifyPc.code]
        split
        · rename_i ht
          exact .notify hget ht
        · exact .notified
    | finish rec =>
      cases performs_of_perform h
      exact .notified
  | recordFailed a =>
    simp only [code, Option.some.injEq] at hcode
    subst hcode
    cases performs_of_perform h
    exact .recordFailed
  | unstall a =>
    simp only [code, Option.some.injEq] at hcode
    subst hcode
    cases performs_of_perform h
    exact .unstall
  | stopped => simp [code] at hcode

inductive Detector.Steps (cfg : Config) (m : Mem) (ch : Choice) :
    Detector → Mem → Detector → List Event → Prop
  | stop : m.ctxDone = true → Steps cfg m ch (.owed []) m .stopped []
  | sweep {entries} : m.pool.range ch.order = some entries →
      Steps cfg m ch (.owed [])
        { m with pool := (m.pool.sweep cfg.workerTimeout ch.now entries).1 }
        (.owed (m.pool.sweep cfg.workerTimeout ch.now entries).2)
        ((m.pool.sweep cfg.workerTimeout ch.now entries).2.map .declaredDead)
  | list {workerID dead} : ch.fault = none →
      Steps cfg m ch (.owed (workerID :: dead)) m
        (next workerID (m.store.listRunningOnWorker workerID) dead) []
  | listError {workerID dead} : ch.fault.isSome = true →
      Steps cfg m ch (.owed (workerID :: dead)) m (.owed dead) []
  | requeue {workerID job jobs dead m' c} :
      Transits m ch job.id (.reap cfg.maxRetries) m' c (.ok true) → c.markedPending = true →
      Steps cfg m ch (.reassign workerID job jobs dead) m'
        (.enqueue workerID job.id .check jobs dead)
        [.transitioned job.id (.reap cfg.maxRetries) (.ok true)]
  | giveUp {workerID job jobs dead m' c} :
      Transits m ch job.id (.reap cfg.maxRetries) m' c (.ok true) → c.markedPending = false →
      Steps cfg m ch (.reassign workerID job jobs dead) m'
        (.notify workerID job.id .load jobs dead)
        [.transitioned job.id (.reap cfg.maxRetries) (.ok true)]
  | skip {workerID job jobs dead m' c r} :
      Transits m ch job.id (.reap cfg.maxRetries) m' c r → r ≠ .ok true →
      Steps cfg m ch (.reassign workerID job jobs dead) m' (next workerID jobs dead)
        [.transitioned job.id (.reap cfg.maxRetries) r]
  | check {workerID jobID jobs dead} : m.shuttingDown = false →
      Steps cfg m ch (.enqueue workerID jobID .check jobs dead) m
        (.enqueue workerID jobID .send jobs dead) []
  | checkSkip {workerID jobID jobs dead} : m.shuttingDown = true →
      Steps cfg m ch (.enqueue workerID jobID .check jobs dead) m (next workerID jobs dead) []
  | send {workerID jobID jobs dead} : m.pendingQueue.length < pendingQueueSize →
      Steps cfg m ch (.enqueue workerID jobID .send jobs dead)
        { m with pendingQueue := m.pendingQueue ++ [jobID] } (next workerID jobs dead) []
  | notify {workerID jobID rec jobs dead} : m.store.jobs.get jobID = some rec →
      rec.terminal = true →
      Steps cfg m ch (.notify workerID jobID .load jobs dead) m
        (.notify workerID jobID (.finish rec) jobs dead) []
  | notified {workerID jobID pc jobs dead logHub} :
      Steps cfg m ch (.notify workerID jobID pc jobs dead) { m with logHub }
        (next workerID jobs dead) []

theorem Detector.steps {d : Detector} {stmt : Code Detector} {r : stmt.op.Res}
    (hcode : Detector.code cfg d = some stmt) (h : perform cfg m ch stmt.op = some (m', r, es)) :
    Detector.Steps cfg m ch d m' (stmt.next r) es := by
  cases d with
  | owed dead =>
    cases dead with
    | nil =>
      simp only [code, Option.some.injEq] at hcode
      subst hcode
      cases performs_of_perform h with
      | tickDone _ hctx => exact .stop hctx
      | tick _ hrange hsweep =>
        obtain ⟨rfl, rfl⟩ := Prod.mk.inj hsweep
        exact .sweep hrange
    | cons workerID dead =>
      simp only [code, Option.some.injEq] at hcode
      subst hcode
      cases performs_of_perform h
      cases hf : ch.fault with
      | none => exact .list hf
      | some msg => exact .listError (by simp [hf])
  | reassign workerID job jobs dead =>
    simp only [code, Option.some.injEq] at hcode
    subst hcode
    obtain ⟨ht, rfl⟩ := transits_of_perform h
    rcases r with ⟨c, e | _ | _⟩
    · exact .skip ht (by simp)
    · exact .skip ht (by simp)
    · simp only
      rcases ht.reap with hp | ⟨hp, hfail⟩
      · rw [if_pos hp]
        exact .requeue ht hp
      · have hp : c.markedPending = false := hp
        rw [if_neg (by simp [hp]), if_pos hfail]
        exact .giveUp ht hp
  | enqueue workerID jobID pc jobs dead =>
    simp only [code, Option.some.injEq] at hcode
    subst hcode
    cases pc with
    | check =>
      cases performs_of_perform h
      cases hdown : m.shuttingDown with
      | true => exact .checkSkip hdown
      | false => exact .check hdown
    | send =>
      cases performs_of_perform h with
      | send hlen => exact .send hlen
  | notify workerID jobID pc jobs dead =>
    simp only [code, Option.some.injEq] at hcode
    subst hcode
    cases pc with
    | load =>
      rcases r with e | _ | rec
      · obtain ⟨rfl, rfl, -⟩ := getJob_error h rfl
        exact .notified
      · obtain ⟨rfl, rfl, -⟩ := getJob_some h rfl
        exact .notified
      · obtain ⟨rfl, rfl, hget⟩ := getJob_some h rfl
        simp only [NotifyPc.code]
        split
        · rename_i ht
          exact .notify hget ht
        · exact .notified
    | finish rec =>
      cases performs_of_perform h
      exact .notified
  | stopped => simp [code] at hcode

inductive Main.Steps (m : Mem) (ch : Choice) : Main → Mem → Main → List Event → Prop
  | list : ch.fault = none → Steps m ch .list m (next m.store.listUnfinished) []
  | listError : ch.fault.isSome = true → Steps m ch .list m .down []
  | replay {job jobs m' c b} : Transits m ch job.id .recover m' c (.ok b) →
      Steps m ch (.replay job jobs) m' (.enqueue job.id .check jobs)
        [.transitioned job.id .recover (.ok b)]
  | replayError {job jobs m' c e} : Transits m ch job.id .recover m' c (.error e) →
      Steps m ch (.replay job jobs) m' (next jobs) [.transitioned job.id .recover (.error e)]
  | check {jobID jobs} : m.shuttingDown = false →
      Steps m ch (.enqueue jobID .check jobs) m (.enqueue jobID .send jobs) []
  | checkSkip {jobID jobs} : m.shuttingDown = true →
      Steps m ch (.enqueue jobID .check jobs) m (next jobs) []
  | send {jobID jobs} : m.pendingQueue.length < pendingQueueSize →
      Steps m ch (.enqueue jobID .send jobs)
        { m with pendingQueue := m.pendingQueue ++ [jobID] } (next jobs) []

theorem Main.steps {pc : Main} {stmt : Code Main} {r : stmt.op.Res}
    (hcode : Main.code pc = some stmt) (h : perform cfg m ch stmt.op = some (m', r, es)) :
    Main.Steps m ch pc m' (stmt.next r) es := by
  cases pc with
  | list =>
    simp only [code, Option.some.injEq] at hcode
    subst hcode
    cases performs_of_perform h
    cases hf : ch.fault with
    | none => exact .list hf
    | some msg => exact .listError (by simp [hf])
  | replay job jobs =>
    simp only [code, Option.some.injEq] at hcode
    subst hcode
    obtain ⟨ht, rfl⟩ := transits_of_perform h
    rcases r with ⟨c, e | b⟩
    · exact .replayError ht
    · exact .replay ht
  | enqueue jobID pc jobs =>
    simp only [code, Option.some.injEq] at hcode
    subst hcode
    cases pc with
    | check =>
      cases performs_of_perform h
      cases hdown : m.shuttingDown with
      | true => exact .checkSkip hdown
      | false => exact .check hdown
    | send =>
      cases performs_of_perform h with
      | send hlen => exact .send hlen
  | down => simp [code] at hcode
  | serving => simp [code] at hcode

end Server

end Minimodal
