import Minimodal.Lib.Count
import Minimodal.Server.Cache
import Minimodal.Server.Writes

namespace Minimodal

def Metrics.inFlightJobs (m : Metrics) : Int :=
  m.totalInvocations - m.totalCompleted - m.totalFailed

def BoltStore.count (s : BoltStore) (p : JobRecord → Bool) : Nat := s.jobs.count p

theorem BoltStore.count_statuses (s : BoltStore) :
    s.count (fun _ => true) = s.count (·.status = .pending) + s.count (·.status = .running) +
      s.count (·.status = .done) + s.count (·.status = .failed) := by
  simp only [count, Lib.Bucket.count]
  induction s.jobs.forEach with
  | nil => rfl
  | cons x l ih =>
    simp only [List.countP_cons]
    cases hs : x.2.status <;> simp only [reduceCtorEq, decide_true, decide_false, if_true,
      Bool.false_eq_true, if_false] <;> omega

namespace Server

inductive Counter
  | invocations
  | completed
  | failed
  deriving DecidableEq

def Counter.total (m : Metrics) : Counter → Int
  | .invocations => m.totalInvocations
  | .completed => m.totalCompleted
  | .failed => m.totalFailed

def Counter.counts : Counter → JobRecord → Bool
  | .invocations, _ => true
  | .completed, r => r.status = .done
  | .failed, r => r.status = .failed

def reportCounter (req : ReportTaskResultRequest) : Counter :=
  if req.success then .completed else .failed

def Handler.owes (k : Counter) : Handler → Bool
  | .enqueue _ _ _ | .recordInvocation _ _ => k = .invocations
  | .notify req _ | .recordColdStart req | .count req => k = reportCounter req
  | _ => false

def Drainer.owes (k : Counter) : Drainer → Bool
  | .notify _ exhausted _ => exhausted && k = .failed
  | .recordFailed _ => k = .failed
  | _ => false

def Op.increments (k : Counter) : Op → Bool
  | .recordInvocation => k = .invocations
  | .recordCompleted => k = .completed
  | .recordFailed => k = .failed
  | _ => false

variable {cfg : Config} {s t : State} {a : Action} {es : List Event} {m m' : Mem} {ch : Choice}
  {k : Counter}

theorem perform_total {op : Op} {r : op.Res} (h : perform cfg m ch op = some (m', r, es)) :
    k.total m'.metrics = k.total m.metrics + (op.increments k).toNat := by
  cases performs_of_perform h with
  | recordInvocation | recordCompleted | recordFailed =>
    cases k <;> simp [Counter.total, Op.increments]
  | recordColdStart =>
    simp only [Metrics.recordColdStart]
    split <;> cases k <;> simp [Counter.total, Op.increments]
  | _ => simp [Op.increments]

theorem Handler.sendAll_owes (jobID : String) (evs : List JobEvent) (next : WatchNext) :
    (sendAll jobID evs next).owes k = false := by
  unfold sendAll
  split <;> rfl

theorem increments_of_code {Pc : Type} {op : Op} {next : op.Res → Pc} {stmt : Code Pc}
    (hcode : some ⟨op, next⟩ = some stmt) (hop : op.increments k = false) :
    stmt.op.increments k = false := by
  cases hcode
  exact hop

theorem Handler.owes_next {c : Nat} {h : Handler} {stmt : Code Handler}
    (hsubmit : ∀ req rec, h ≠ .submit req rec) (hreport : ∀ req, h ≠ .report req)
    (hcode : Handler.code c h = some stmt) (r : stmt.op.Res) :
    ((stmt.next r).owes k).toNat + (stmt.op.increments k).toNat = (h.owes k).toNat := by
  cases h with
  | idle => simp [code] at hcode
  | submit req rec => exact absurd rfl (hsubmit req rec)
  | report req => exact absurd rfl (hreport req)
  | enqueue req jobID pc =>
    simp only [code, Option.some.injEq] at hcode
    subst hcode
    have hnext := EnqueuePc.next_ind (motive := fun h => h.owes k = decide (k = .invocations))
      (fun _ => rfl) rfl pc r
    rw [hnext]
    cases pc <;> rfl
  | notify req pc =>
    simp only [code, Option.some.injEq] at hcode
    subst hcode
    have hnext := NotifyPc.next_ind (motive := fun h => h.owes k = decide (k = reportCounter req))
      (fun _ => rfl) rfl pc r
    rw [hnext]
    cases pc <;> rfl
  | count req =>
    simp only [code] at hcode
    split at hcode <;>
    · rename_i hs
      simp only [Option.some.injEq] at hcode
      subst hcode
      simp [owes, Op.increments, reportCounter, hs]
  | recordInvocation | recordColdStart =>
    simp only [code, Option.some.injEq] at hcode
    subst hcode
    simp [owes, Op.increments]
  | _ =>
    simp only [code, Option.some.injEq] at hcode
    subst hcode
    refine (Nat.add_zero _).trans (Bool.toNat_eq_zero.mpr ?_)
    simp only
    repeat' split
    all_goals
      first
        | rfl
        | exact sendAll_owes _ _ _

theorem Drainer.owes_return (a : Attempt) : (return_ a).owes k = false :=
  return_ind a rfl rfl

theorem Drainer.owes_retry (a : Attempt) : (retry cfg a).owes k = false :=
  retry_ind a rfl rfl

theorem Drainer.owes_dispatched (a : Attempt) (r : Except Err Unit) :
    (dispatched cfg a r).owes k = false :=
  dispatched_ind a r (owes_return a) (owes_retry a) rfl fun _ => rfl

theorem Drainer.owes_next {d : Drainer} {stmt : Code Drainer}
    (hfail : ∀ a message exhausted, d ≠ .fail a message exhausted)
    (hcode : Drainer.code cfg d = some stmt) (r : stmt.op.Res) :
    ((stmt.next r).owes k).toNat + (stmt.op.increments k).toNat = (d.owes k).toNat := by
  cases d with
  | stopped => simp [code] at hcode
  | fail a message exhausted => exact absurd rfl (hfail a message exhausted)
  | dispatch a pc =>
    simp only [code, Option.some.injEq] at hcode
    subst hcode
    have hnext := DispatchPc.next_ind (motive := fun d => d.owes k = false) (fun _ => rfl)
      (owes_dispatched a) pc r
    rw [hnext]
    cases pc <;> rfl
  | notify a exhausted pc =>
    simp only [code, Option.some.injEq] at hcode
    subst hcode
    have hret : (if exhausted then .recordFailed a else return_ a : Drainer).owes k =
        (exhausted && decide (k = .failed)) := by
      cases exhausted with
      | true => rfl
      | false => exact owes_return a
    have hnext := NotifyPc.next_ind
      (motive := fun d => d.owes k = (exhausted && decide (k = .failed))) (fun _ => rfl) hret pc r
    rw [hnext]
    cases pc <;> rfl
  | recordFailed a =>
    simp only [code, Option.some.injEq] at hcode
    subst hcode
    simp only [owes_return]
    simp [owes, Op.increments]
  | idle | stall | backoff | unstall =>
    simp only [code, Option.some.injEq] at hcode
    subst hcode
    refine (Nat.add_zero _).trans (Bool.toNat_eq_zero.mpr ?_)
    simp only
    repeat' split
    all_goals
      first
        | rfl
        | exact owes_return _
        | exact owes_retry _

def Counter.gains (k : Counter) : Mutator → JobRecord → Bool
  | .dispatchFailed _, r => !r.terminal && k = .failed
  | .reap maxRetries, r => r.status = .running ∧ maxRetries < r.retryCount + 1 ∧ k = .failed
  | .report req, r => !r.terminal && k = reportCounter req
  | _, _ => false

def Mem.finds (m : Mem) (ch : Choice) (jobID : String) (p : JobRecord → Bool) : Bool :=
  ch.fault.isNone && (m.store.getJob jobID).any p

theorem Counter.counts_open {r : JobRecord} (h : r.terminal = false) :
    k.counts r = decide (k = .invocations) := by
  have hdone : r.status ≠ .done := fun he => by simp [JobRecord.terminal, he] at h
  have hfailed : r.status ≠ .failed := fun he => by simp [JobRecord.terminal, he] at h
  cases k <;> simp [counts, hdone, hfailed]

theorem Counter.counts_run {mutate : Mutator} {r r' : JobRecord} {c : Captured}
    (hm : mutate ≠ .missingPayload) (h : mutate.run {} r = (c, .ok r')) :
    (k.counts r').toNat = (k.counts r).toNat + (k.gains mutate r).toNat := by
  cases Mutator.rewrites_of_run h with
  | missingPayload => exact absurd rfl hm
  | markRunning ht | revert ht =>
    rw [counts_open ht, counts_open (by simp [JobRecord.terminal])]
    rfl
  | dispatchFailed ht =>
    rw [counts_open ht]
    cases k <;> simp [counts, gains, ht]
  | giveUp hrun hk =>
    rw [counts_open (r := r) (by simp [JobRecord.terminal, hrun])]
    cases k <;> simp [counts, gains, hrun, hk]
  | requeue hrun hk =>
    rw [counts_open (r := r) (by simp [JobRecord.terminal, hrun]),
      counts_open (by simp [JobRecord.terminal])]
    simp [gains, not_lt.mpr hk]
  | @report req ht =>
    rw [counts_open ht]
    cases k <;> cases hs : req.success <;> simp [counts, gains, reportCounter, reportResult, ht, hs]
  | recover hrun =>
    rw [counts_open (r := r) (by simp [JobRecord.terminal, hrun]),
      counts_open (by simp [JobRecord.terminal])]
    rfl
  | keep => rfl

theorem Counter.gains_skip {mutate : Mutator} {r : JobRecord} {c : Captured} {e : Err}
    (h : mutate.run {} r = (c, .error e)) : k.gains mutate r = false := by
  cases (Mutator.skips_of_run h).1 with
  | terminal hm ht =>
    cases mutate with
    | reap maxRetries => exact absurd rfl (hm maxRetries)
    | dispatchFailed | report => simp [gains, ht]
    | _ => rfl
  | reap hrun => simp [gains, hrun]

theorem Transits.count {jobID : String} {mutate : Mutator} {c : Captured} {b : Except Err Bool}
    (h : Transits m ch jobID mutate m' c b) (hm : mutate ≠ .missingPayload) :
    m'.store.count k.counts =
      m.store.count k.counts + (m.finds ch jobID (k.gains mutate)).toNat := by
  cases h with
  | @commit r r' c hkey hf hget hrun =>
    have hins := Lib.Bucket.count_insert m.store.jobs jobID (r'.stamp ch.now) hkey k.counts
    have hrun := Counter.counts_run (k := k) hm hrun
    have hstamp : k.counts (r'.stamp ch.now) = k.counts r' := by cases k <;> rfl
    simp only [hget, Option.any_some, hstamp] at hins
    simp only [BoltStore.count, Mem.finds, BoltStore.getJob, hget, hf, Option.isNone_none,
      Option.any_some, Bool.true_and]
    omega
  | skip hf hget hrun =>
    simp [Mem.finds, BoltStore.getJob, hget, Counter.gains_skip hrun]
  | error hno =>
    rcases hno with hf | hnone
    · simp [Mem.finds, hf]
    · simp [Mem.finds, BoltStore.getJob, hnone]

theorem Transits.count_eq {jobID : String} {mutate : Mutator} {c : Captured} {b : Except Err Bool}
    (h : Transits m ch jobID mutate m' c b) (hm : mutate ≠ .missingPayload)
    (hg : ∀ r, k.gains mutate r = false) :
    m'.store.count k.counts = m.store.count k.counts := by
  have hnone : m.finds ch jobID (k.gains mutate) = false := by
    simp [Mem.finds, Option.any_eq_false, hg]
  simp [h.count hm, hnone]

/-- A report of a finished job changes nothing and is counted all the same. -/
def Handler.miscount (m : Mem) (ch : Choice) (k : Counter) : Handler → Int
  | .report req => (k = reportCounter req && m.finds ch req.jobID (·.terminal)).toNat
  | _ => 0

/-- `attemptDispatch` counts a job that it has not failed after its last attempt, and does not
count one that it fails for another reason. -/
def Drainer.miscount (m : Mem) (ch : Choice) (k : Counter) : Drainer → Int
  | .fail a _ exhausted =>
    (exhausted && k = .failed).toNat - (m.finds ch a.jobID (!·.terminal) && k = .failed).toNat
  | _ => 0

/-- The reaper does not count the jobs it gives up. -/
def Detector.miscount (cfg : Config) (m : Mem) (ch : Choice) (k : Counter) : Detector → Int
  | .reassign _ job _ _ => -(m.finds ch job.id (k.gains (.reap cfg.maxRetries))).toNat
  | _ => 0

theorem Mem.finds_and (jobID : String) (p : JobRecord → Bool) (b : Bool) :
    m.finds ch jobID (fun r => p r && b) = (m.finds ch jobID p && b) := by
  cases b <;> simp [finds]

theorem Handler.Steps.store_eq {c : Nat} {h h' : Handler} (hst : Handler.Steps m ch c h m' h' es)
    (hsubmit : ∀ req rec, h ≠ .submit req rec) (hreport : ∀ req, h ≠ .report req) :
    m'.store = m.store := by
  cases hst with
  | created | existing | submitError => exact absurd rfl (hsubmit _ _)
  | report | reportError => exact absurd rfl (hreport _)
  | quiet _ _ hm => exact hm.store
  | _ => rfl

theorem Handler.Steps.submitted {c : Nat} {req : InvokeFunctionRequest} {rec : JobRecord}
    {h' : Handler} (hst : Handler.Steps m ch c (.submit req rec) m' h' es) (hnb : rec.Newborn)
    (hnone : m.store.jobs.get rec.id = none) :
    (h'.owes k).toNat + m.store.count k.counts = m'.store.count k.counts := by
  cases hst with
  | created _ hres =>
    obtain ⟨-, hkey, hjobs⟩ := BoltStore.submit_created hres
    have hins := Lib.Bucket.count_insert m.store.jobs rec.id
      ({ rec with idempotencyKey := req.idempotencyKey }.stamp ch.now) hkey k.counts
    rw [← hjobs, hnone, Counter.counts_open (by simp [JobRecord.terminal, hnb.status])] at hins
    simp only [BoltStore.count, owes]
    simp only [Option.any_none, Bool.toNat_false] at hins
    omega
  | existing _ hres =>
    have hsame := BoltStore.submitTx_existing (congrArg Prod.snd hres)
    have hstore := (congrArg Prod.fst hres).symm.trans hsame
    simp only [owes, Bool.toNat_false, Nat.zero_add]
    exact congrArg (BoltStore.count · k.counts) hstore.symm
  | submitError => simp [owes]
  | quiet hq => simp [Handler.Quiet] at hq

theorem Handler.Steps.reported {c : Nat} {req : ReportTaskResultRequest} {h' : Handler}
    (hst : Handler.Steps m ch c (.report req) m' h' es) :
    (h'.owes k).toNat + m.store.count k.counts = m'.store.count k.counts +
      (decide (k = reportCounter req) && m.finds ch req.jobID (·.terminal)).toNat := by
  have hgains : m.finds ch req.jobID (k.gains (.report req)) =
      (m.finds ch req.jobID (!·.terminal) && decide (k = reportCounter req)) :=
    m.finds_and req.jobID (!·.terminal) _
  cases hst with
  | report ht =>
    have hcount := ht.count (k := k) (by simp)
    rw [hgains] at hcount
    cases ht with
    | commit _ hf hget hrun =>
      have hopen := (Mutator.run_report hrun).1
      simp only [Mem.finds, BoltStore.getJob, hf, hget, hopen, owes, Option.isNone_none,
        Option.any_some, Bool.not_false, Bool.true_and, Bool.and_false, Bool.toNat_false] at hcount ⊢
      omega
    | skip hf hget hrun =>
      have hterm := Mutator.skip_terminal (by simp) hrun
      simp [Mem.finds, BoltStore.getJob, hf, hget, hterm, owes, Nat.add_comm]
  | reportError ht =>
    cases ht with
    | error hno =>
      rcases hno with hf | hnone
      · simp [Mem.finds, hf, owes]
      · simp [Mem.finds, BoltStore.getJob, hnone, owes]
  | quiet hq => simp [Handler.Quiet] at hq

theorem Handler.balance {c : Nat} {h : Handler} {stmt : Code Handler} {r : stmt.op.Res}
    (hcode : Handler.code c h = some stmt) (hp : perform cfg m ch stmt.op = some (m', r, es))
    (hnew : ∀ req rec, h = .submit req rec → rec.Newborn ∧ m.store.jobs.get rec.id = none) :
    ((stmt.next r).owes k).toNat + (stmt.op.increments k).toNat + (m.store.count k.counts : Int) =
      (h.owes k).toNat + m'.store.count k.counts + h.miscount m ch k := by
  have hst := Handler.steps hcode hp
  by_cases hsubmit : ∃ req rec, h = .submit req rec
  · obtain ⟨req, rec, rfl⟩ := hsubmit
    obtain ⟨hnb, hnone⟩ := hnew req rec rfl
    have hcount := hst.submitted (k := k) hnb hnone
    have hop : stmt.op.increments k = false := increments_of_code hcode rfl
    have howes : (submit req rec).owes k = false := rfl
    simp only [hop, howes, miscount, Bool.toNat_false]
    omega
  by_cases hreport : ∃ req, h = .report req
  · obtain ⟨req, rfl⟩ := hreport
    have hcount := hst.reported (k := k)
    have hop : stmt.op.increments k = false := increments_of_code hcode rfl
    have howes : (report req).owes k = false := rfl
    simp only [hop, howes, miscount, Bool.toNat_false]
    omega
  · have hsubmit : ∀ req rec, h ≠ .submit req rec := fun req rec he => hsubmit ⟨req, rec, he⟩
    have hreport : ∀ req, h ≠ .report req := fun req he => hreport ⟨req, he⟩
    have howes := Handler.owes_next (k := k) hsubmit hreport hcode r
    have hmis : h.miscount m ch k = 0 := by
      cases h <;> first | rfl | exact absurd rfl (hreport _)
    rw [hst.store_eq hsubmit hreport, hmis]
    omega

theorem Drainer.Steps.fails {att : Attempt} {message : String} {exhausted : Bool} {d' : Drainer}
    (h : Drainer.Steps cfg m ch (.fail att message exhausted) m' d' es) :
    d'.owes k = (exhausted && decide (k = .failed)) ∧
      m'.store.count k.counts = m.store.count k.counts +
        (m.finds ch att.jobID (!·.terminal) && decide (k = .failed)).toNat := by
  cases h with
  | fail ht =>
    refine ⟨rfl, ?_⟩
    rw [ht.count (by simp)]
    exact congrArg _ (congrArg Bool.toNat (m.finds_and att.jobID (!·.terminal) _))

theorem Drainer.Steps.count_eq {d d' : Drainer} (h : Drainer.Steps cfg m ch d m' d' es)
    (hd : d.Ok) (hfail : ∀ att message exhausted, d ≠ .fail att message exhausted) :
    m'.store.count k.counts = m.store.count k.counts := by
  cases h with
  | missingPayload => exact hd.elim
  | fail => exact absurd rfl (hfail _ _ _)
  | mark ht | markSkip ht | markError ht | revert ht =>
    exact ht.count_eq (by simp) fun _ => rfl
  | _ => rfl

theorem Drainer.balance {d : Drainer} {stmt : Code Drainer} {r : stmt.op.Res}
    (hcode : Drainer.code cfg d = some stmt) (hp : perform cfg m ch stmt.op = some (m', r, es))
    (hd : d.Ok) :
    ((stmt.next r).owes k).toNat + (stmt.op.increments k).toNat + (m.store.count k.counts : Int) =
      (d.owes k).toNat + m'.store.count k.counts + d.miscount m ch k := by
  have hst := Drainer.steps hcode hp
  by_cases hfail : ∃ att message exhausted, d = .fail att message exhausted
  · obtain ⟨att, message, exhausted, rfl⟩ := hfail
    obtain ⟨hnext, hcount⟩ := hst.fails (k := k)
    have hop : stmt.op.increments k = false := increments_of_code hcode rfl
    have howes : (fail att message exhausted).owes k = false := rfl
    simp only [hop, hnext, hcount, howes, miscount, Bool.toNat_false]
    omega
  · have hfail : ∀ att message exhausted, d ≠ .fail att message exhausted :=
      fun att message exhausted he => hfail ⟨att, message, exhausted, he⟩
    have howes := Drainer.owes_next (k := k) hfail hcode r
    have hmis : d.miscount m ch k = 0 := by
      cases d <;> first | rfl | exact absurd rfl (hfail _ _ _)
    rw [hst.count_eq hd hfail, hmis]
    omega

theorem Detector.Steps.balance {d d' : Detector} (h : Detector.Steps cfg m ch d m' d' es) :
    m'.metrics = m.metrics ∧
      (m.store.count k.counts : Int) = m'.store.count k.counts + d.miscount cfg m ch k := by
  cases h with
  | requeue ht | giveUp ht | skip ht =>
    refine ⟨by rw [ht.mem], ?_⟩
    rw [ht.count (by simp)]
    simp only [miscount]
    omega
  | _ => exact ⟨rfl, by simp [miscount]⟩

theorem Main.Steps.balance {pc pc' : Main} (h : Main.Steps m ch pc m' pc' es) :
    m'.metrics = m.metrics ∧ m'.store.count k.counts = m.store.count k.counts := by
  cases h with
  | replay ht | replayError ht =>
    refine ⟨by rw [ht.mem], ?_⟩
    exact ht.count_eq (by simp) fun _ => rfl
  | _ => exact ⟨rfl, rfl⟩

def miscount (cfg : Config) (s : State) (a : Action) (k : Counter) : Int :=
  match a with
  | .call c ch => (s.calls c).miscount s.mem ch k
  | .drainer ch => s.drainer.miscount s.mem ch k
  | .detector ch => s.detector.miscount cfg s.mem ch k
  | _ => 0

def tally (cfg : Config) (x : Counter → Int) (s : State) (a : Action) (_ : List Event) :
    Counter → Int :=
  fun k => x k + miscount cfg s a k

def booted : State := { init with main := .list }

def lasting : Action → Bool
  | .start | .crash => false
  | _ => true

/-- Each counter, with what is still to be added to it, is off by the miscounts. -/
def Balanced (s : State) (x : Counter → Int) : Prop :=
  ∀ k : Counter, ∃ n, Lib.CountIs (Handler.owes k) s.calls n ∧
    k.total s.mem.metrics + n + (s.drainer.owes k).toNat = s.mem.store.count k.counts + x k

variable {x : Counter → Int}

namespace Balanced

theorem booted : Balanced booted fun _ => 0 := by
  intro k
  refine ⟨0, .zero fun _ => rfl, ?_⟩
  have hcount : BoltStore.empty.count k.counts = 0 := Lib.Bucket.count_empty _
  cases k <;> simp [Server.booted, hcount, Counter.total, init, Drainer.owes]

theorem setCall (h : Balanced s x) {c : Nat} {new : Handler}
    (hold : ∀ k, (s.calls c).owes k = false) (hnew : ∀ k, new.owes k = false) :
    Balanced (s.setCall c new) x := by
  intro k
  obtain ⟨n, hn, hsum⟩ := h k
  obtain ⟨n', hn', he⟩ := hn.update c new
  simp only [hold, hnew, Nat.add_zero, Bool.toNat_false] at he
  exact ⟨n', hn', he ▸ hsum⟩

theorem call (h : Balanced s x) (hi : Inv s) {c : Nat}
    (hst : step cfg s (.call c ch) = some (t, es)) :
    Balanced t (tally cfg x s (.call c ch) es) := by
  obtain ⟨stmt, mem, r, hcode, hp, rfl⟩ := step_call hst
  intro k
  obtain ⟨n, hn, hsum⟩ := h k
  obtain ⟨n', hn', he⟩ := hn.update c (stmt.next r)
  refine ⟨n', hn', ?_⟩
  have htotal := perform_total (k := k) hp
  have hbalance := Handler.balance (k := k) hcode hp fun req rec hc =>
    ⟨(hi.submitting c req rec hc).1, (hi.submitting c req rec hc).2.2⟩
  simp only [tally, miscount, setCall_mem, setCall_drainer]
  omega

theorem drainer (h : Balanced s x) (hi : Inv s)
    (hst : step cfg s (.drainer ch) = some (t, es)) :
    Balanced t (tally cfg x s (.drainer ch) es) := by
  obtain ⟨stmt, mem, r, -, hcode, hp, rfl⟩ := step_drainer hst
  intro k
  obtain ⟨n, hn, hsum⟩ := h k
  refine ⟨n, hn, ?_⟩
  have htotal := perform_total (k := k) hp
  have hbalance := Drainer.balance (k := k) hcode hp hi.drainer
  simp only [tally, miscount]
  omega

theorem detector (h : Balanced s x) (hst : step cfg s (.detector ch) = some (t, es)) :
    Balanced t (tally cfg x s (.detector ch) es) := by
  obtain ⟨stmt, mem, r, -, hcode, hp, rfl⟩ := step_detector hst
  intro k
  obtain ⟨n, hn, hsum⟩ := h k
  refine ⟨n, hn, ?_⟩
  obtain ⟨hmetrics, hcount⟩ := (Detector.steps hcode hp).balance (k := k)
  simp only [tally, miscount, hmetrics]
  omega

theorem other (h : Balanced s x) (hst : Stepped cfg s a t es) (hlast : lasting a = true)
    (hcall : ∀ c ch, a ≠ .call c ch) (hdrainer : ∀ ch, a ≠ .drainer ch)
    (hdetector : ∀ ch, a ≠ .detector ch) : Balanced t x := by
  cases hst with
  | start | crash => simp [lasting] at hlast
  | call => exact absurd rfl (hcall _ _)
  | drainer => exact absurd rfl (hdrainer _)
  | detector => exact absurd rfl (hdetector _)
  | main hcode hp =>
    intro k
    obtain ⟨n, hn, hsum⟩ := h k
    obtain ⟨hmetrics, hcount⟩ := (Main.steps hcode hp).balance (k := k)
    exact ⟨n, hn, by simpa only [hmetrics, hcount] using hsum⟩
  | invokeFunction _ hidle =>
    have h' : Balanced { s with uuids := _ } x := h
    refine h'.setCall (fun k => by simp [hidle, Handler.owes]) fun k => ?_
    simp only [Handler.invokeFunction]
    repeat' split
    all_goals rfl
  | @accept _ c new _ hidle hentry =>
    refine h.setCall (fun k => by simp [hidle, Handler.owes]) fun k => ?_
    cases new <;> first | rfl | exact hentry.elim
  | _ => exact h

theorem step (h : Balanced s x) (hi : Inv s) (hlast : lasting a = true)
    (hst : step cfg s a = some (t, es)) : Balanced t (tally cfg x s a es) := by
  cases a with
  | call c ch => exact h.call hi hst
  | drainer ch => exact h.drainer hi hst
  | detector ch => exact h.detector hst
  | _ =>
    have hzero := h.other (stepped_of_step hst) hlast (by simp) (by simp) (by simp)
    simpa [Balanced, tally, miscount] using hzero

end Balanced

theorem inv_booted : Inv booted where
  sound := Inv.init.sound
  issued := Inv.init.issued
  drainer := Inv.init.drainer
  submitting := Inv.init.submitting
  distinct := Inv.init.distinct
  booting _ _ := rfl

theorem balanced_of_run {as : List Action}
    (h : ((machine cfg).record (tally cfg)).Run (fun _ a => lasting a = true) (booted, fun _ => 0)
      as es (s, x)) : Inv s ∧ Balanced s x := by
  refine h.invariant (P := fun y => Inv y.1 ∧ Balanced y.1 y.2) ⟨inv_booted, .booted⟩ ?_
  rintro y a z e ⟨hi, hb⟩ hlast hst
  obtain ⟨hst, hz⟩ := Lib.Machine.record_step.mp hst
  rw [hz]
  exact ⟨(hi.step (stepped_of_step hst)).1, hb.step hi hlast hst⟩

structure AtRest (s : State) : Prop where
  calls : ∀ c, s.calls c = .idle
  drainer : s.drainer = .idle ∨ s.drainer = .stopped
  detector : s.detector = .owed [] ∨ s.detector = .stopped

/-- In the life of one process on an empty store, whenever nothing is in progress, the counters
are right exactly if the miscounts so far cancel out. -/
theorem counters_right_iff (cfg : Config) {as : List Action} {es : List Event} {s : State}
    {x : Counter → Int}
    (h : ((machine cfg).record (tally cfg)).Run (fun _ a => lasting a = true) (booted, fun _ => 0)
      as es (s, x)) (hq : AtRest s) :
    (s.mem.metrics.totalCompleted = s.mem.store.count (·.status = .done) ∧
        s.mem.metrics.totalFailed = s.mem.store.count (·.status = .failed) ∧
        s.mem.metrics.totalInvocations = s.mem.store.count (fun _ => true) ∧
        s.mem.metrics.inFlightJobs =
          s.mem.store.count (·.status = .pending) + s.mem.store.count (·.status = .running)) ↔
      ∀ k, x k = 0 := by
  obtain ⟨-, hb⟩ := balanced_of_run h
  have hdrainer : ∀ k, s.drainer.owes k = false := by
    intro k
    rcases hq.drainer with hd | hd <;> rw [hd] <;> rfl
  have hk : ∀ k : Counter, k.total s.mem.metrics = s.mem.store.count k.counts + x k := by
    intro k
    obtain ⟨n, hn, hsum⟩ := hb k
    obtain rfl := hn.unique (.zero fun c => by rw [hq.calls c]; rfl)
    simpa [hdrainer k] using hsum
  have hcompleted : s.mem.metrics.totalCompleted =
      s.mem.store.count (·.status = .done) + x .completed := hk .completed
  have hfailed : s.mem.metrics.totalFailed =
      s.mem.store.count (·.status = .failed) + x .failed := hk .failed
  have hinvocations : s.mem.metrics.totalInvocations =
      s.mem.store.count (fun _ => true) + x .invocations := hk .invocations
  have hstatuses := s.mem.store.count_statuses
  constructor
  · rintro ⟨hc, hf, hi, -⟩ k
    cases k <;> omega
  · intro hx
    simp only [hx] at hcompleted hfailed hinvocations
    simp only [Metrics.inFlightJobs]
    omega

def sampleLife : List Action :=
  sampleSubmit.tail ++ sampleDispatch ++
    sampleReport 1 4 { jobID := "j", workerID := "w", success := true, resultBytes := [7] }

def sampleCounted : (State × (Counter → Int)) × List Event :=
  (((machine sampleConfig).record (tally sampleConfig)).exec (fun _ a => lasting a)
    (booted, fun _ => 0) sampleLife).get (by decide)

theorem counters_right_iff_sample :
    sampleCounted.1.1.mem.metrics.totalCompleted = 1 ∧
      sampleCounted.1.1.mem.metrics.inFlightJobs = 0 := by
  have hrun : ((machine sampleConfig).record (tally sampleConfig)).Run
      (fun _ a => lasting a = true) (booted, fun _ => 0) sampleLife sampleCounted.2
      (sampleCounted.1.1, sampleCounted.1.2) := Lib.Machine.run_of_exec_get (by decide)
  have hq : AtRest sampleCounted.1.1 := by
    refine ⟨fun c => ?_, .inl rfl, .inl rfl⟩
    rcases c with _ | _ | c <;> rfl
  obtain ⟨hc, -, -, hflight⟩ := (counters_right_iff sampleConfig hrun hq).mpr fun k => by
    cases k <;> decide
  exact ⟨hc.trans (by decide), hflight.trans (by decide)⟩

def sampleTwice : (State × (Counter → Int)) × List Event :=
  (((machine sampleConfig).record (tally sampleConfig)).exec (fun _ a => lasting a)
    (booted, fun _ => 0) (sampleLife ++ sampleReport 1 5
      { jobID := "j", workerID := "w", success := true, resultBytes := [7] })).get (by decide)

theorem report_counted_twice : ∃ as es s x,
    ((machine sampleConfig).record (tally sampleConfig)).Run (fun _ a => lasting a = true)
      (booted, fun _ => 0) as es (s, x) ∧ AtRest s ∧
      s.mem.metrics.totalCompleted = 2 ∧ s.mem.store.count (·.status = .done) = 1 ∧
      s.mem.metrics.inFlightJobs = -1 := by
  have hrun : ((machine sampleConfig).record (tally sampleConfig)).Run
      (fun _ a => lasting a = true) (booted, fun _ => 0) _ sampleTwice.2
      (sampleTwice.1.1, sampleTwice.1.2) := Lib.Machine.run_of_exec_get (by decide)
  refine ⟨_, _, sampleTwice.1.1, sampleTwice.1.2, hrun, ⟨fun c => ?_, .inl rfl, .inl rfl⟩, rfl, ?_,
    rfl⟩
  · rcases c with _ | _ | c <;> rfl
  · decide

end Server

end Minimodal
