import Minimodal.Server.Pending
import Minimodal.Server.Writes

namespace Minimodal

theorem Config.maxAttempts_pos (cfg : Config) : 1 ≤ cfg.maxAttempts := by
  unfold maxAttempts
  split
  · decide
  · omega

namespace Server

/-- How many jobs wait for a worker, as the autoscaler is told. -/
def Mem.queueDepth (m : Mem) : Int := m.pendingQueue.length + m.stalledDispatches

/-- How long `attemptDispatch` waits after its `n`th round, in milliseconds. -/
def backoffAfter (n : Nat) : Nat := min (100 * 2 ^ (n - 1)) 3200

theorem backoffAfter_succ {n : Nat} (hn : 1 ≤ n) :
    (if backoffAfter n < 2000 then backoffAfter n * 2 else backoffAfter n) = backoffAfter (n + 1) := by
  by_cases h : n < 6
  · interval_cases n <;> rfl
  · have h32 : 2 ^ 5 ≤ 2 ^ (n - 1) := Nat.pow_le_pow_right (by decide) (by omega)
    have hn' : 2 ^ (n + 1 - 1) = 2 ^ (n - 1) * 2 := by
      rw [← Nat.pow_succ]
      congr 1
      omega
    rw [backoffAfter, backoffAfter, hn', min_eq_right (by omega), min_eq_right (by omega)]
    rfl

def DispatchPc.fruitless (m : Mem) (ch : Choice) : DispatchPc → Bool
  | .pick _ tried => (m.pool.range ch.order).any fun entries =>
      (WorkerPool.leastLoadedAliveExcluding tried entries).isNone
  | _ => false

def DispatchPc.refusal (jobID : String) (ch : Choice) : DispatchPc → Option Err
  | .load => ch.fault.map fun msg => .wrapf ("load job " ++ jobID ++ ": " ++ msg) (.errorf msg)
  | .mark _ _ _ _ => ch.fault.map fun msg =>
    .wrapf ("mark RUNNING for job " ++ jobID ++ ": " ++ msg) (.errorf msg)
  | _ => none

/-- What has happened to the job in the drainer's hands: the rounds of `Dispatch` that found
nobody to take it, the waits between the rounds, and the error of the store that has ended it. -/
structure Rounds where
  fruitless : Nat := 0
  waits : List Nat := []
  refusal : Option Err := none
  deriving DecidableEq, Repr

def Rounds.drain (r : Rounds) (m : Mem) (ch : Choice) : Drainer → Rounds
  | .idle => {}
  | .dispatch a pc =>
    { r with
      fruitless := r.fruitless + if pc.fruitless m ch then 1 else 0
      refusal := (pc.refusal a.jobID ch).or r.refusal }
  | .backoff a => if ch.stop then r else { r with waits := r.waits ++ [a.backoffMs] }
  | _ => r

def Rounds.step (r : Rounds) (s : State) : Action → Rounds
  | .drainer ch => r.drain s.mem ch s.drainer
  | _ => r

theorem Rounds.step_of_ne {r : Rounds} {s : State} {a : Action} (ha : ∀ ch, a ≠ .drainer ch) :
    r.step s a = r := by
  cases a with
  | drainer ch => exact absurd rfl (ha ch)
  | _ => rfl

def rounds (cfg : Config) : Lib.Machine (State × Rounds) Action Event :=
  (machine cfg).record fun r s a _ => r.step s a

section Turns

variable {cfg : Config} {m m' : Mem} {ch : Choice} {es : List Event}

/-- A step of the drainer, as `attemptDispatch` sees it, with what it leaves in the counter of
the stalled dispatches. -/
inductive Drainer.Turns (cfg : Config) (m : Mem) (ch : Choice) : Drainer → Int → Drainer → Prop
  | receive {jobID} : Turns cfg m ch .idle m.stalledDispatches (.dispatch { jobID } .load)
  | stop : Turns cfg m ch .idle m.stalledDispatches .stopped
  | inside {a pc pc'} : pc.fruitless m ch = false →
      Turns cfg m ch (.dispatch a pc) m.stalledDispatches (.dispatch a pc')
  | returned {a pc} : Turns cfg m ch (.dispatch a pc) m.stalledDispatches (return_ a)
  | fruitless {a pc} : pc.fruitless m ch = true →
      Turns cfg m ch (.dispatch a pc) m.stalledDispatches
        (if a.stalled then retry cfg a else .stall a)
  | error {a pc e} : pc.refusal a.jobID ch = some e ∨ m.store.jobs.get a.jobID = none ∨
        pc = .missingPayload →
      Turns cfg m ch (.dispatch a pc) m.stalledDispatches (.fail a (dispatchFailedMessage e) false)
  | stall {a} : Turns cfg m ch (.stall a) (m.stalledDispatches + 1)
      (retry cfg { a with stalled := true })
  | backoffStop {a} : ch.stop = true →
      Turns cfg m ch (.backoff a) m.stalledDispatches (return_ a)
  | backoff {a} : ch.stop = false →
      Turns cfg m ch (.backoff a) m.stalledDispatches
        (.dispatch { a with
          attempt := a.attempt + 1
          backoffMs := if a.backoffMs < 2000 then a.backoffMs * 2 else a.backoffMs } .load)
  | fail {a message exhausted} :
      Turns cfg m ch (.fail a message exhausted) m.stalledDispatches (.notify a exhausted .load)
  | notify {a exhausted pc pc'} :
      Turns cfg m ch (.notify a exhausted pc) m.stalledDispatches (.notify a exhausted pc')
  | notified {a exhausted pc} :
      Turns cfg m ch (.notify a exhausted pc) m.stalledDispatches
        (if exhausted then .recordFailed a else return_ a)
  | recordFailed {a} : Turns cfg m ch (.recordFailed a) m.stalledDispatches (return_ a)
  | unstall {a} : Turns cfg m ch (.unstall a) (m.stalledDispatches + -1) .idle

theorem Transits.stalledDispatches {jobID : String} {mutate : Mutator} {c : Captured}
    {b : Except Err Bool} (h : Transits m ch jobID mutate m' c b) :
    m'.stalledDispatches = m.stalledDispatches := by
  rw [h.mem]

theorem DispatchPc.turns {a : Attempt} {pc : DispatchPc}
    {r : (pc.code a.jobID (.dispatch a) (Drainer.dispatched cfg a)).op.Res}
    (h : perform cfg m ch (pc.code a.jobID (.dispatch a) (Drainer.dispatched cfg a)).op =
      some (m', r, es)) :
    Drainer.Turns cfg m ch (.dispatch a pc) m'.stalledDispatches
      ((pc.code a.jobID (.dispatch a) (Drainer.dispatched cfg a)).next r) := by
  cases pc with
  | load =>
    rcases r with e | _ | rec
    · obtain ⟨rfl, rfl, msg, hf, rfl⟩ := getJob_error h rfl
      simp only [code, Drainer.dispatched_wrapf]
      exact .error (.inl (congrArg (Option.map _) hf))
    · obtain ⟨rfl, rfl, hget⟩ := getJob_some h rfl
      simp only [code, Drainer.dispatched_errorf]
      exact .error (.inr (.inl hget))
    · obtain ⟨rfl, rfl, hget⟩ := getJob_some h rfl
      simp only [code]
      split
      · rw [Drainer.dispatched_terminal]
        exact .returned
      · split
        · exact .inside rfl
        · exact .inside rfl
  | missingPayload =>
    obtain ⟨ht, rfl⟩ := transits_of_perform h
    rw [ht.stalledDispatches]
    simp only [code, Drainer.dispatched_errorf]
    exact .error (.inr (.inr rfl))
  | pick rec tried =>
    cases performs_of_perform h with
    | @leastLoaded _ entries hrange =>
      cases hbest : WorkerPool.leastLoadedAliveExcluding tried entries with
      | none =>
        have hret : Drainer.dispatched cfg a (.error
            (if tried.isEmpty then .errNoWorkersAvailable else .errAllWorkersExhausted)) =
            if a.stalled then Drainer.retry cfg a else .stall a := by
          cases htried : tried.isEmpty <;> simp [Drainer.dispatched, Err.is]
        simp only [code, hret]
        exact .fruitless (by simp [fruitless, hrange, hbest])
      | some entry => exact .inside (by simp [fruitless, hrange, hbest])
  | mark rec tried workerID address =>
    obtain ⟨ht, rfl⟩ := transits_of_perform h
    rw [ht.stalledDispatches]
    rcases r with ⟨c, e | _ | _⟩
    · cases ht with
      | error hbad =>
        simp only [code, Drainer.dispatched_wrapf]
        exact .error (hbad.imp (congrArg (Option.map _)) .inl)
    · simp only [code, Drainer.dispatched_terminal]
      exact .returned
    · exact .inside rfl
  | await rec tried workerID =>
    cases performs_of_perform h with
    | answer =>
      cases hans : ch.answer with
      | accepted => exact .returned
      | rejected | failed => exact .inside rfl
  | revert rec tried =>
    obtain ⟨ht, rfl⟩ := transits_of_perform h
    rw [ht.stalledDispatches]
    exact .inside rfl
  | dial | send | drop => cases performs_of_perform h <;> exact .inside rfl

theorem Drainer.turns {d : Drainer} {stmt : Code Drainer} {r : stmt.op.Res}
    (hcode : Drainer.code cfg d = some stmt) (h : perform cfg m ch stmt.op = some (m', r, es)) :
    Drainer.Turns cfg m ch d m'.stalledDispatches (stmt.next r) := by
  cases d with
  | stopped => simp [code] at hcode
  | idle =>
    simp only [code, Option.some.injEq] at hcode
    subst hcode
    cases performs_of_perform h with
    | receiveDone => exact .stop
    | receive => exact .receive
  | dispatch a pc =>
    simp only [code, Option.some.injEq] at hcode
    subst hcode
    exact DispatchPc.turns h
  | fail a message exhausted =>
    simp only [code, Option.some.injEq] at hcode
    subst hcode
    obtain ⟨ht, rfl⟩ := transits_of_perform h
    rw [ht.stalledDispatches]
    exact .fail
  | backoff a =>
    simp only [code, Option.some.injEq] at hcode
    subst hcode
    cases performs_of_perform h with
    | wait =>
      cases hstop : ch.stop with
      | true => exact .backoffStop hstop
      | false => exact .backoff hstop
  | notify a exhausted pc =>
    simp only [code, Option.some.injEq] at hcode
    subst hcode
    have hsame : m'.stalledDispatches = m.stalledDispatches := by
      cases pc <;> cases performs_of_perform h <;> rfl
    rw [hsame]
    exact NotifyPc.next_ind (fun _ => .notify) .notified pc r
  | _ =>
    simp only [code, Option.some.injEq] at hcode
    subst hcode
    cases performs_of_perform h
    constructor

end Turns

def Attempt.gauge (a : Attempt) : Int := if a.stalled then 1 else 0

structure Attempt.Counts (cfg : Config) (r : Rounds) (n : Nat) (a : Attempt) : Prop where
  started : 1 ≤ a.attempt
  bounded : a.attempt ≤ cfg.maxAttempts
  backoff : a.backoffMs = backoffAfter a.attempt
  fruitless : r.fruitless = n
  waits : r.waits = (List.range' 1 (a.attempt - 1)).map backoffAfter

inductive Rounds.Explains (cfg : Config) (r : Rounds) : String → Bool → Prop
  | exhausted : r.fruitless = cfg.maxAttempts →
      r.waits = (List.range' 1 (cfg.maxAttempts - 1)).map backoffAfter →
      Explains cfg r (noWorkerMessage cfg.maxAttempts) true
  | error {e} : r.refusal = some e → Explains cfg r (dispatchFailedMessage e) false

def Drainer.Counts (cfg : Config) (gauge : Int) (r : Rounds) : Drainer → Prop
  | .idle | .stopped => gauge = 0
  | .dispatch a _ => a.Counts cfg r (a.attempt - 1) ∧ gauge = a.gauge ∧
      (a.stalled = false → a.attempt = 1)
  | .stall a => a.Counts cfg r a.attempt ∧ gauge = 0
  | .backoff a => a.Counts cfg r a.attempt ∧ gauge = 1 ∧ a.stalled = true ∧
      a.attempt < cfg.maxAttempts
  | .fail a message exhausted => gauge = a.gauge ∧ r.Explains cfg message exhausted
  | .notify a _ _ | .recordFailed a => gauge = a.gauge
  | .unstall a => gauge = 1 ∧ a.stalled = true

namespace Drainer.Counts

variable {cfg : Config} {gauge : Int} {r : Rounds} {a : Attempt} {m m' : Mem} {ch : Choice}
  {d d' : Drainer}

theorem return_ (h : gauge = a.gauge) : (return_ a).Counts cfg gauge r := by
  cases hs : a.stalled with
  | true => simpa [Drainer.return_, hs, Drainer.Counts, Attempt.gauge] using h
  | false => simpa [Drainer.return_, hs, Drainer.Counts, Attempt.gauge] using h

theorem retry (h : a.Counts cfg r a.attempt) (hgauge : gauge = 1) (hs : a.stalled = true) :
    (retry cfg a).Counts cfg gauge r := by
  unfold Drainer.retry
  split
  · rename_i hlast
    refine ⟨by simp [hgauge, Attempt.gauge, hs], .exhausted (h.fruitless.trans hlast) ?_⟩
    rw [h.waits, hlast]
  · rename_i hlast
    exact ⟨h, hgauge, hs, lt_of_le_of_ne h.bounded hlast⟩

theorem turn (hd : d.Ok) (hjob : ∀ j, d.job = some j → m.store.jobs.get j ≠ none)
    (hst : Drainer.Turns cfg m ch d gauge d') (h : d.Counts cfg m.stalledDispatches r) :
    d'.Counts cfg gauge (r.drain m ch d) := by
  cases hst with
  | receive =>
    exact ⟨⟨le_rfl, cfg.maxAttempts_pos, rfl, rfl, rfl⟩, h, fun _ => rfl⟩
  | stop => exact h
  | inside hf =>
    obtain ⟨hc, hrest⟩ := h
    exact ⟨⟨hc.started, hc.bounded, hc.backoff, by simp [Rounds.drain, hf, hc.fruitless], hc.waits⟩,
      hrest⟩
  | returned => exact return_ h.2.1
  | @fruitless a pc hf =>
    obtain ⟨hc, hgauge, hfirst⟩ := h
    have hc' : a.Counts cfg (r.drain m ch (.dispatch a pc)) a.attempt := by
      refine ⟨hc.started, hc.bounded, hc.backoff, ?_, hc.waits⟩
      simp only [Rounds.drain, hf, if_true, hc.fruitless]
      exact Nat.sub_add_cancel hc.started
    split
    · rename_i hs
      exact retry hc' (by simp [hgauge, Attempt.gauge, hs]) hs
    · rename_i hs
      exact ⟨hc', by simp [hgauge, Attempt.gauge, hs]⟩
  | error hbad =>
    refine ⟨h.2.1, .error ?_⟩
    rcases hbad with hrefusal | hnone | rfl
    · simp [Rounds.drain, hrefusal]
    · exact absurd hnone (hjob _ rfl)
    · exact hd.elim
  | stall =>
    obtain ⟨hc, hgauge⟩ := h
    refine retry ⟨hc.started, hc.bounded, hc.backoff, hc.fruitless, hc.waits⟩ ?_ rfl
    rw [hgauge, zero_add]
  | backoffStop hstop =>
    obtain ⟨-, hgauge, hs, -⟩ := h
    exact return_ (by simp [hgauge, Attempt.gauge, hs])
  | backoff hstop =>
    obtain ⟨hc, hgauge, hs, hlt⟩ := h
    refine ⟨⟨Nat.le_add_left 1 _, hlt, ?_, ?_, ?_⟩, ?_, ?_⟩
    · simp only [hc.backoff]
      exact backoffAfter_succ hc.started
    · simp [Rounds.drain, hstop, hc.fruitless]
    · have hlast := hc.started
      simp only [Rounds.drain, hstop, Bool.false_eq_true, if_false, hc.waits, hc.backoff]
      rw [Nat.add_sub_cancel, ← Nat.sub_add_cancel hlast, List.range'_concat, List.map_append]
      simp [Nat.add_comm]
    · simp [hgauge, Attempt.gauge, hs]
    · simp [hs]
  | fail => exact h.1
  | notify => exact h
  | @notified a exhausted pc =>
    cases exhausted with
    | true => exact h
    | false => exact return_ h
  | recordFailed => exact return_ h
  | unstall => simp [Drainer.Counts, h.1]

end Drainer.Counts

section Queue

variable {cfg : Config} {m m' : Mem} {ch : Choice} {es : List Event} {j : String}

theorem Transits.stored {jobID : String} {mutate : Mutator} {c : Captured} {b : Bool}
    (h : Transits m ch jobID mutate m' c (.ok b)) : m'.store.jobs.get jobID ≠ none := by
  cases h with
  | commit hkey =>
    rw [Lib.Bucket.get_insert_self]
    simp
  | skip _ hget => simp [hget]

theorem Drainer.Steps.queued {d d' : Drainer} (h : Drainer.Steps cfg m ch d m' d' es)
    (hj : j ∈ m'.pendingQueue ∨ d'.job = some j) : j ∈ m.pendingQueue ∨ d.job = some j := by
  have hreturn : ∀ {a : Attempt}, (return_ a).job = some j → some a.jobID = some j := fun {a} =>
    return_ind (motive := fun d => d.job = some j → some a.jobID = some j) a id (by simp [job])
  have hretry : ∀ {a : Attempt}, (retry cfg a).job = some j → some a.jobID = some j := fun {a} =>
    retry_ind (motive := fun d => d.job = some j → some a.jobID = some j) a id id
  cases h with
  | receive hq =>
    rw [hq]
    rcases hj with hj | hj
    · exact .inl (List.mem_cons_of_mem _ hj)
    · obtain rfl := Option.some.inj hj
      exact .inl (List.mem_cons_self ..)
  | mark ht | revert ht | missingPayload ht | markError ht | fail ht => exact ht.queue ▸ hj
  | markSkip ht =>
    rw [ht.queue] at hj
    exact hj.imp_right hreturn
  | loadTerminal | accepted | backoffStop | recordFailed => exact hj.imp_right hreturn
  | pickNone =>
    refine hj.imp_right fun hj => ?_
    split at hj
    · exact hretry hj
    · exact hj
  | @stall a => exact hj.imp_right fun hj => hretry (a := { a with stalled := true }) hj
  | backoff hid => exact hj.imp_right fun hj => by rwa [job, ← hid]
  | notified =>
    refine hj.imp_right fun hj => ?_
    split at hj
    · exact hj
    · exact hreturn hj
  | stop | unstall => exact hj.imp_right fun hj => by simp [job] at hj
  | _ => exact hj

theorem Detector.Steps.queued {d d' : Detector} (h : Detector.Steps cfg m ch d m' d' es)
    (hj : j ∈ m'.pendingQueue ∨ d'.enqueuing = some j) :
    (j ∈ m.pendingQueue ∨ d.enqueuing = some j) ∨ m'.store.jobs.get j ≠ none := by
  cases h with
  | requeue ht =>
    rcases hj with hj | hj
    · exact .inl (.inl (ht.queue ▸ hj))
    · obtain rfl := Option.some.inj hj
      exact .inr ht.stored
  | giveUp ht => exact .inl (.inl (by simpa [ht.queue, enqueuing] using hj))
  | skip ht => exact .inl (.inl (by simpa [ht.queue] using hj))
  | check => exact .inl hj
  | list | checkSkip | notified => exact .inl (.inl (by simpa using hj))
  | send =>
    simp only [List.mem_append, List.mem_singleton, enqueuing_next, reduceCtorEq, or_false] at hj
    exact .inl (hj.imp_right fun hj => congrArg some hj.symm)
  | _ => exact .inl (.inl (by simpa [enqueuing] using hj))

theorem Handler.enqueuing_invokeFunction (req : InvokeFunctionRequest) (uuid : String) (now : Nat) :
    (invokeFunction cfg req uuid now).enqueuing = none := by
  simp only [invokeFunction]
  repeat' split
  all_goals rfl

theorem Handler.enqueuing_of_entry {h : Handler} (hentry : h.Entry) : h.enqueuing = none := by
  cases h with
  | enqueue => exact hentry.elim
  | _ => rfl

theorem Handler.Steps.queued {c : Nat} {h h' : Handler} (hst : Handler.Steps m ch c h m' h' es)
    (hj : j ∈ m'.pendingQueue ∨ h'.enqueuing = some j) :
    (j ∈ m.pendingQueue ∨ h.enqueuing = some j) ∨ m'.store.jobs.get j ≠ none := by
  cases hst with
  | created _ hres =>
    rcases hj with hj | hj
    · exact .inl (.inl hj)
    · obtain rfl := Option.some.inj hj
      obtain ⟨rfl, hkey, hjobs⟩ := BoltStore.submit_created hres
      exact .inr (by simp [hjobs])
  | check => exact .inl hj
  | send =>
    simp only [List.mem_append, List.mem_singleton, enqueuing, reduceCtorEq, or_false] at hj
    exact .inl (hj.imp_right fun hj => congrArg some hj.symm)
  | report ht | reportError ht => exact .inl (.inl (by simpa [ht.queue, enqueuing] using hj))
  | quiet _ hq hm => exact .inl (.inl (by simpa [hm.pendingQueue, enqueuing_of_quiet hq] using hj))
  | _ => exact .inl (.inl (by simpa [enqueuing] using hj))

theorem Main.Steps.queued {pc pc' : Main} (h : Main.Steps m ch pc m' pc' es) (hs : m.store.Sound)
    (hj : j ∈ m'.pendingQueue ∨ ∃ js, pc'.remaining = some js ∧ j ∈ js) :
    (j ∈ m.pendingQueue ∨ ∃ js, pc.remaining = some js ∧ j ∈ js) ∨
      m'.store.jobs.get j ≠ none := by
  cases h with
  | list =>
    rcases hj with hj | ⟨js, hjs, hj⟩
    · exact .inl (.inl hj)
    · simp only [remaining_next, Option.some.injEq] at hjs
      subst hjs
      obtain ⟨r, hr, -⟩ := (BoltStore.mem_listUnfinished hs.keyedById).mp hj
      exact .inr (by simp [hr])
  | listError =>
    rcases hj with hj | ⟨js, hjs, -⟩
    · exact .inl (.inl hj)
    · simp [remaining] at hjs
  | replay ht => exact .inl (ht.queue ▸ hj)
  | replayError ht =>
    rcases hj with hj | ⟨js, hjs, hj⟩
    · exact .inl (.inl (ht.queue ▸ hj))
    · simp only [remaining_next, Option.some.injEq] at hjs
      exact .inl (.inr ⟨_, rfl, List.mem_cons_of_mem _ (hjs ▸ hj)⟩)
  | check => exact .inl hj
  | checkSkip =>
    rcases hj with hj | ⟨js, hjs, hj⟩
    · exact .inl (.inl hj)
    · simp only [remaining_next, Option.some.injEq] at hjs
      exact .inl (.inr ⟨_, rfl, List.mem_cons_of_mem _ (hjs ▸ hj)⟩)
  | send =>
    rcases hj with hj | ⟨js, hjs, hj⟩
    · rcases List.mem_append.mp hj with hj | hj
      · exact .inl (.inl hj)
      · obtain rfl := List.mem_singleton.mp hj
        exact .inl (.inr ⟨_, rfl, List.mem_cons_self ..⟩)
    · simp only [remaining_next, Option.some.injEq] at hjs
      exact .inl (.inr ⟨_, rfl, List.mem_cons_of_mem _ (hjs ▸ hj)⟩)

end Queue

structure Queued (s : State) : Prop where
  queue : ∀ j ∈ s.mem.pendingQueue, s.mem.store.jobs.get j ≠ none
  drainer : ∀ j, s.drainer.job = some j → s.mem.store.jobs.get j ≠ none
  detector : ∀ j, s.detector.enqueuing = some j → s.mem.store.jobs.get j ≠ none
  calls : ∀ c j, (s.calls c).enqueuing = some j → s.mem.store.jobs.get j ≠ none
  main : ∀ js, s.main.remaining = some js → ∀ j ∈ js, s.mem.store.jobs.get j ≠ none

namespace Queued

variable {cfg : Config} {s t : State} {a : Action} {es : List Event} {m m' : Mem} {ch : Choice}
  {j : String}

theorem init : Queued init where
  queue := by simp [Server.init]
  drainer := by simp [Server.init, Drainer.job]
  detector := by simp [Server.init, Detector.enqueuing]
  calls := by simp [Server.init, Handler.enqueuing]
  main := by simp [Server.init, Main.remaining]

theorem step (h : Queued s) (hi : Inv s) (hst : Stepped cfg s a t es) : Queued t := by
  have hkept : ∀ j, s.mem.store.jobs.get j ≠ none → t.mem.store.jobs.get j ≠ none := by
    intro j hj
    obtain ⟨r, hr⟩ := Option.ne_none_iff_exists'.mp hj
    obtain ⟨r', hr', -⟩ := (hi.step hst).2 j r hr
    simp [hr']
  cases hst with
  | start | crash =>
    exact ⟨by simp [State.lose], by simp [State.lose, Drainer.job],
      by simp [State.lose, Detector.enqueuing], by simp [State.lose, Handler.enqueuing],
      by simp [State.lose, Main.remaining]⟩
  | beginShutdown | cancel | close | registerWorker | heartbeat =>
    exact ⟨h.queue, h.drainer, h.detector, h.calls, h.main⟩
  | main hcode hp =>
    have hstep := fun j => (Main.steps hcode hp).queued (j := j) hi.sound
    have hall : ∀ j, (j ∈ s.mem.pendingQueue ∨ ∃ js, s.main.remaining = some js ∧ j ∈ js) →
        s.mem.store.jobs.get j ≠ none := by
      rintro j (hj | ⟨js, hjs, hj⟩)
      · exact h.queue j hj
      · exact h.main js hjs j hj
    refine ⟨fun j hj => ?_, fun j hj => hkept j (h.drainer j hj),
      fun j hj => hkept j (h.detector j hj), fun c j hj => hkept j (h.calls c j hj),
      fun js hjs j hj => ?_⟩
    · exact (hstep j (.inl hj)).elim (fun hj => hkept j (hall j hj)) id
    · exact (hstep j (.inr ⟨js, hjs, hj⟩)).elim (fun hj => hkept j (hall j hj)) id
  | drainer _ hcode hp =>
    have hstep := fun j => (Drainer.steps hcode hp).queued (j := j)
    have hall := fun j (hj : j ∈ s.mem.pendingQueue ∨ s.drainer.job = some j) =>
      hkept j (hj.elim (h.queue j) (h.drainer j))
    exact ⟨fun j hj => hall j (hstep j (.inl hj)), fun j hj => hall j (hstep j (.inr hj)),
      fun j hj => hkept j (h.detector j hj), fun c j hj => hkept j (h.calls c j hj),
      fun js hjs j hj => hkept j (h.main js hjs j hj)⟩
  | detector _ hcode hp =>
    have hstep := fun j => (Detector.steps hcode hp).queued (j := j)
    have hall := fun j (hj : j ∈ s.mem.pendingQueue ∨ s.detector.enqueuing = some j) =>
      hkept j (hj.elim (h.queue j) (h.detector j))
    exact ⟨fun j hj => (hstep j (.inl hj)).elim (hall j) id,
      fun j hj => hkept j (h.drainer j hj), fun j hj => (hstep j (.inr hj)).elim (hall j) id,
      fun c j hj => hkept j (h.calls c j hj), fun js hjs j hj => hkept j (h.main js hjs j hj)⟩
  | @call c _ _ _ _ _ hcode hp =>
    have hstep := fun j => (Handler.steps hcode hp).queued (j := j)
    have hall := fun j (hj : j ∈ s.mem.pendingQueue ∨ (s.calls c).enqueuing = some j) =>
      hkept j (hj.elim (h.queue j) (h.calls c j))
    refine ⟨fun j hj => (hstep j (.inl hj)).elim (hall j) id, fun j hj => hkept j (h.drainer j hj),
      fun j hj => hkept j (h.detector j hj), fun d j hj => ?_,
      fun js hjs j hj => hkept j (h.main js hjs j hj)⟩
    rw [setCall_calls] at hj
    split at hj
    · exact (hstep j (.inr hj)).elim (hall j) id
    · exact hkept j (h.calls d j hj)
  | invokeFunction =>
    refine ⟨h.queue, h.drainer, h.detector, fun d j hj => ?_, h.main⟩
    rw [setCall_calls] at hj
    split at hj
    · simp [Handler.enqueuing_invokeFunction] at hj
    · exact h.calls d j hj
  | accept _ _ hentry =>
    refine ⟨h.queue, h.drainer, h.detector, fun d j hj => ?_, h.main⟩
    rw [setCall_calls] at hj
    split at hj
    · simp [Handler.enqueuing_of_entry hentry] at hj
    · exact h.calls d j hj

end Queued

section Gauge

variable {cfg : Config} {m m' : Mem} {ch : Choice} {es : List Event}

def Op.spares : Op → Bool
  | .addStalled _ => false
  | _ => true

theorem perform_spares {op : Op} {r : op.Res} (hop : op.spares = true)
    (h : perform cfg m ch op = some (m', r, es)) : m'.stalledDispatches = m.stalledDispatches := by
  cases performs_of_perform h with
  | addStalled => simp [Op.spares] at hop
  | _ => rfl

theorem Main.spares {pc : Main} {stmt : Code Main} (hcode : Main.code pc = some stmt) :
    stmt.op.spares = true := by
  cases pc with
  | enqueue _ pc =>
    cases hcode
    cases pc <;> rfl
  | _ => cases hcode <;> rfl

theorem Detector.spares {d : Detector} {stmt : Code Detector}
    (hcode : Detector.code cfg d = some stmt) : stmt.op.spares = true := by
  cases d with
  | owed dead => cases dead <;> cases hcode <;> rfl
  | enqueue _ _ pc | notify _ _ pc =>
    cases hcode
    cases pc <;> rfl
  | _ => cases hcode <;> rfl

theorem Handler.spares {c : Nat} {h : Handler} {stmt : Code Handler}
    (hcode : Handler.code c h = some stmt) : stmt.op.spares = true := by
  cases h with
  | enqueue _ _ pc | notify _ pc =>
    cases hcode
    cases pc <;> rfl
  | count req =>
    simp only [code] at hcode
    split at hcode <;> cases hcode <;> rfl
  | _ => cases hcode <;> rfl

end Gauge

section Issued

variable {cfg : Config} {m m' : Mem} {ch : Choice} {es : List Event} {j : String}
  {mutate : Mutator} {b : Except Err Bool}

/-- Where a transition that fails a job comes from: the drainer, with the message that it has
settled on, or the reaper, with the bound of the configuration. -/
def Issued (cfg : Config) (d : Drainer) (j : String) : Mutator → Prop
  | .dispatchFailed message => ∃ a exhausted, d = .fail a message exhausted ∧ a.jobID = j
  | .reap maxRetries => maxRetries = cfg.maxRetries
  | _ => True

theorem Drainer.Steps.issued {d d' : Drainer} (h : Drainer.Steps cfg m ch d m' d' es)
    (hev : .transitioned j mutate b ∈ es) : Issued cfg d j mutate := by
  cases h with
  | fail =>
    simp only [List.mem_singleton, Event.transitioned.injEq] at hev
    obtain ⟨rfl, rfl, -⟩ := hev
    exact ⟨_, _, rfl, rfl⟩
  | missingPayload | mark | markSkip | markError | revert =>
    simp only [List.mem_singleton, Event.transitioned.injEq] at hev
    obtain ⟨-, rfl, -⟩ := hev
    trivial
  | _ => simp at hev

theorem Detector.Steps.issued {d d' : Detector} (h : Detector.Steps cfg m ch d m' d' es)
    (hev : .transitioned j mutate b ∈ es) (drainer : Drainer) : Issued cfg drainer j mutate := by
  cases h with
  | requeue | giveUp | skip =>
    simp only [List.mem_singleton, Event.transitioned.injEq] at hev
    obtain ⟨-, rfl, -⟩ := hev
    rfl
  | _ => simp at hev

theorem Main.Steps.issued {pc pc' : Main} (h : Main.Steps m ch pc m' pc' es)
    (hev : .transitioned j mutate b ∈ es) (drainer : Drainer) : Issued cfg drainer j mutate := by
  cases h with
  | replay | replayError =>
    simp only [List.mem_singleton, Event.transitioned.injEq] at hev
    obtain ⟨-, rfl, -⟩ := hev
    trivial
  | _ => simp at hev

theorem Handler.Steps.issued {c : Nat} {h h' : Handler} (hst : Handler.Steps m ch c h m' h' es)
    (hev : .transitioned j mutate b ∈ es) (drainer : Drainer) : Issued cfg drainer j mutate := by
  cases hst with
  | report | reportError =>
    simp only [List.mem_singleton, Event.transitioned.injEq] at hev
    obtain ⟨-, rfl, -⟩ := hev
    trivial
  | quiet _ _ _ hes => simpa [Event.Quiet] using hes _ hev
  | _ => simp at hev

theorem Stepped.issued {s t : State} {a : Action} (h : Stepped cfg s a t es)
    (hev : .transitioned j mutate b ∈ es) : Issued cfg s.drainer j mutate := by
  cases h with
  | drainer _ hcode hp => exact (Drainer.steps hcode hp).issued hev
  | main hcode hp => exact (Main.steps hcode hp).issued hev _
  | detector _ hcode hp => exact (Detector.steps hcode hp).issued hev _
  | call hcode hp => exact (Handler.steps hcode hp).issued hev _
  | _ => simp at hev

end Issued

section Runs

variable {cfg : Config} {s t : State} {a : Action} {as : List Action} {es fs : List Event}
  {y : State × Rounds} {j : String}

theorem Stepped.spares (h : Stepped cfg s a t fs) (ha : ∀ ch, a ≠ .drainer ch) :
    t.drainer = s.drainer ∧ t.mem.stalledDispatches = s.mem.stalledDispatches ∨
      t.drainer = .idle ∧ t.mem.stalledDispatches = 0 := by
  cases h with
  | start | crash => exact .inr ⟨rfl, rfl⟩
  | drainer => exact absurd rfl (ha _)
  | main hcode hp => exact .inl ⟨rfl, perform_spares (Main.spares hcode) hp⟩
  | detector _ hcode hp => exact .inl ⟨rfl, perform_spares (Detector.spares hcode) hp⟩
  | call hcode hp => exact .inl ⟨rfl, perform_spares (Handler.spares hcode) hp⟩
  | _ => exact .inl ⟨rfl, rfl⟩

theorem counts_of_run (h : (rounds cfg).Run Lib.Machine.Always (init, {}) as es y) :
    Inv y.1 ∧ Queued y.1 ∧ y.1.drainer.Counts cfg y.1.mem.stalledDispatches y.2 := by
  refine h.invariant (P := fun y =>
    Inv y.1 ∧ Queued y.1 ∧ y.1.drainer.Counts cfg y.1.mem.stalledDispatches y.2) ?_ ?_
  · exact ⟨.init, .init, rfl⟩
  · rintro ⟨s, r⟩ a ⟨t, r'⟩ fs ⟨hi, hq, hc⟩ - hst
    obtain ⟨hst, hr⟩ := Lib.Machine.record_step.mp hst
    have hst' : Stepped cfg s a t fs := stepped_of_step hst
    refine ⟨(hi.step hst').1, hq.step hi hst', ?_⟩
    by_cases ha : ∃ ch, a = .drainer ch
    · obtain ⟨ch, rfl⟩ := ha
      obtain ⟨stmt, mem, res, -, hcode, hp, rfl⟩ := step_drainer hst
      rw [hr]
      exact hc.turn hi.drainer hq.drainer (Drainer.turns hcode hp)
    · have ha : ∀ ch, a ≠ .drainer ch := fun ch he => ha ⟨ch, he⟩
      rw [hr, Rounds.step_of_ne ha]
      rcases hst'.spares ha with ⟨hd, hg⟩ | ⟨hd, hg⟩
      · simpa only [hd, hg] using hc
      · simp only [hd, hg]
        rfl

/-- The dispatcher fails a job only after the full number of rounds in which nobody took it, with
all the waits between them, or because a call of the store has failed, and then with the error
that `Dispatch` has made of it. -/
theorem dispatch_failure_explained (cfg : Config) {as : List Action} {es fs : List Event}
    {s t : State} {r : Rounds} (h : (rounds cfg).Run Lib.Machine.Always (init, {}) as es (s, r))
    {a : Action} (hst : step cfg s a = some (t, fs)) {j message : String}
    (hfail : .transitioned j (.dispatchFailed message) (.ok true) ∈ fs) :
    message = noWorkerMessage cfg.maxAttempts ∧ r.fruitless = cfg.maxAttempts ∧
        r.waits = (List.range' 1 (cfg.maxAttempts - 1)).map backoffAfter ∨
      ∃ e, r.refusal = some e ∧ message = dispatchFailedMessage e := by
  obtain ⟨-, -, hc⟩ := counts_of_run h
  obtain ⟨attempt, exhausted, hd, -⟩ := (stepped_of_step hst).issued hfail
  simp only [hd] at hc
  cases hc.2 with
  | exhausted hn hw => exact .inl ⟨rfl, hn, hw⟩
  | error he => exact .inr ⟨_, he, rfl⟩

def samplePatient : Config := { sampleConfig with maxDispatchAttempts := 2 }

def sampleGivingUp : (State × Rounds) × List Event :=
  ((rounds samplePatient).exec (fun _ _ => true) (init, {})
    [.start, .main {},
      .invokeFunction 0 { functionBytes := [1], argsBytes := [2], functionName := "f" } "j" 1,
      .call 0 { now := 2 }, .call 0 {}, .call 0 {}, .call 0 {}, .call 0 {}, .drainer {},
      .drainer {}, .drainer {}, .drainer {}, .drainer {}, .drainer {}, .drainer {}]).get (by decide)

theorem dispatch_failure_explained_sample :
    ∃ t fs, step samplePatient sampleGivingUp.1.1 (.drainer { now := 9 }) = some (t, fs) ∧
      .transitioned "j" (.dispatchFailed (noWorkerMessage 2)) (.ok true) ∈ fs ∧
      sampleGivingUp.1.2.fruitless = 2 ∧ sampleGivingUp.1.2.waits = [100] := by
  have hrun : (rounds samplePatient).Run Lib.Machine.Always (init, {}) _ sampleGivingUp.2
      (sampleGivingUp.1.1, sampleGivingUp.1.2) :=
    (Lib.Machine.run_of_exec_get (by decide)).mono fun _ _ _ => trivial
  have hev : Event.transitioned "j" (.dispatchFailed (noWorkerMessage 2)) (.ok true) ∈
      ((step samplePatient sampleGivingUp.1.1 (.drainer { now := 9 })).get (by decide)).2 := by
    decide
  have hst := (Option.some_get (show (step samplePatient sampleGivingUp.1.1
    (.drainer { now := 9 })).isSome = true by decide)).symm
  refine ⟨_, _, hst, hev, ?_⟩
  rcases dispatch_failure_explained samplePatient hrun hst hev with ⟨-, hn, hw⟩ | ⟨e, he, -⟩
  · exact ⟨hn, hw⟩
  · rw [show sampleGivingUp.1.2.refusal = none by decide] at he
    cases he

/-- The job that the drainer holds and could not place. -/
def Drainer.stalled : Drainer → Option String
  | .dispatch a _ | .backoff a | .fail a _ _ | .notify a _ _ | .recordFailed a | .unstall a =>
    if a.stalled then some a.jobID else none
  | _ => none

/-- In a state that the server reaches, the job `j` waits for a worker. -/
structure Waits (cfg : Config) (s : State) (j : String) : Prop where
  reached : ∃ as es, (machine cfg).Run Lib.Machine.Always init as es s
  held : j ∈ s.mem.pendingQueue ∨ s.drainer.stalled = some j

theorem Drainer.Counts.gauge {gauge : Int} {r : Rounds} {d : Drainer} (h : d.Counts cfg gauge r) :
    gauge = if d.stalled.isSome then 1 else 0 := by
  cases d with
  | idle | stopped => exact h
  | stall => exact h.2
  | dispatch a => cases hs : a.stalled <;> simpa [stalled, hs, Attempt.gauge] using h.2.1
  | fail a => cases hs : a.stalled <;> simpa [stalled, hs, Attempt.gauge] using h.1
  | notify a | recordFailed a =>
    cases hs : a.stalled <;> simpa [Counts, stalled, hs, Attempt.gauge] using h
  | backoff => simp [stalled, h.2.1, h.2.2.1]
  | unstall => simp [stalled, h.1, h.2]

theorem Waits.queueDepth (h : Waits cfg s j) : 1 ≤ s.mem.queueDepth := by
  obtain ⟨as, es, hrun⟩ := h.reached
  obtain ⟨r, hrec⟩ := hrun.record (y := (init, {})) (f := fun r s a _ => Rounds.step r s a)
  have hgauge := (counts_of_run hrec).2.2.gauge
  rw [Mem.queueDepth]
  rcases h.held with hq | hd
  · have hpos := List.length_pos_of_mem hq
    have hnonneg : 0 ≤ s.mem.stalledDispatches := by
      rw [hgauge]
      split <;> decide
    omega
  · simp only [hd, Option.isSome_some, if_true] at hgauge
    omega

end Runs

end Server

end Minimodal
