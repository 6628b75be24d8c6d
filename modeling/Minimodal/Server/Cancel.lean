import Minimodal.Server.Pending
import Minimodal.Server.Recovery

namespace Minimodal.Server

/-- Inside `attemptDispatch` of the job, not yet failing it, in an attempt that is not the
last. -/
def Drainer.mayRetry (cfg : Config) (jobID : String) : Drainer → Bool
  | .dispatch _ .missingPayload => false
  | .dispatch a _ | .stall a | .backoff a =>
    decide (a.jobID = jobID) && decide (a.attempt < cfg.maxAttempts)
  | _ => false

def Drainer.over : Drainer → Bool
  | .idle | .unstall _ | .stopped => true
  | _ => false

/-- The steps of one call of `attemptDispatch` for which store operations succeed, the record is
there with its payload, and the cancellation wins against a timer that is due at the same time.
When the call has returned the loop ends. -/
def yields (jobID : String) (s : State) : Action → Bool
  | .drainer ch =>
    ch.fault.isNone &&
      (s.mem.store.getJob jobID).any (fun r => r.terminal || !r.functionBytes.isEmpty) &&
      match s.drainer with
      | .backoff _ | .idle => ch.stop
      | _ => true
  | _ => true

def Cancelled (cfg : Config) (jobID : String) (s : State) : Prop :=
  s.mem.ctxDone = true ∧ s.drainer.mayRetry cfg jobID = true ∨ s.drainer.over = true

section Steps

variable {cfg : Config} {m m' : Mem} {ch : Choice} {es : List Event} {j : String} {d d' : Drainer}

theorem Drainer.over_return (a : Attempt) : (return_ a).over = true :=
  return_ind a rfl rfl

theorem Drainer.retry_of_lt {a : Attempt} (h : a.attempt < cfg.maxAttempts) :
    retry cfg a = .backoff a := by
  rw [retry, if_neg h.ne]

theorem Drainer.mayRetry_iff {a : Attempt} {pc : DispatchPc} (hpc : pc ≠ .missingPayload) :
    (dispatch a pc).mayRetry cfg j = true ↔ a.jobID = j ∧ a.attempt < cfg.maxAttempts := by
  cases pc <;> simp_all [mayRetry]

theorem Drainer.Steps.mayRetry_or_over (h : Drainer.Steps cfg m ch d m' d' es)
    (hd : d.mayRetry cfg j = true) (hback : ∀ a, d ≠ .backoff a) (hf : ch.fault = none)
    (hrec : ∃ r, m.store.jobs.get j = some r ∧ (r.terminal = true ∨ r.functionBytes ≠ [])) :
    d'.mayRetry cfg j = true ∨ d'.over = true := by
  obtain ⟨r, hget, hload⟩ := hrec
  cases h with
  | receive | stop | missingPayload | fail | notify | notified | recordFailed | unstall =>
    simp [Drainer.mayRetry] at hd
  | backoffStop | backoff => exact absurd rfl (hback _)
  | loadTerminal | markSkip | accepted => exact .inr (Drainer.over_return _)
  | loadMissing hread ht hempty =>
    rw [((Drainer.mayRetry_iff (by simp)).mp hd).1] at hread
    obtain rfl := Option.some.inj (hread.symm.trans hget)
    simp [ht, hempty] at hload
  | loadError hbad =>
    rw [((Drainer.mayRetry_iff (by simp)).mp hd).1] at hbad
    simp [hf, hget] at hbad
  | markError ht =>
    rw [((Drainer.mayRetry_iff (by simp)).mp hd).1] at ht
    cases ht with
    | error hbad => simp [hf, hget] at hbad
  | pickNone =>
    have ha := (Drainer.mayRetry_iff (by simp)).mp hd
    rw [Drainer.retry_of_lt ha.2]
    split <;> simp [Drainer.mayRetry, ha]
  | @stall a =>
    have ha : a.jobID = j ∧ a.attempt < cfg.maxAttempts := by simpa [Drainer.mayRetry] using hd
    rw [Drainer.retry_of_lt (a := { a with stalled := true }) ha.2]
    simp [Drainer.mayRetry, ha]
  | _ => exact .inl hd

theorem Transits.leaves_unfinished {jobID : String} {mutate : Mutator} {c : Captured}
    {b : Except Err Bool} (h : Transits m ch jobID mutate m' c b)
    (hm : (∃ w, mutate = .markRunning w) ∨ mutate = .revert) {r : JobRecord}
    (hget : m.store.jobs.get j = some r) (hr : r.terminal = false) :
    ∃ r', m'.store.jobs.get j = some r' ∧ r'.terminal = false := by
  cases h with
  | skip | error => exact ⟨r, hget, hr⟩
  | @commit q q' _ hkey _ _ hrun =>
    by_cases hj : j = jobID
    · subst hj
      refine ⟨_, Lib.Bucket.get_insert_self _ _ _ hkey, ?_⟩
      rcases hm with ⟨w, rfl⟩ | rfl
      · cases Mutator.rewrites_of_run hrun
        rfl
      · cases Mutator.rewrites_of_run hrun
        rfl
    · exact ⟨r, (Lib.Bucket.get_insert_ne _ _ hkey hj).trans hget, hr⟩

theorem Drainer.Steps.leaves_unfinished (h : Drainer.Steps cfg m ch d m' d' es)
    (hd : d.mayRetry cfg j = true ∨ d.over = true) :
    (∀ mutate, Event.transitioned j mutate (.ok true) ∈ es →
      (∃ w, mutate = .markRunning w) ∨ mutate = .revert) ∧
    ∀ r, m.store.jobs.get j = some r → r.terminal = false →
      ∃ r', m'.store.jobs.get j = some r' ∧ r'.terminal = false := by
  cases h with
  | missingPayload | fail => simp [Drainer.mayRetry, Drainer.over] at hd
  | mark ht | markSkip ht | markError ht =>
    refine ⟨fun mutate hev => ?_, fun r hget hr => ?_⟩
    · simp only [List.mem_singleton, Event.transitioned.injEq] at hev
      exact .inl ⟨_, hev.2.1⟩
    · exact ht.leaves_unfinished (.inl ⟨_, rfl⟩) hget hr
  | revert ht =>
    refine ⟨fun mutate hev => ?_, fun r hget hr => ?_⟩
    · simp only [List.mem_singleton, Event.transitioned.injEq] at hev
      exact .inr hev.2.1
    · exact ht.leaves_unfinished (.inr rfl) hget hr
  | _ => exact ⟨by simp, fun r hget hr => ⟨r, hget, hr⟩⟩

variable {s t u : State} {a : Action} {as : List Action} {fs : List Event}

theorem yields_drainer (h : yields j s (.drainer ch) = true) :
    ch.fault = none ∧
      (∃ r, s.mem.store.jobs.get j = some r ∧ (r.terminal = true ∨ r.functionBytes ≠ [])) ∧
      (s.drainer = .idle → ch.stop = true) ∧ ∀ att, s.drainer = .backoff att → ch.stop = true := by
  simp only [yields, Bool.and_eq_true] at h
  obtain ⟨⟨hf, hrec⟩, hstop⟩ := h
  refine ⟨by simpa using hf, ?_, fun hd => ?_, fun att hd => ?_⟩
  · cases hget : s.mem.store.getJob j with
    | none => simp [hget] at hrec
    | some r => exact ⟨r, hget, by simpa [hget] using hrec⟩
  · simpa [hd] using hstop
  · simpa [hd] using hstop

theorem Cancelled.drainer {stmt : Code Drainer} {r : stmt.op.Res} {mem : Mem}
    (h : Cancelled cfg j s) (hok : yields j s (.drainer ch) = true)
    (hcode : Drainer.code cfg s.drainer = some stmt)
    (hp : perform cfg s.mem ch stmt.op = some (mem, r, es)) :
    Cancelled cfg j { s with mem, drainer := stmt.next r } := by
  obtain ⟨hf, hrec, hidle, hback⟩ := yields_drainer hok
  have hsteps := Drainer.steps hcode hp
  rcases h with ⟨hctx, hd⟩ | hover
  · have hctx' : mem.ctxDone = true := (perform_flags hp).2.trans hctx
    by_cases hb : ∃ att, s.drainer = .backoff att
    · obtain ⟨att, hb⟩ := hb
      rw [hb] at hcode
      cases hcode
      cases performs_of_perform hp
      have hstop := hback att hb
      simp only [hstop, if_true]
      exact .inr (Drainer.over_return att)
    · have hnb : ∀ att, s.drainer ≠ .backoff att := fun att he => hb ⟨att, he⟩
      rcases hsteps.mayRetry_or_over hd hnb hf hrec with hd' | hd'
      · exact .inl ⟨hctx', hd'⟩
      · exact .inr hd'
  · refine .inr ?_
    cases hdr : s.drainer with
    | idle =>
      rw [hdr] at hcode
      cases hcode
      cases performs_of_perform hp with
      | receiveDone => rfl
      | receive hstop => simp [hidle hdr] at hstop
    | unstall att =>
      rw [hdr] at hcode
      cases hcode
      rfl
    | stopped => simp [hdr, Drainer.code] at hcode
    | _ => simp [hdr, Drainer.over] at hover

theorem Cancelled.other (h : Cancelled cfg j s) (hctx : t.mem.ctxDone = s.mem.ctxDone)
    (hd : t.drainer = s.drainer) : Cancelled cfg j t := by
  rw [Cancelled, hctx, hd]
  exact h

theorem Cancelled.step (h : Cancelled cfg j s) (hok : yields j s a = true)
    (hst : Stepped cfg s a t es) : Cancelled cfg j t := by
  cases hst with
  | drainer _ hcode hp => exact h.drainer hok hcode hp
  | start | crash => exact .inr rfl
  | main _ hp | detector _ _ hp | call _ hp => exact h.other (perform_flags hp).2 rfl
  | cancel => exact h.imp_left fun hd => ⟨rfl, hd.2⟩
  | _ => exact h

end Steps

/-- Shutdown does not fail the job of a call of `attemptDispatch` that the cancellation strikes
in an attempt other than the last, under the conditions of `yields`: from then on the call makes
no transition to FAILED, it leaves an unfinished job unfinished, and `RecoverUnfinishedJobs`
puts such a job into the queue at the next start. -/
theorem shutdown_fails_no_job (cfg : Config) {s t u : State} {j : String} {as : List Action}
    {es fs : List Event} {ch : Choice} (hctx : s.mem.ctxDone = true)
    (hs : s.drainer.mayRetry cfg j = true)
    (h : (machine cfg).Run (fun s a => yields j s a = true) s as es t)
    (hst : step cfg t (.drainer ch) = some (u, fs)) :
    (∀ mutate, .transitioned j mutate (.ok true) ∈ fs →
      (∃ w, mutate = .markRunning w) ∨ mutate = .revert) ∧
    ∀ r, t.mem.store.getJob j = some r → r.status = .pending ∨ r.status = .running →
      ∃ r', u.mem.store.getJob j = some r' ∧ (r'.status = .pending ∨ r'.status = .running) ∧
        ∀ (w : Wal) (bs : List Action) (gs : List Event) (v : State),
          w.store = u.mem.store →
          (machine cfg).Run (fun s a => recovering s a = true) w.boot bs gs v →
          v.main = .serving → v.mem.pendingQueue.count j = 1 := by
  have hc : Cancelled cfg j t := by
    refine h.invariant (.inl ⟨hctx, hs⟩) fun t a u e ht hok hst => ?_
    exact ht.step hok (stepped_of_step hst)
  have hd : t.drainer.mayRetry cfg j = true ∨ t.drainer.over = true := hc.imp_left And.right
  obtain ⟨stmt, mem, q, -, hcode, hp, rfl⟩ := step_drainer hst
  obtain ⟨hev, hunf⟩ := (Drainer.steps hcode hp).leaves_unfinished hd
  refine ⟨hev, fun r hget hr => ?_⟩
  have hopen : r.terminal = false := by
    rcases hr with hr | hr <;> simp [JobRecord.terminal, hr]
  obtain ⟨r', hget', hopen'⟩ := hunf r hget hopen
  refine ⟨r', hget', ?_, fun w bs gs v hw hrun hv => ?_⟩
  · cases hs : r'.status <;> simp_all [JobRecord.terminal]
  · have hstored : w.store.getJob j = some r' := by rw [hw]; exact hget'
    exact (((progress_of_run hrun).serving hv).1.unfinished j r' hstored hopen').2

def sampleInFlight : List Action :=
  sampleSubmit ++
    ([.drainer {}, .drainer {}, .drainer { order := ["w"] }, .drainer { now := 3 }, .drainer {},
      .drainer {}, .beginShutdown, .cancel] : List Action)

def sampleUnwound : List Action :=
  [.drainer { answer := .failed }, .drainer {}, .drainer { now := 4 }, .drainer { order := ["w"] },
    .drainer {}]

def sampleCancelled : State × List Event :=
  ((machine sampleConfig).exec (fun _ _ => true) init sampleInFlight).get (by decide)

def sampleInBackoff : State × List Event :=
  ((machine sampleConfig).exec (yields "j") sampleCancelled.1 sampleUnwound).get (by decide)

theorem shutdown_fails_no_job_sample :
    sampleCancelled.1.mem.ctxDone = true ∧
      ∃ u r r', step sampleConfig sampleInBackoff.1 (.drainer { stop := true }) = some (u, []) ∧
        sampleInBackoff.1.mem.store.getJob "j" = some r ∧ r.status = .pending ∧
        u.mem.store.getJob "j" = some r' ∧ (r'.status = .pending ∨ r'.status = .running) := by
  have hrun : (machine sampleConfig).Run (fun s a => yields "j" s a = true) sampleCancelled.1 _
      sampleInBackoff.2 sampleInBackoff.1 := Lib.Machine.run_of_exec_get (by decide)
  have hst : step sampleConfig sampleInBackoff.1 (.drainer { stop := true }) = some (_, []) := rfl
  obtain ⟨-, h⟩ := shutdown_fails_no_job sampleConfig (by decide) (by decide) hrun hst
  obtain ⟨r', hget, hr, -⟩ := h _ rfl (.inl rfl)
  exact ⟨by decide, _, _, r', hst, rfl, rfl, hget, hr⟩

def sampleOneAttempt : Config := { sampleConfig with maxDispatchAttempts := 1 }

def sampleCancelledOnce : State × List Event :=
  ((machine sampleOneAttempt).exec (fun _ _ => true) init sampleInFlight).get (by decide)

def sampleGivesUp : State × List Event :=
  ((machine sampleOneAttempt).exec (fun _ _ => true) sampleCancelledOnce.1 sampleUnwound).get
    (by decide)

/-- In its last attempt the call takes the cancellation for a refusal and fails the job. -/
theorem shutdown_fails_job : ∃ as₀ es₀ s as es t u fs r r',
    (machine sampleOneAttempt).Run Lib.Machine.Always init as₀ es₀ s ∧
      s.mem.ctxDone = true ∧ s.drainer.job = some "j" ∧
      s.mem.store.getJob "j" = some r ∧ r.status = .running ∧
      (machine sampleOneAttempt).Run Lib.Machine.Always s as es t ∧
      step sampleOneAttempt t (.drainer { now := 5 }) = some (u, fs) ∧
      .transitioned "j" (.dispatchFailed (noWorkerMessage 1)) (.ok true) ∈ fs ∧
      u.mem.store.getJob "j" = some r' ∧ r'.status = .failed :=
  ⟨_, sampleCancelledOnce.2, sampleCancelledOnce.1, _, sampleGivesUp.2, sampleGivesUp.1, _, _, _, _,
    (Lib.Machine.run_of_exec_get (by decide)).mono fun _ _ _ => trivial, by decide, by decide, rfl,
    rfl, (Lib.Machine.run_of_exec_get (by decide)).mono fun _ _ _ => trivial, rfl,
    List.mem_singleton_self _, rfl, rfl⟩

end Minimodal.Server
