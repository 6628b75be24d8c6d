import Minimodal.Server.Reaper
import Minimodal.Server.Writes

namespace Minimodal

namespace Mutator

def charge : Mutator → Int
  | .revert | .reap _ => 1
  | _ => 0

theorem run_retryCount {m : Mutator} {c c' : Captured} {r r' : JobRecord}
    (h : m.run c r = (c', .ok r')) : r'.retryCount = r.retryCount + m.charge := by
  cases rewrites_of_run h <;> simp [charge, reportResult]

theorem run_reap_failed {k : Int} {c : Captured} {r r' : JobRecord}
    (h : (reap k).run {} r = (c, .ok r')) (hr : r'.status = .failed) :
    r'.error = "exceeded max retries after worker death(s)" ∧ k < r.retryCount + 1 := by
  cases rewrites_of_run h with
  | giveUp _ hk => exact ⟨rfl, hk⟩
  | requeue => simp at hr

end Mutator

def BoltStore.spent (s : BoltStore) (j : String) : Int := ((s.getJob j).map (·.retryCount)).getD 0

theorem BoltStore.spent_of_get {s s' : BoltStore} {j : String} (h : s'.jobs.get j = s.jobs.get j) :
    s'.spent j = s.spent j := by
  simp only [spent, getJob, h]

namespace Server

variable {cfg : Config} {s t : State} {a : Action} {es fs : List Event} {m m' : Mem} {ch : Choice}
  {j : String}

def Event.isDeclaredDead : Event → Bool
  | .declaredDead _ => true
  | _ => false

def Detector.finds (m : Mem) (ch : Choice) (d : Detector) (j : String) : Bool :=
  match d with
  | .owed (w :: _) =>
    ch.fault.isNone && (m.store.getJob j).any fun r => r.status = .running && r.workerID = w
  | _ => false

def Action.finds (s : State) (j : String) : Action → Bool
  | .detector ch => s.detector.finds s.mem ch j
  | _ => false

/-- How often each job was found RUNNING on a worker declared dead, and how often `Dispatch`
has reverted it. -/
structure Tally where
  deaths : String → Nat := fun _ => 0
  reverts : String → Nat := fun _ => 0

def Tally.observe (x : Tally) (s : State) (a : Action) (es : List Event) : Tally where
  deaths j := x.deaths j + (a.finds s j).toNat
  reverts j := x.reverts j + es.count (.transitioned j .revert (.ok true))

def Detector.remaining : Detector → List String
  | .reassign _ job jobs _ => job.id :: jobs.map (·.id)
  | .enqueue _ _ _ jobs _ | .notify _ _ _ jobs _ => jobs.map (·.id)
  | .owed _ | .stopped => []

theorem Detector.remaining_next (w : String) (jobs : List JobRecord) (dead : List String) :
    (next w jobs dead).remaining = jobs.map (·.id) := by
  cases jobs <;> rfl

theorem Detector.finds_owed (w : String) (dead : List String) (hf : ch.fault = none) :
    (owed (w :: dead)).finds m ch j = true ↔ m.store.RunningOn j w := by
  simp [finds, hf, BoltStore.RunningOn, BoltStore.getJob, Option.any_eq_true]

theorem Detector.count_listed (hs : m.store.KeyedById) (w : String) (dead : List String)
    (hf : ch.fault = none) :
    ((m.store.listRunningOnWorker w).map (·.id)).count j =
      ((owed (w :: dead)).finds m ch j).toNat := by
  have hnodup : ((m.store.listRunningOnWorker w).map (·.id)).Nodup := BoltStore.nodup_listWhere hs _
  have hmem := BoltStore.mem_listRunningOnWorker (j := j) (w := w) hs
  rw [← finds_owed w dead hf] at hmem
  cases hfind : (owed (w :: dead)).finds m ch j with
  | true => exact List.count_eq_one_of_mem hnodup (hmem.mpr hfind)
  | false => exact List.count_eq_zero_of_not_mem fun hj => by simp [hmem.mp hj] at hfind

theorem Transits.spent {jobID : String} {mutate : Mutator} {c : Captured} {b : Except Err Bool}
    (h : Transits m ch jobID mutate m' c b) (j : String) :
    m'.store.spent j =
      m.store.spent j + if jobID = j ∧ b = .ok true then mutate.charge else 0 := by
  cases h with
  | @commit r r' _ hkey hf hget hrun =>
    by_cases hj : jobID = j
    · subst hj
      simp [BoltStore.spent, BoltStore.getJob, hget, Lib.Bucket.get_insert_self,
        Mutator.run_retryCount hrun, JobRecord.stamp]
    · simp [BoltStore.spent, BoltStore.getJob, Lib.Bucket.get_insert_ne _ _ _ (Ne.symm hj), hj]
  | skip | error => simp

theorem Drainer.Steps.spent {d d' : Drainer} (h : Drainer.Steps cfg m ch d m' d' es) (j : String) :
    m'.store.spent j = m.store.spent j + es.count (.transitioned j .revert (.ok true)) := by
  cases h with
  | missingPayload ht | mark ht | markSkip ht | markError ht | fail ht =>
    simp [ht.spent j, Mutator.charge]
  | revert ht =>
    rw [ht.spent j, List.count_singleton]
    simp [Mutator.charge]
  | _ => simp

theorem Detector.Steps.spent {d d' : Detector} (h : Detector.Steps cfg m ch d m' d' es)
    (hs : m.store.KeyedById) (j : String) :
    m'.store.spent j + d'.remaining.count j ≤
      m.store.spent j + d.remaining.count j + (d.finds m ch j).toNat := by
  cases h with
  | @list w dead hf =>
    rw [remaining_next, count_listed hs w dead hf]
    simp [remaining]
  | requeue ht | giveUp ht =>
    rw [ht.spent j]
    simp [remaining, finds, Mutator.charge, List.count_cons]
    split <;> omega
  | skip ht hb =>
    rw [ht.spent j, remaining_next]
    simp [remaining, finds, List.count_cons, hb]
    split <;> decide
  | checkSkip | send | notified =>
    rw [remaining_next]
    simp [remaining, finds]
  | _ => simp [remaining, finds]

theorem Main.Steps.spent {pc pc' : Main} (h : Main.Steps m ch pc m' pc' es) (j : String) :
    m'.store.spent j = m.store.spent j := by
  cases h with
  | replay ht | replayError ht => simp [ht.spent j, Mutator.charge]
  | _ => rfl

theorem Handler.Steps.spent {c : Nat} {h h' : Handler} (hst : Handler.Steps m ch c h m' h' es)
    (hnew : ∀ req rec, h = .submit req rec → rec.retryCount = 0 ∧ m.store.jobs.get rec.id = none)
    (j : String) : m'.store.spent j = m.store.spent j := by
  cases hst with
  | @created req rec _ _ _ hres | @existing req rec _ _ _ hres =>
    rcases submit_get m.store rec req.idempotencyKey ch.now j with heq | ⟨rfl, -, heq⟩
    · rw [hres] at heq
      exact BoltStore.spent_of_get heq
    · rw [hres] at heq
      obtain ⟨hzero, hnone⟩ := hnew req rec rfl
      simp only [BoltStore.spent, BoltStore.getJob]
      rw [hnone, show Lib.Bucket.get _ rec.id = _ from heq]
      simpa [JobRecord.stamp] using hzero
  | report ht | reportError ht => simp [ht.spent j, Mutator.charge]
  | quiet _ _ hm _ => rw [hm.store]
  | _ => rfl

theorem Detector.Steps.declared {d d' : Detector} (h : Detector.Steps cfg m ch d m' d' es)
    (j : String) :
    (d.finds m ch j).toNat + d'.unlisted.length ≤
      d.unlisted.length + es.countP Event.isDeclaredDead := by
  cases h with
  | sweep => simp [unlisted, finds, Event.isDeclaredDead, Function.comp_def]
  | @list w dead | @listError w dead =>
    have hone := Bool.toNat_le ((owed (w :: dead)).finds m ch j)
    simp only [unlisted_next, List.countP_nil]
    simp only [unlisted, List.length_cons]
    omega
  | skip | checkSkip | send | notified =>
    rw [unlisted_next]
    simp [unlisted, finds]
  | _ => simp [unlisted, finds]

theorem Detector.Steps.gaveUp {d d' : Detector} {k : Int} {r : JobRecord}
    (h : Detector.Steps cfg m ch d m' d' es) (hev : .transitioned j (.reap k) (.ok true) ∈ es)
    (hget : m'.store.jobs.get j = some r) (hr : r.status = .failed) :
    r.error = "exceeded max retries after worker death(s)" ∧
      cfg.maxRetries < m.store.spent j + d.remaining.count j := by
  cases h with
  | requeue ht | giveUp ht =>
    simp only [List.mem_singleton, Event.transitioned.injEq] at hev
    obtain ⟨rfl, -, -⟩ := hev
    rcases ht.get hget with ⟨-, hne⟩ | ⟨-, -, r₀, r₁, hget₀, hrun, rfl⟩
    · exact absurd rfl (hne rfl)
    · obtain ⟨herror, hk⟩ := Mutator.run_reap_failed hrun hr
      refine ⟨herror, ?_⟩
      simp only [BoltStore.spent, BoltStore.getJob, hget₀, remaining, List.count_cons_self]
      simp only [Option.map_some, Option.getD_some]
      omega
  | skip _ hb =>
    simp only [List.mem_singleton, Event.transitioned.injEq] at hev
    exact absurd hev.2.2.symm hb
  | _ => simp at hev

theorem detector_of_step (h : step cfg s (.detector ch) = some (t, es)) :
    ∃ mem detector, Detector.Steps cfg s.mem ch s.detector mem detector es ∧
      t = { s with mem, detector } := by
  obtain ⟨stmt, mem, r, -, hcode, hperform, rfl⟩ := step_detector h
  exact ⟨mem, _, Detector.steps hcode hperform, rfl⟩

theorem Stepped.detector_le (h : Stepped cfg s a t es) (ha : ∀ ch, a ≠ .detector ch) (j : String) :
    t.detector.remaining.count j ≤ s.detector.remaining.count j ∧
      t.detector.unlisted.length ≤ s.detector.unlisted.length := by
  cases h with
  | start | crash => simp [State.lose, Detector.remaining, Detector.unlisted]
  | detector => exact absurd rfl (ha _)
  | _ => exact ⟨le_rfl, le_rfl⟩

theorem Stepped.spent (h : Stepped cfg s a t es) (hi : Inv s) (ha : ∀ ch, a ≠ .detector ch)
    (j : String) :
    t.mem.store.spent j ≤ s.mem.store.spent j + es.count (.transitioned j .revert (.ok true)) := by
  cases h with
  | main hcode hp =>
    have hspent := (Main.steps hcode hp).spent j
    simp only [hspent]
    omega
  | drainer _ hcode hp => exact ((Drainer.steps hcode hp).spent j).le
  | detector => exact absurd rfl (ha _)
  | call hcode hp =>
    have hspent := (Handler.steps hcode hp).spent
      (fun req rec he => ⟨(hi.newborn _ req rec he).unspent, (hi.submitting _ req rec he).2.2⟩) j
    simp only [setCall_mem, hspent]
    omega
  | _ => simp [State.lose]

theorem charged_of_step (hst : step cfg s a = some (t, fs)) (hi : Inv s) (j : String) :
    t.mem.store.spent j + t.detector.remaining.count j ≤
        s.mem.store.spent j + s.detector.remaining.count j + (a.finds s j).toNat +
          fs.count (.transitioned j .revert (.ok true)) ∧
      (a.finds s j).toNat + t.detector.unlisted.length ≤
        s.detector.unlisted.length + fs.countP Event.isDeclaredDead := by
  have hstep := stepped_of_step hst
  cases a with
  | detector ch =>
    obtain ⟨mem, d, hd, rfl⟩ := detector_of_step hst
    have hspent := hd.spent hi.sound.keyedById j
    have hdecl := hd.declared j
    simp only [Action.finds]
    omega
  | _ =>
    have hspent := hstep.spent hi (by simp) j
    obtain ⟨hrem, hunl⟩ := hstep.detector_le (by simp) j
    simp only [Action.finds, Bool.toNat_false]
    omega

/-- The stored retry count and the looks still to come are covered by the tally, and so are
the listings by the declarations. -/
structure Budgeted (es : List Event) (s : State) (x : Tally) : Prop where
  covered : ∀ j, s.mem.store.spent j + s.detector.remaining.count j ≤ x.deaths j + x.reverts j
  declared : ∀ j, x.deaths j + s.detector.unlisted.length ≤ es.countP Event.isDeclaredDead

theorem Budgeted.init : Budgeted [] init {} where
  covered j := by simp [Server.init, BoltStore.spent, BoltStore.getJob, Detector.remaining]
  declared j := by simp [Server.init, Detector.unlisted]

theorem Budgeted.step {x : Tally} (h : Budgeted es s x) (hi : Inv s)
    (hst : step cfg s a = some (t, fs)) : Budgeted (es ++ fs) t (x.observe s a fs) where
  covered j := by
    have hcov := h.covered j
    have hcharge := (charged_of_step hst hi j).1
    simp only [Tally.observe]
    omega
  declared j := by
    have hdec := h.declared j
    have hcharge := (charged_of_step hst hi j).2
    simp only [Tally.observe, List.countP_append]
    omega

theorem budgeted_of_run {as : List Action} {x : Tally}
    (h : ((machine cfg).record Tally.observe).Run Lib.Machine.Always (init, {}) as es (s, x)) :
    Budgeted es s x := by
  have hinv : Inv (s, x).1 ∧ Budgeted es (s, x).1 (s, x).2 := by
    refine h.invariant_trace (P := fun es y => Inv y.1 ∧ Budgeted es y.1 y.2) ⟨.init, .init⟩ ?_
    rintro es y a ⟨t, x'⟩ fs ⟨hi, hb⟩ - hst
    obtain ⟨hst, rfl⟩ := Lib.Machine.record_step.mp hst
    exact ⟨(hi.step (stepped_of_step hst)).1, hb.step hi hst⟩
  exact hinv.2

theorem Written.retryCount {old new : Option JobRecord} (h : Written j old new fs) {n : Nat}
    (hold : ∀ r, old = some r → 0 ≤ r.retryCount ∧ r.retryCount ≤ n) :
    ∀ r, new = some r → 0 ≤ r.retryCount ∧ r.retryCount ≤ n + fs.length := by
  cases h with
  | none =>
    intro r hr
    obtain ⟨hlow, hhigh⟩ := hold r hr
    exact ⟨hlow, by omega⟩
  | @transition mutate r₀ r' c now hget _ hrun =>
    rintro _ ⟨⟩
    obtain ⟨hlow, hhigh⟩ := hold r₀ hget
    have hcharge : 0 ≤ mutate.charge ∧ mutate.charge ≤ 1 := by
      cases mutate <;> simp [Mutator.charge]
    simp only [JobRecord.stamp, Mutator.run_retryCount hrun, List.length_singleton]
    omega
  | create _ hnb =>
    rintro _ ⟨⟩
    simp only [JobRecord.stamp, hnb.unspent]
    omega

/-- A job's retries are counted by events, so the `int` of the code does not wrap around in any
run that could take place. -/
theorem retryCount_le_of_run {as : List Action} {r : JobRecord}
    (h : (machine cfg).Run Lib.Machine.Always init as es s) (hget : s.mem.store.getJob j = some r) :
    0 ≤ r.retryCount ∧ r.retryCount ≤ es.length := by
  have hbound : Inv s ∧ ∀ j r, s.mem.store.jobs.get j = some r →
      0 ≤ r.retryCount ∧ r.retryCount ≤ es.length := by
    refine h.invariant_trace (P := fun es s => Inv s ∧ ∀ j r, s.mem.store.jobs.get j = some r →
      0 ≤ r.retryCount ∧ r.retryCount ≤ es.length) ⟨.init, by simp [Server.init]⟩ ?_
    rintro es s a t fs ⟨hi, hb⟩ - hst
    have hst := stepped_of_step hst
    refine ⟨(hi.step hst).1, fun j r hr => ?_⟩
    have hnew := ((hst.writes hi).written j).retryCount (hb j) r hr
    simpa using hnew
  exact hbound.2 j r hget

/-- When `ReassignJobsOf` gives a job up, the times it has found the job RUNNING on a worker
declared dead and the reverts of `Dispatch` are together more than `MaxRetries`. -/
theorem giveUp_beyond_budget (cfg : Config) {as : List Action} {es fs : List Event} {s t : State}
    {x : Tally} {ch : Choice} {j : String} {r : JobRecord}
    (h : ((machine cfg).record Tally.observe).Run Lib.Machine.Always (init, {}) as es (s, x))
    (hst : step cfg s (.detector ch) = some (t, fs))
    (hev : .transitioned j (.reap cfg.maxRetries) (.ok true) ∈ fs)
    (hget : t.mem.store.getJob j = some r) (hr : r.status = .failed) :
    r.error = "exceeded max retries after worker death(s)" ∧
      cfg.maxRetries < x.deaths j + x.reverts j ∧
      x.deaths j ≤ es.countP Event.isDeclaredDead := by
  have hb := budgeted_of_run h
  obtain ⟨mem, d, hd, rfl⟩ := detector_of_step hst
  obtain ⟨herror, hspent⟩ := hd.gaveUp hev hget hr
  have hcov := hb.covered j
  have hdec := hb.declared j
  exact ⟨herror, by omega, by omega⟩

def sampleNack : List Action :=
  [.drainer {}, .drainer { order := ["w"] }, .drainer { now := 3 }, .drainer {}, .drainer {},
    .drainer { answer := .rejected }, .drainer { now := 4 }, .drainer { order := ["w"] }]

def sampleSilence : List Action :=
  [.drainer {}, .drainer { order := ["w"] }, .drainer { now := 5 }, .drainer {}, .drainer {},
    .drainer {}, .detector { order := ["w"], now := 10 }, .detector {}]

def sampleNacked : List Action :=
  [sampleSubmit, [.drainer {}], sampleNack, [.drainer {}, .drainer {}], sampleNack, [.drainer {}],
    sampleNack, [.drainer {}], sampleSilence].flatten

def sampleExhausted : (State × Tally) × List Event :=
  (((machine sampleConfig).record Tally.observe).exec (fun _ _ => true) (init, {})
    sampleNacked).get (by decide)

def sampleGaveUp : State × List Event :=
  (step sampleConfig sampleExhausted.1.1 (.detector { now := 11 })).get (by decide)

theorem giveUp_beyond_budget_sample :
    sampleExhausted.1.2.deaths "j" = 1 ∧ sampleExhausted.1.2.reverts "j" = 3 ∧
      ∃ r, sampleGaveUp.1.mem.store.getJob "j" = some r ∧
        r.error = "exceeded max retries after worker death(s)" ∧
        sampleConfig.maxRetries <
          sampleExhausted.1.2.deaths "j" + sampleExhausted.1.2.reverts "j" := by
  have hrun : ((machine sampleConfig).record Tally.observe).Run Lib.Machine.Always (init, {})
      sampleNacked sampleExhausted.2 (sampleExhausted.1.1, sampleExhausted.1.2) :=
    (Lib.Machine.run_of_exec_get (by decide)).mono fun _ _ _ => trivial
  have hst : step sampleConfig sampleExhausted.1.1 (.detector { now := 11 }) =
      some (sampleGaveUp.1, sampleGaveUp.2) := (Option.some_get (by decide)).symm
  obtain ⟨herror, hbudget, -⟩ := giveUp_beyond_budget sampleConfig hrun hst (j := "j") (by decide)
    rfl rfl
  exact ⟨by decide, by decide, _, rfl, herror, hbudget⟩

def sampleOneDeath : State × List Event :=
  ((machine sampleConfig).exec (fun _ _ => true) init
    (sampleNacked ++ [Action.detector { now := 11 }])).get (by decide)

/-- One worker is declared dead in the whole run, and the job is given up for more than three
deaths. -/
theorem giveUp_after_one_death : ∃ as es s r,
    (machine sampleConfig).Run Lib.Machine.Always init as es s ∧
      s.mem.store.getJob "j" = some r ∧ r.status = .failed ∧
      r.error = "exceeded max retries after worker death(s)" ∧
      es.getLast? = some (.transitioned "j" (.reap sampleConfig.maxRetries) (.ok true)) ∧
      es.countP Event.isDeclaredDead = 1 ∧ sampleConfig.maxRetries = 3 := by
  have hrun : (machine sampleConfig).Run Lib.Machine.Always init _ sampleOneDeath.2
      sampleOneDeath.1 := (Lib.Machine.run_of_exec_get (by decide)).mono fun _ _ _ => trivial
  exact ⟨_, sampleOneDeath.2, sampleOneDeath.1, _, hrun, rfl, rfl, rfl, by decide, by decide, rfl⟩

end Server

end Minimodal
