import Minimodal.Server.Terminal

namespace Minimodal.Server

def Drainer.missing : Drainer → Option String
  | .dispatch a .missingPayload => some a.jobID
  | _ => none

def State.finished (s : State) (jobID : String) : Bool :=
  (s.mem.store.getJob jobID).any JobRecord.terminal

/-- Nobody else finishes a job between the read of `Dispatch` that finds no payload and the
transition that follows it. -/
def sparesMissing (cfg : Config) (s : State) (a : Action) : Bool :=
  match a, s.drainer.missing with
  | .drainer _, _ => true
  | _, none => true
  | a, some jobID =>
    match step cfg s a with
    | none => true
    | some (t, _) => !t.finished jobID

def MissingOpen (s : State) : Prop := ∀ j, s.drainer.missing = some j → s.finished j = false

variable {cfg : Config} {s t u : State} {a : Action} {as : List Action} {es fs : List Event}
  {m m' : Mem} {ch : Choice}

theorem finished_of_get {j : String} {r : JobRecord} (h : s.mem.store.jobs.get j = some r) :
    s.finished j = r.terminal := by
  simp [State.finished, BoltStore.getJob, h]

theorem Drainer.missing_return (att : Attempt) : (return_ att).missing = none :=
  return_ind att rfl rfl

theorem Drainer.missing_retry (att : Attempt) : (retry cfg att).missing = none :=
  retry_ind att rfl rfl

theorem Drainer.Steps.open_of_missing {d d' : Drainer} {j : String}
    (h : Drainer.Steps cfg m ch d m' d' es) (hj : d'.missing = some j) :
    m' = m ∧ ∃ r, m.store.jobs.get j = some r ∧ r.terminal = false := by
  cases h with
  | loadMissing hget ht =>
    simp only [Drainer.missing, Option.some.injEq] at hj
    subst hj
    exact ⟨rfl, _, hget, ht⟩
  | loadTerminal | markSkip | accepted | backoffStop | recordFailed =>
    simp [missing_return] at hj
  | stall => simp [missing_retry] at hj
  | pickNone =>
    split at hj
    · simp [missing_retry] at hj
    · simp [Drainer.missing] at hj
  | notified =>
    split at hj
    · simp [Drainer.missing] at hj
    · simp [missing_return] at hj
  | _ => simp [Drainer.missing] at hj

theorem Transits.spares {jobID : String} {mutate : Mutator} {c : Captured} {b : Except Err Bool}
    (h : Transits m ch jobID mutate m' c b)
    (hopen : ∀ r r' c', m.store.jobs.get jobID = some r → mutate.run {} r = (c', .ok r') →
      r.terminal = false)
    {j : String} {r : JobRecord} (hget : m.store.jobs.get j = some r) (ht : r.terminal = true) :
    m'.store.jobs.get j = some r := by
  cases h with
  | skip | error => exact hget
  | commit hkey _ hread hrun =>
    have hne : j ≠ jobID := by
      rintro rfl
      obtain rfl := Option.some.inj (hread.symm.trans hget)
      simp [hopen _ _ _ hread hrun] at ht
    exact (Lib.Bucket.get_insert_ne _ _ hkey hne).trans hget

theorem Drainer.Steps.spares {d d' : Drainer} (h : Drainer.Steps cfg m ch d m' d' es)
    (hopen : ∀ j, d.missing = some j → ∀ r, m.store.jobs.get j = some r → r.terminal = false)
    {j : String} {r : JobRecord} (hget : m.store.jobs.get j = some r) (ht : r.terminal = true) :
    m'.store.jobs.get j = some r := by
  cases h with
  | missingPayload htr => exact htr.spares (fun r _ _ hr _ => hopen _ rfl r hr) hget ht
  | mark htr | markSkip htr | markError htr | revert htr | fail htr =>
    refine htr.spares (fun r r' c' _ hrun => ?_) hget ht
    cases Mutator.rewrites_of_run hrun
    assumption
  | _ => exact hget

theorem Stepped.drainer_of_ne (h : Stepped cfg s a t es) (ha : ∀ ch, a ≠ .drainer ch) :
    t.drainer = s.drainer ∨ t.drainer = .idle := by
  cases h with
  | drainer => exact absurd rfl (ha _)
  | start | crash => exact .inr rfl
  | _ => exact .inl rfl

theorem MissingOpen.step (hok : sparesMissing cfg s a = true)
    (hst : step cfg s a = some (t, es)) : MissingOpen t := by
  intro j hj
  by_cases ha : ∃ ch, a = .drainer ch
  · obtain ⟨ch, rfl⟩ := ha
    obtain ⟨stmt, mem, q, -, hcode, hp, rfl⟩ := step_drainer hst
    obtain ⟨rfl, r, hget, ht⟩ := (Drainer.steps hcode hp).open_of_missing hj
    exact (finished_of_get (s := { s with drainer := _ }) hget).trans ht
  · have ha : ∀ ch, a ≠ .drainer ch := fun ch hch => ha ⟨ch, hch⟩
    rcases (stepped_of_step hst).drainer_of_ne ha with hd | hd
    · rw [hd] at hj
      cases a with
      | drainer ch => exact absurd rfl (ha ch)
      | _ => simpa [sparesMissing, hj, hst] using hok
    · simp [hd, Drainer.missing] at hj

/-- `Dispatch` overwrites no finished record, on any database contents and however other
goroutines interleave with it, if no one finishes a payload-less job behind its back. -/
theorem dispatch_spares_terminal (cfg : Config) {att : Attempt}
    (hs : s.drainer = .dispatch att .load)
    (hrun : (machine cfg).Run (fun s a => sparesMissing cfg s a = true) s as es t)
    (hstep : step cfg t (.drainer ch) = some (u, fs)) {j : String} {r : JobRecord}
    (hget : t.mem.store.getJob j = some r) (hr : r.status = .done ∨ r.status = .failed) :
    u.mem.store.getJob j = some r := by
  have hopen : MissingOpen t := by
    refine hrun.invariant ?_ fun t a u e _ hok hst => .step hok hst
    intro j hj
    simp [hs, Drainer.missing] at hj
  obtain ⟨stmt, mem, q, -, hcode, hp, rfl⟩ := step_drainer hstep
  refine (Drainer.steps hcode hp).spares (fun j hj r hr => ?_) hget (r.terminal_iff.mpr hr)
  exact (finished_of_get hr).symm.trans (hopen j hj)

theorem validKey_sampleLegacy : validKey "j" = true := by decide

/-- A database file of an earlier phase: the job is RUNNING on `w` and has no payload. -/
def sampleLegacy : BoltStore where
  jobs := Lib.Bucket.empty.insert "j" { id := "j", status := .running, workerID := "w" }
    validKey_sampleLegacy
  idempotency := .empty

def sampleRecoveredLegacy : State × List Event :=
  ((machine sampleConfig).exec (fun _ _ => true) { mem := { store := sampleLegacy } }
    [.start, .main {}, .main { now := 1 }, .main {}, .main {}, .drainer {}]).get (by decide)

def sampleLegacyReport : ReportTaskResultRequest :=
  { jobID := "j", workerID := "w", success := true, resultBytes := [7] }

def sampleReportedLegacy : State × List Event :=
  ((machine sampleConfig).exec (sparesMissing sampleConfig) sampleRecoveredLegacy.1
    (sampleReport 0 2 sampleLegacyReport)).get (by decide)

theorem dispatch_spares_terminal_sample :
    sampleRecoveredLegacy.1.drainer = .dispatch { jobID := "j" } .load ∧
      ∃ u fs r, step sampleConfig sampleReportedLegacy.1 (.drainer {}) = some (u, fs) ∧
        u.mem.store.getJob "j" = some r ∧ r.status = .done := by
  have hs : sampleRecoveredLegacy.1.drainer = .dispatch { jobID := "j" } .load := by decide
  have hrun : (machine sampleConfig).Run (fun s a => sparesMissing sampleConfig s a = true)
      sampleRecoveredLegacy.1 _ sampleReportedLegacy.2 sampleReportedLegacy.1 :=
    Lib.Machine.run_of_exec_get (by decide)
  exact ⟨hs, _, _, _, rfl, dispatch_spares_terminal sampleConfig hs hrun rfl rfl (.inl rfl), rfl⟩

/-- `w` reports the job after `Dispatch` has read it. -/
def sampleOvertaken : State × List Event :=
  ((machine sampleConfig).exec (fun _ _ => true) sampleRecoveredLegacy.1
    (.drainer {} :: sampleReport 0 2 sampleLegacyReport)).get (by decide)

/-- `Dispatch` turns the DONE record into a FAILED one. -/
theorem dispatch_overwrites_done : ∃ (s : State) (att : Attempt) (as : List Action)
    (es : List Event) (t : State) (u : State) (fs : List Event) (r r' : JobRecord),
    s.drainer = .dispatch att .load ∧
      (machine sampleConfig).Run Lib.Machine.Always s as es t ∧
      step sampleConfig t (.drainer {}) = some (u, fs) ∧
      t.mem.store.getJob att.jobID = some r ∧ r.status = .done ∧ r.resultBytes = [7] ∧
      u.mem.store.getJob att.jobID = some r' ∧ r'.status = .failed :=
  ⟨sampleRecoveredLegacy.1, { jobID := "j" }, _, sampleOvertaken.2, sampleOvertaken.1, _, _, _, _,
    by decide, (Lib.Machine.run_of_exec_get (by decide)).mono fun _ _ _ => trivial, rfl, rfl, rfl,
    rfl, rfl, rfl⟩

end Minimodal.Server
