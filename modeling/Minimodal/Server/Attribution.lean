import Minimodal.Server.Cache
import Minimodal.Server.Watch
import Minimodal.Server.Writes

namespace Minimodal

@[simp] theorem jobStatusResponse_workerID (r : JobRecord) (now : Nat)
    (entry : Option ResultEntry) : (jobStatusResponse r now entry).workerID = r.workerID := by
  unfold jobStatusResponse
  repeat' split
  all_goals rfl

structure JobRecord.Credits (r : JobRecord) (req : ReportTaskResultRequest) : Prop where
  status : r.status = if req.success then .done else .failed
  resultBytes : r.resultBytes = req.resultBytes
  error : r.error = if req.success then "" else req.error
  workerID : r.workerID = req.workerID

theorem JobRecord.Credits.terminal {r : JobRecord} {req : ReportTaskResultRequest}
    (h : r.Credits req) : r.terminal = true := by
  rw [JobRecord.terminal_iff, h.status]
  split <;> simp

theorem JobRecord.Credits.same {r r' : JobRecord} {req : ReportTaskResultRequest}
    (h : r.Credits req) (hsame : r.Same r') : r'.Credits req := by
  have hr : { r' with updatedAt := r.updatedAt } = r := hsame
  rw [← hr] at h
  exact ⟨h.status, h.resultBytes, h.error, h.workerID⟩

namespace Server

variable {cfg : Config} {s t : State} {a : Action} {es fs : List Event} {j : String}

/-- A report of `j` that may finish the job comes from the worker that the record names. -/
def fromHolder (j : String) (s : State) : Action → Bool
  | .call c _ =>
    match s.calls c with
    | .report req =>
      req.jobID ≠ j || (s.mem.store.getJob j).all fun r => r.terminal || r.workerID = req.workerID
    | _ => true
  | _ => true

section Reporting

variable {m m' : Mem} {ch : Choice} {req : ReportTaskResultRequest} {b : Except Err Bool}

theorem Main.Steps.not_reporting {pc pc' : Main} (h : Main.Steps m ch pc m' pc' es) :
    .transitioned j (.report req) b ∉ es := by
  cases h <;> simp

theorem Drainer.Steps.not_reporting {d d' : Drainer} (h : Drainer.Steps cfg m ch d m' d' es) :
    .transitioned j (.report req) b ∉ es := by
  cases h <;> simp

theorem Detector.Steps.not_reporting {d d' : Detector} (h : Detector.Steps cfg m ch d m' d' es) :
    .transitioned j (.report req) b ∉ es := by
  cases h <;> simp

theorem Handler.Steps.reporting {c : Nat} {h h' : Handler} (hst : Handler.Steps m ch c h m' h' es)
    (hev : .transitioned j (.report req) b ∈ es) : h = .report req ∧ req.jobID = j := by
  cases hst with
  | report | reportError =>
    simp only [List.mem_singleton, Event.transitioned.injEq, Mutator.report.injEq] at hev
    obtain ⟨rfl, rfl, -⟩ := hev
    exact ⟨rfl, rfl⟩
  | quiet _ _ _ hes => simpa [Event.Quiet] using hes _ hev
  | _ => simp at hev

theorem Stepped.reporting (h : Stepped cfg s a t es) (hev : .transitioned j (.report req) b ∈ es) :
    ∃ c ch, a = .call c ch ∧ s.calls c = .report req ∧ req.jobID = j := by
  cases h with
  | call hcode hp => exact ⟨_, _, rfl, (Handler.steps hcode hp).reporting hev⟩
  | main hcode hp => exact absurd hev (Main.steps hcode hp).not_reporting
  | drainer _ hcode hp => exact absurd hev (Drainer.steps hcode hp).not_reporting
  | detector _ hcode hp => exact absurd hev (Detector.steps hcode hp).not_reporting
  | _ => simp at hev

end Reporting

def Credited (es : List Event) (j : String) (found : Option JobRecord) : Prop :=
  ∀ req, .transitioned j (.report req) (.ok true) ∈ es → ∃ r, found = some r ∧ r.Credits req

theorem Written.credited {old new : Option JobRecord} (h : Written j old new fs)
    (hc : Credited es j old)
    (hholder : ∀ req r, .transitioned j (.report req) (.ok true) ∈ fs → old = some r →
      r.terminal = false → r.workerID = req.workerID) : Credited (es ++ fs) j new := by
  intro req hmem
  cases h with
  | none hes => exact hc req ((List.mem_append.mp hmem).resolve_right (hes _))
  | @transition mutate r r' c now hold hm hrun =>
    refine ⟨_, rfl, ?_⟩
    rcases List.mem_append.mp hmem with hmem | hmem
    · obtain ⟨r₀, hr₀, hcred⟩ := hc req hmem
      obtain rfl := Option.some.inj (hr₀.symm.trans hold)
      have hsame : r₀.Same r' := (Mutator.evolves hm hrun).frozen hcred.terminal
      have hcred' := hcred.same hsame
      exact ⟨hcred'.status, hcred'.resultBytes, hcred'.error, hcred'.workerID⟩
    · simp only [List.mem_singleton, Event.transitioned.injEq, and_true, true_and] at hmem
      subst hmem
      obtain ⟨hr, rfl⟩ := Mutator.run_report hrun
      exact ⟨rfl, rfl, rfl, hholder req r (by simp) hold hr⟩
  | create hold =>
    rcases List.mem_append.mp hmem with hmem | hmem
    · obtain ⟨r₀, hr₀, -⟩ := hc req hmem
      simp [hold] at hr₀
    · simp at hmem

def Named (st : BoltStore) (resp : JobStatusResponse) : Prop :=
  resp.status = .done ∨ resp.status = .failed →
    ∃ r, st.jobs.get resp.jobID = some r ∧ r.terminal = true ∧ resp.workerID = r.workerID

theorem Named.kept {st st' : BoltStore} {resp : JobStatusResponse} (h : Named st resp)
    (hkept : Kept st st') : Named st' resp := by
  intro hs
  obtain ⟨r, hr, ht, hw⟩ := h hs
  obtain ⟨r', hr', he⟩ := hkept _ r hr
  have hr₀ : { r' with updatedAt := r.updatedAt } = r := he.frozen ht
  exact ⟨r', hr', he.terminal ht, by rw [hw, ← hr₀]⟩

theorem named_of_lookup {st : BoltStore} {rec : JobRecord} (ht : rec.terminal = true)
    (hf : Final st rec) (now : Nat) (entry : Option ResultEntry) :
    Named st (jobStatusResponse rec now entry) := by
  intro _
  obtain ⟨r, hr, hsame⟩ := hf
  have hr₀ : { r with updatedAt := rec.updatedAt } = rec := hsame
  exact ⟨r, by simpa using hr, hsame.terminal.trans ht, by rw [jobStatusResponse_workerID, ← hr₀]⟩

theorem credited_of_run {as : List Action}
    (h : (machine cfg).Run (fun s a => fromHolder j s a = true) init as es s) :
    Inv s ∧ Credited es j (s.mem.store.jobs.get j) ∧ Answered Named es s := by
  refine h.invariant_trace (P := fun es s => Inv s ∧ Credited es j (s.mem.store.jobs.get j) ∧
    Answered Named es s) ⟨.init, by simp [Credited], .init⟩ ?_
  rintro es s a t fs ⟨hi, hc, hn⟩ hok hst
  have hst := stepped_of_step hst
  obtain ⟨hi', hkept⟩ := hi.step hst
  refine ⟨hi', ((hst.writes hi).written j).credited hc ?_, ?_⟩
  · intro req r hmem hr hopen
    obtain ⟨c, ch, rfl, hcall, rfl⟩ := hst.reporting hmem
    simpa [fromHolder, hcall, BoltStore.getJob, hr, hopen] using hok
  · refine hn.step hi (fun resp hresp => hresp.kept hkept) ?_ ?_ hst
    · intro rec now hopen hs
      simp [rec.terminal_iff.mpr hs] at hopen
    · exact fun rec now ht hf => named_of_lookup ht hf now _

/-- If each report of `j` that could finish it comes from the worker on record, the record holds the
result of the committed report under its worker's name, and so say `GetJobStatus` and `WatchJob`. -/
theorem result_credited_to_reporter (cfg : Config) {as : List Action} {es : List Event} {s : State}
    {j : String} (h : (machine cfg).Run (fun s a => fromHolder j s a = true) init as es s)
    {req : ReportTaskResultRequest} (hrep : .transitioned j (.report req) (.ok true) ∈ es) :
    (∃ r, s.mem.store.getJob j = some r ∧ r.Credits req) ∧
      (∀ c resp, .jobStatus c resp ∈ es → resp.jobID = j →
        resp.status = .done ∨ resp.status = .failed → resp.workerID = req.workerID) ∧
      ∀ c res, .watched c (.result j res) ∈ es → res.workerID = req.workerID := by
  obtain ⟨-, hc, hn⟩ := credited_of_run h
  obtain ⟨r, hget, hcred⟩ := hc req hrep
  refine ⟨⟨r, hget, hcred⟩, fun c resp hev hj hs => ?_, fun c res hev => ?_⟩
  · obtain ⟨r', hget', -, hw⟩ := hn.sent c resp hev hs
    rw [hj, hget, Option.some.injEq] at hget'
    rw [hw, ← hget', hcred.workerID]
  · obtain ⟨-, -, hes⟩ := announced_of_run (h.mono fun _ _ _ => trivial)
    obtain ⟨r', hget', -, hres⟩ := hes _ hev
    rw [hget, Option.some.injEq] at hget'
    subst hget'
    simp only [jobResultEvent, JobEvent.result.injEq] at hres
    rw [← hres.2, hcred.workerID]

def sampleOutcome : ReportTaskResultRequest where
  jobID := "j"
  workerID := "w"
  success := true
  resultBytes := [7]

def sampleHonest : State × List Event :=
  ((machine sampleConfig).exec (fromHolder "j") init
    [sampleSubmit, sampleDispatch, sampleReport 1 4 sampleOutcome, sampleStatus 2].flatten).get (by decide)

theorem result_credited_to_reporter_sample : ∃ resp,
    .jobStatus 2 resp ∈ sampleHonest.2 ∧ resp.status = .done ∧ resp.resultBytes = [7] ∧
      resp.workerID = "w" := by
  have hrun : (machine sampleConfig).Run (fun s a => fromHolder "j" s a = true) init _
      sampleHonest.2 sampleHonest.1 := Lib.Machine.run_of_exec_get (by decide)
  have hrep : .transitioned "j" (.report sampleOutcome) (.ok true) ∈ sampleHonest.2 := by decide
  have hev : .jobStatus 2 ⟨"j", .done, [7], "", 0, 0, 0, "w"⟩ ∈ sampleHonest.2 := by decide
  exact ⟨_, hev, rfl, rfl,
    (result_credited_to_reporter sampleConfig hrun hrep).2.1 _ _ hev rfl (.inl rfl)⟩

/-- `w` falls silent, the job is sent to `v`, and then the report of `w` arrives. -/
def sampleOutrun : State × List Event :=
  ((machine sampleConfig).exec (fun _ _ => true) init
    [sampleSubmit, sampleDispatch, [.registerWorker ⟨"v", "host:2", 1⟩ 99,
        .detector { now := 100, order := ["v", "w"] }, .detector {}, .detector { now := 101 },
        .detector {}, .detector {}, .drainer {}, .drainer {}, .drainer { order := ["v", "w"] },
        .drainer { now := 102 }, .drainer {}, .drainer {}, .drainer {}],
      sampleReport 1 103 sampleOutcome, sampleStatus 2].flatten).get (by decide)

theorem result_credited_to_other : ∃ as es s r resp,
    (machine sampleConfig).Run Lib.Machine.Always init as es s ∧
      .transitioned "j" (.report sampleOutcome) (.ok true) ∈ es ∧
      s.mem.store.getJob "j" = some r ∧ r.status = .done ∧ r.resultBytes = [7] ∧
      r.workerID = "v" ∧ sampleOutcome.workerID = "w" ∧ .jobStatus 2 resp ∈ es ∧
      resp.jobID = "j" ∧ resp.workerID = "v" := by
  have hrun : (machine sampleConfig).Run Lib.Machine.Always init _ sampleOutrun.2 sampleOutrun.1 :=
    (Lib.Machine.run_of_exec_get (by decide)).mono fun _ _ _ => trivial
  exact ⟨_, _, _, _, ⟨"j", .done, [7], "", 0, 0, 1, "v"⟩, hrun, by decide, rfl, rfl, rfl, rfl,
    rfl, by decide, rfl, rfl⟩

end Server

end Minimodal
