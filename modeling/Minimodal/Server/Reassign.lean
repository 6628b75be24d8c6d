import Minimodal.Server.Retries

namespace Minimodal

namespace Mutator

theorem run_id {m : Mutator} {c c' : Captured} {r r' : JobRecord} (h : m.run c r = (c', .ok r')) :
    r'.id = r.id := by
  cases rewrites_of_run h <;> rfl

end Mutator

namespace Server

variable {cfg : Config} {s t : State} {a : Action} {es : List Event} {m m' : Mem} {ch : Choice}
  {op : Op} {res : op.Res} {j v w : String} {js : List String}

theorem perform_keyed (hs : m.store.KeyedById) (h : perform cfg m ch op = some (m', res, es)) :
    m'.store.KeyedById := by
  rcases perform_store h with heq | ⟨jobID, mutate, -, heq⟩ | ⟨rec, key, -, heq⟩
  · rwa [heq]
  · rw [heq]
    rcases m.store.transitionWith_cases jobID mutate.run {} ch.now with
      ⟨hsame, -⟩ | ⟨r, r', c', hkey, hget, hrun, hins⟩
    · rwa [hsame]
    · rw [hins]
      refine hs.insert ?_ hkey _
      rw [JobRecord.stamp_id, Mutator.run_id hrun]
      exact hs jobID r hget
  · rw [heq]
    intro j q hq
    rcases submit_get m.store rec key ch.now j with hold | ⟨rfl, -, hnew⟩
    · exact hs j q (hold ▸ hq)
    · rw [hnew, Option.some.injEq] at hq
      rw [← hq]
      rfl

theorem keyed_of_step (hs : s.mem.store.KeyedById) (h : Stepped cfg s a t es) :
    t.mem.store.KeyedById := by
  cases h with
  | main _ hp | drainer _ _ hp | detector _ _ hp | call _ hp => exact perform_keyed hs hp
  | _ => exact hs

theorem Detector.batch_next {jobs : List JobRecord} {dead : List String}
    (h : (next v jobs dead).batch = some (w, js)) : v = w ∧ js = jobs.map (·.id) := by
  cases jobs with
  | nil => simp [next, batch] at h
  | cons job jobs =>
    simp only [next, batch, Option.some.injEq, Prod.mk.injEq] at h
    exact ⟨h.1, h.2.symm⟩

theorem Detector.Steps.batch {d d' : Detector} (h : Detector.Steps cfg m ch d m' d' es)
    (hb : d'.batch = some (w, js)) :
    (∃ js', d.batch = some (w, js') ∧ js ⊆ js') ∨
      m' = m ∧ js = (m.store.listRunningOnWorker w).map (·.id) := by
  cases h with
  | stop | sweep | listError => simp [Detector.batch] at hb
  | list =>
    obtain ⟨rfl, rfl⟩ := batch_next hb
    exact .inr ⟨rfl, rfl⟩
  | requeue | giveUp =>
    simp only [Detector.batch, Option.some.injEq, Prod.mk.injEq] at hb
    obtain ⟨rfl, rfl⟩ := hb
    exact .inl ⟨_, rfl, List.subset_cons_self _ _⟩
  | skip =>
    obtain ⟨rfl, rfl⟩ := batch_next hb
    exact .inl ⟨_, rfl, List.subset_cons_self _ _⟩
  | check | notify => exact .inl ⟨js, hb, fun _ h => h⟩
  | checkSkip | send | notified =>
    obtain ⟨rfl, rfl⟩ := batch_next hb
    exact .inl ⟨_, rfl, fun _ h => h⟩

/-- `Dispatch` does not place a job on one worker while the reaper has it on its list of another. -/
def placedApart (s : State) : Action → Bool
  | .drainer _ => s.drainer.marking.all fun (j, v) =>
      s.detector.batch.all fun (w, js) => v = w || j ∉ js
  | _ => true

structure Listed (s : State) : Prop where
  keyed : s.mem.store.KeyedById
  newborn : ∀ c req rec, s.calls c = .submit req rec → rec.Newborn
  batch : ∀ w js j v, s.detector.batch = some (w, js) → j ∈ js → s.mem.store.RunningOn j v → v = w

theorem Listed.step (h : Listed s) (hok : placedApart s a = true) (hst : step cfg s a = some (t, es)) :
    Listed t := by
  have hstep := stepped_of_step hst
  refine ⟨keyed_of_step h.keyed hstep, hstep.submitting builtRecord_newborn h.newborn, ?_⟩
  intro w js j v hb hj hr
  have hback := running_of_step h.newborn hstep hr
  cases hstep with
  | start | crash => simp [State.lose, Detector.batch] at hb
  | detector _ hcode hp =>
    have hd := Detector.steps hcode hp
    have hr' := hd.running hr
    rcases hd.batch hb with ⟨js', hb', hsub⟩ | ⟨-, rfl⟩
    · exact h.batch w js' j v hb' (hsub hj) hr'
    · obtain ⟨r, hget, -, rfl⟩ := (BoltStore.mem_listRunningOnWorker h.keyed).mp hj
      obtain ⟨r', hget', -, rfl⟩ := hr'
      rw [hget, Option.some.injEq] at hget'
      rw [hget']
  | drainer =>
    rcases hback with hr' | hmark
    · exact h.batch w js j v hb hj hr'
    · -- the mark that is just committed
      have hb' : s.detector.batch = some (w, js) := hb
      simpa [placedApart, hmark, hb', hj] using hok
  | main hcode hp => exact h.batch w js j v hb hj ((Main.steps hcode hp).running hr)
  | call hcode hp =>
    exact h.batch w js j v hb hj ((Handler.steps hcode hp).running (h.newborn _) hr)
  | _ => exact h.batch w js j v hb hj hr

theorem Detector.Steps.touched {d d' : Detector} (h : Detector.Steps cfg m ch d m' d' es)
    (hb : d.batch = some (w, js)) (hne : m'.store.getJob j ≠ m.store.getJob j) :
    j ∈ js ∧ ∃ v, m.store.RunningOn j v := by
  have hreap : ∀ {jobID c b}, Transits m ch jobID (.reap cfg.maxRetries) m' c b →
      j = jobID ∧ ∃ v, m.store.RunningOn j v := by
    intro jobID c b ht
    cases ht with
    | @commit r r' _ hkey hf hget hrun =>
      by_cases hj : j = jobID
      · subst hj
        exact ⟨rfl, r.workerID, r, hget, (Mutator.run_reap hrun).1, rfl⟩
      · exact absurd (Lib.Bucket.get_insert_ne _ _ hkey hj) hne
    | skip | error => exact absurd rfl hne
  cases h with
  | requeue ht | giveUp ht | skip ht =>
    simp only [Detector.batch, Option.some.injEq, Prod.mk.injEq] at hb
    obtain ⟨rfl, hrun⟩ := hreap ht
    exact ⟨by simp [← hb.2], hrun⟩
  | _ => exact absurd rfl hne

/-- From any store, and whatever runs beside it: if `Dispatch` never places a job on another worker
while the job is on the reaper's list, each record that `ReassignJobsOf` of `w` changes is that of a
job RUNNING on `w`. -/
theorem reaper_touches_own (cfg : Config) {s₀ s t : State} {as : List Action} {es fs : List Event}
    {ch : Choice} (hs₀ : s₀.mem.store.KeyedById)
    (hnb : ∀ c req rec, s₀.calls c = .submit req rec → rec.Newborn) (hb₀ : s₀.detector.batch = none)
    (hrun : (machine cfg).Run (fun s a => placedApart s a = true) s₀ as es s)
    (hst : (machine cfg).step s (.detector ch) = some (t, fs)) {w j : String} {js : List String}
    (hb : s.detector.batch = some (w, js)) (hne : t.mem.store.getJob j ≠ s.mem.store.getJob j) :
    ∃ r, s.mem.store.getJob j = some r ∧ r.status = .running ∧ r.workerID = w := by
  have hlisted : Listed s := hrun.invariant (P := Listed) ⟨hs₀, hnb, by simp [hb₀]⟩
    fun _ _ _ _ hs hok hst => hs.step hok hst
  obtain ⟨mem, d, hd, rfl⟩ := detector_of_step hst
  obtain ⟨hj, v, hr⟩ := hd.touched hb hne
  obtain rfl := hlisted.batch w js j v hb hj hr
  exact hr

def sampleListed : List Action :=
  sampleSubmit ++ ([.drainer {}, .drainer {}, .drainer { order := ["w"] }, .drainer { now := 3 },
    .drainer {}, .drainer {}, .registerWorker ⟨"v", "host:2", 1⟩ 99,
    .detector { now := 100, order := ["v", "w"] }, .detector {}] : List Action)

def sampleFound : State × List Event :=
  ((machine sampleConfig).exec placedApart init sampleListed).get (by decide)

def sampleTaken : State × List Event :=
  ((machine sampleConfig).step sampleFound.1 (.detector { now := 103 })).get (by decide)

theorem reaper_touches_own_sample :
    sampleTaken.1.mem.store.getJob "j" ≠ sampleFound.1.mem.store.getJob "j" ∧
      ∃ r, sampleFound.1.mem.store.getJob "j" = some r ∧ r.status = .running ∧ r.workerID = "w" := by
  have hne : sampleTaken.1.mem.store.getJob "j" ≠ sampleFound.1.mem.store.getJob "j" := by decide
  have hrun : (machine sampleConfig).Run (fun s a => placedApart s a = true) init sampleListed
      sampleFound.2 sampleFound.1 := Lib.Machine.run_of_exec_get (by decide)
  have hst : (machine sampleConfig).step sampleFound.1 (.detector { now := 103 }) =
      some (sampleTaken.1, sampleTaken.2) := rfl
  have hb : sampleFound.1.detector.batch = some ("w", ["j"]) := by decide
  exact ⟨hne, reaper_touches_own sampleConfig (by simp [BoltStore.KeyedById, init]) (by simp [init])
    rfl hrun hst hb hne⟩

/-- `Dispatch` gives the job to `v` before the reaper comes to it. -/
def sampleMoved : State × List Event :=
  ((machine sampleConfig).exec (fun _ _ => true) init
    (sampleListed ++ ([.drainer { answer := .failed }, .drainer {}, .drainer { now := 101 },
      .drainer { order := ["v", "w"] }, .drainer { now := 102 }] : List Action))).get (by decide)

def sampleSnatched : State × List Event :=
  ((machine sampleConfig).step sampleMoved.1 (.detector { now := 103 })).get (by decide)

theorem reaper_touches_other :
    (∃ as, (machine sampleConfig).Run Lib.Machine.Always init as sampleMoved.2 sampleMoved.1) ∧
      (machine sampleConfig).step sampleMoved.1 (.detector { now := 103 }) = some sampleSnatched ∧
      sampleMoved.1.detector.batch = some ("w", ["j"]) ∧
      (∃ r, sampleMoved.1.mem.store.getJob "j" = some r ∧ r.status = .running ∧ r.workerID = "v") ∧
      sampleSnatched.1.mem.store.getJob "j" ≠ sampleMoved.1.mem.store.getJob "j" :=
  ⟨⟨_, (Lib.Machine.run_of_exec_get (by decide)).mono fun _ _ _ => trivial⟩,
    (Option.some_get (by decide)).symm, by decide, ⟨_, rfl, by decide, by decide⟩, by decide⟩

end Server

end Minimodal
