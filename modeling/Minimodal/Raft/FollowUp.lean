import Minimodal.Raft.Cluster
import Minimodal.Server.Terminal

namespace Minimodal

namespace Mutator

def runs (mutate : Mutator) (c : Captured) (versions : List JobRecord) : Captured :=
  versions.foldl (fun c r => (mutate.run c r).1) c

@[simp] theorem runs_nil (mutate : Mutator) (c : Captured) : mutate.runs c [] = c := rfl

@[simp] theorem runs_concat (mutate : Mutator) (c : Captured) (versions : List JobRecord)
    (r : JobRecord) :
    mutate.runs c (versions ++ [r]) = (mutate.run (mutate.runs c versions) r).1 := by
  simp [runs]

end Mutator

def JobRecord.requeues (maxRetries : Int) (r : JobRecord) : Prop :=
  r.status = .running ∧ r.retryCount + 1 ≤ maxRetries

def JobRecord.exhausts (maxRetries : Int) (r : JobRecord) : Prop :=
  r.status = .running ∧ maxRetries < r.retryCount + 1

section Reap

variable {k : Int} {c c' : Captured} {r r' : JobRecord}

theorem Mutator.run_reap_marks : ((reap k).run c r).1.markedPending = true ↔
    c.markedPending = true ∨ r.requeues k := by
  simp only [run, JobRecord.requeues]
  split
  · rename_i hst
    simp [hst]
  · rename_i hst
    rw [not_not] at hst
    split
    · rename_i hk
      simp [hst, not_le.mpr hk]
    · rename_i hk
      simp [hst, not_lt.mp hk]

theorem Mutator.markedPending_runs {versions : List JobRecord} :
    ((reap k).runs c versions).markedPending = true ↔
      c.markedPending = true ∨ ∃ r ∈ versions, r.requeues k := by
  induction versions using List.reverseRecOn with
  | nil => simp
  | append_singleton versions r ih =>
    rw [runs_concat, run_reap_marks, ih]
    simp only [List.mem_append, List.mem_singleton, or_and_right, exists_or, exists_eq_left,
      or_assoc]

theorem Mutator.run_reap_ok (h : (reap k).run c r = (c', .ok r')) :
    r.requeues k ∧ r'.status = .pending ∨
      r.exhausts k ∧ r'.status = .failed ∧ c'.markedFailed = true := by
  cases rewrites_of_run h with
  | giveUp hst hk => exact .inr ⟨⟨hst, hk⟩, rfl, rfl⟩
  | requeue hst hk => exact .inl ⟨⟨hst, hk⟩, rfl⟩

end Reap

namespace Server

/-- A `Transition` that may run its closure on several versions of the record: first on
`abandoned`, whose results come to nothing, then on the one it returns from. -/
inductive Transitioned (mutate : Mutator) (abandoned : List JobRecord) :
    Option JobRecord → Captured × Except Err Bool → Prop
  | commit {r r' c} : mutate.run (mutate.runs {} abandoned) r = (c, .ok r') →
      Transitioned mutate abandoned (some r') (c, .ok true)
  | skip {r c} : mutate.run (mutate.runs {} abandoned) r = (c, .error .errSkipTransition) →
      Transitioned mutate abandoned none (c, .ok false)
  | error {c e} : Transitioned mutate abandoned none (c, .error e)

def Detector.after (cfg : Config) (workerID : String) (job : JobRecord) (jobs : List JobRecord)
    (dead : List String) (result : Captured × Except Err Bool) : Detector :=
  ((code cfg (.reassign workerID job jobs dead)).get rfl).next result

section After

variable {cfg : Config} {workerID jobID : String} {job : JobRecord} {jobs : List JobRecord}
  {dead : List String} {result : Captured × Except Err Bool} {abandoned : List JobRecord}
  {committed : Option JobRecord}

theorem Detector.next_ne_enqueue {pc : EnqueuePc} {jobs' : List JobRecord} {dead' : List String} :
    next workerID jobs dead ≠ .enqueue workerID jobID pc jobs' dead' :=
  next_ind workerID jobs dead (by simp) (by simp)

theorem Detector.next_ne_notify {pc : NotifyPc} {jobs' : List JobRecord} {dead' : List String} :
    next workerID jobs dead ≠ .notify workerID jobID pc jobs' dead' :=
  next_ind workerID jobs dead (by simp) (by simp)

theorem Detector.after_commit {c : Captured} :
    after cfg workerID job jobs dead (c, .ok true) =
      if c.markedPending then .enqueue workerID job.id .check jobs dead
      else if c.markedFailed then .notify workerID job.id .load jobs dead
      else next workerID jobs dead := rfl

theorem Detector.after_of_ne (h : result.2 ≠ .ok true) :
    after cfg workerID job jobs dead result = next workerID jobs dead := by
  obtain ⟨c, _ | _ | _⟩ := result
  · rfl
  · rfl
  · exact absurd rfl h

/-- Whatever the store, the reaper enqueues the jobs it commits as PENDING and announces those it
commits as FAILED, unless the closure had sent a job back on an earlier version of the record and
gives it up on the last one. -/
theorem followUp_matches_iff (cfg : Config) (workerID : String) (job : JobRecord)
    (jobs : List JobRecord) (dead : List String)
    (h : Transitioned (.reap cfg.maxRetries) abandoned committed result) :
    ((Detector.after cfg workerID job jobs dead result =
          .enqueue workerID job.id .check jobs dead ↔
        ∃ r, committed = some r ∧ r.status = .pending) ∧
      (Detector.after cfg workerID job jobs dead result =
          .notify workerID job.id .load jobs dead ↔
        ∃ r, committed = some r ∧ r.status = .failed)) ↔
    ¬ ((∃ r, committed = some r ∧ r.status = .failed) ∧
      ∃ q ∈ abandoned, q.requeues cfg.maxRetries) := by
  cases h with
  | @commit r r' c hrun =>
    have hmark : c.markedPending = true ↔
        (∃ q ∈ abandoned, q.requeues cfg.maxRetries) ∨ r.requeues cfg.maxRetries := by
      have := Mutator.run_reap_marks (k := cfg.maxRetries)
        (c := (Mutator.reap cfg.maxRetries).runs {} abandoned) (r := r)
      rw [hrun, Mutator.markedPending_runs] at this
      simpa using this
    rw [Detector.after_commit]
    rcases Mutator.run_reap_ok hrun with ⟨hr, hst⟩ | ⟨hr, hst, hc⟩
    · simp [hmark.mpr (.inr hr), hst]
    · have hnot : ¬ r.requeues cfg.maxRetries := fun hq => absurd hr.2 (not_lt.mpr hq.2)
      by_cases hq : ∃ q ∈ abandoned, q.requeues cfg.maxRetries
      · simp [hmark.mpr (.inl hq), hst, hq]
      · have hp : c.markedPending = false := by
          rw [← Bool.not_eq_true, hmark]
          exact not_or.mpr ⟨hq, hnot⟩
        simp [hp, hc, hst, hq]
  | skip | error =>
    rw [Detector.after_of_ne (by simp)]
    simp [Detector.next_ne_enqueue, Detector.next_ne_notify]

def sampleOrphan : JobRecord := { id := "j", status := .running, workerID := "w" }

theorem followUp_matches_iff_sample :
    Detector.after sampleConfig "w" sampleOrphan [] [] ({ markedPending := true }, .ok true) =
        .enqueue "w" "j" .check [] [] ∧
      Detector.after sampleConfig "w" sampleOrphan [] [] ({ markedPending := true }, .ok true) ≠
        .notify "w" "j" .load [] [] := by
  have h : Transitioned (.reap sampleConfig.maxRetries) [sampleOrphan]
      (some { id := "j", status := .pending, retryCount := 2 })
      ({ markedPending := true }, .ok true) :=
    .commit (r := { id := "j", status := .running, workerID := "v", retryCount := 1 }) rfl
  have hmatch := (followUp_matches_iff sampleConfig "w" sampleOrphan [] [] h).mpr (by simp)
  exact ⟨hmatch.1.mpr ⟨_, rfl, rfl⟩, fun hn => by simpa using hmatch.2.mp hn⟩

theorem Transits.transitioned {m m' : Mem} {ch : Choice} {mutate : Mutator} {c : Captured}
    {b : Except Err Bool} (h : Transits m ch jobID mutate m' c b) :
    ∃ committed, Transitioned mutate [] committed (c, b) ∧
      ∀ r, committed = some r → m'.store.jobs.get jobID = some (r.stamp ch.now) := by
  cases h with
  | @commit r r' c hkey _ _ hrun =>
    exact ⟨some r', .commit hrun, fun q hq => by
      rw [← Option.some.inj hq]
      exact Lib.Bucket.get_insert_self _ _ _ hkey⟩
  | skip _ _ hrun => exact ⟨none, .skip hrun, by simp⟩
  | error => exact ⟨none, .error, by simp⟩

end After

end Server

namespace Raft

open Server (Detector Choice Transitioned)

def Routine.Ran {Pc : Type} (code : Pc → Option (Server.Code Pc)) : Routine Pc → Prop
  | .run pc _ c => ∀ jobID mutate next, code pc = some ⟨.transition jobID mutate, next⟩ →
      ∃ versions, c = mutate.runs {} versions
  | .waiting pc _ c _ _ => ∀ jobID mutate next, code pc = some ⟨.transition jobID mutate, next⟩ →
      ∃ versions r r', mutate.run (mutate.runs {} versions) r = (c, .ok r')

section Routine

variable {Pc : Type} {cfg : Config} {code : Pc → Option (Server.Code Pc)} {n n' : Node} {net : Net}
  {ch : Choice} {es : List Server.Event} {r r' : Routine Pc} {jobID : String} {mutate : Mutator}
  {next : Captured × Except Err Bool → Pc}

theorem Routine.ran_at (pc : Pc) : (Routine.at pc).Ran code := fun _ _ _ _ => ⟨[], rfl⟩

theorem Routine.Steps.ran (hr : r.Ran code) (h : Steps cfg code n net ch r n' r' es) :
    r'.Ran code := by
  cases h with
  | propose hcode _ hrun =>
    intro jobID' mutate' next' hcode'
    rw [hcode] at hcode'
    cases hcode'
    obtain ⟨versions, rfl⟩ := hr _ _ _ hcode
    exact ⟨versions, _, _, hrun⟩
  | submit hcode =>
    intro jobID' mutate' next' hcode'
    simp [hcode] at hcode'
  | retry =>
    intro jobID' mutate' next' hcode'
    obtain ⟨versions, q, q', hrun⟩ := hr _ _ _ hcode'
    exact ⟨versions ++ [q], by simp [hrun]⟩
  | _ => exact ran_at _

theorem Routine.Steps.transitioned (hr : r.Ran code)
    (hcode : code r.pc = some ⟨.transition jobID mutate, next⟩)
    (h : Steps cfg code n net ch r n' r' es) :
    r'.pc = r.pc ∧ es = [] ∨ ∃ abandoned committed result,
      Transitioned mutate abandoned committed result ∧ r' = .at (next result) ∧
        es = [.transitioned jobID mutate result.2] := by
  cases h with
  | perform hcode' hop =>
    rw [Routine.pc, hcode'] at hcode
    cases hcode
    simp [Server.Op.writes] at hop
  | absent hcode' | refused hcode' | failed hcode' =>
    rw [Routine.pc, hcode'] at hcode
    cases hcode
    exact .inr ⟨[], none, _, .error, rfl, rfl⟩
  | skip hcode' _ hrun =>
    rw [Routine.pc, hcode'] at hcode
    cases hcode
    obtain ⟨versions, rfl⟩ := hr _ _ _ hcode'
    exact .inr ⟨versions, none, _, .skip hrun, rfl, rfl⟩
  | propose | retry => exact .inl ⟨rfl, rfl⟩
  | submit hcode' | submitRefused hcode' | submitted hcode' => simp [Routine.pc, hcode'] at hcode
  | commit hcode' =>
    rw [Routine.pc, hcode'] at hcode
    cases hcode
    obtain ⟨versions, q, q', hrun⟩ := hr _ _ _ hcode'
    exact .inr ⟨versions, some q', _, .commit hrun, rfl, rfl⟩

end Routine

section Run

variable {cfg : Config} {s t : State} {a : Action} {es fs : List Event} {i : Nat} {net : Net}
  {ch : Choice}

theorem ran_of_step (hs : ∀ i, (s.nodes i).detector.Ran (Detector.code cfg))
    (h : step cfg s a = some (t, es)) : ∀ i, (t.nodes i).detector.Ran (Detector.code cfg) := by
  have hset : ∀ {i n}, n.detector.Ran (Detector.code cfg) →
      ∀ j, ((s.set i n).nodes j).detector.Ran (Detector.code cfg) := by
    intro i n hn j
    by_cases hj : j = i
    · subst hj
      simpa [State.set] using hn
    · simpa [State.set, hj] using hs j
  cases stepped_of_step h with
  | @elect i | @stepDown i | @replicate i | @commit i | @learn i => exact hset (hs i)
  | @apply i n hap =>
    refine hset ?_
    unfold Node.apply at hap
    grind
  | @watch i n hw =>
    refine hset ?_
    unfold Node.watch at hw
    grind
  | @server i net a n es uuids hserve =>
    refine hset ?_
    cases hserve with
    | detector hst => exact hst.ran (hs i)
    | main hst | drainer hst | call hst =>
      obtain ⟨log, mem, rfl, -, -⟩ := hst.frame
      exact hs i
    | other => exact hs i

theorem ran_of_run {as : List Action} (h : (machine cfg).Run Lib.Machine.Always init as es s) :
    ∀ i, (s.nodes i).detector.Ran (Detector.code cfg) :=
  h.invariant (P := fun s => ∀ i, (s.nodes i).detector.Ran (Detector.code cfg))
    (fun _ => Routine.ran_at _) fun _ _ _ _ hs _ hst => ran_of_step hs hst

theorem detector_of_step (h : step cfg s (.server i net (.detector ch)) = some (t, fs)) :
    ∃ n detector es, Routine.Steps cfg (Detector.code cfg) (s.nodes i) net ch
        (s.nodes i).detector n detector es ∧
      t.nodes = Function.update s.nodes i { n with detector } ∧ fs = es.map ((i, ·)) := by
  obtain ⟨n, es, uuids, hserve, rfl, rfl⟩ := serve_of_step h
  simp only [Node.serve, Option.map_eq_some_iff, Prod.mk.injEq, Prod.exists] at hserve
  obtain ⟨n', detector, es', hst, rfl, rfl⟩ := hserve
  exact ⟨n', detector, es', Routine.steps hst, rfl, rfl⟩

theorem reassign_of_run (cfg : Config) {as : List Action} {workerID : String} {job : JobRecord}
    {jobs : List JobRecord} {dead : List String}
    (h : (machine cfg).Run Lib.Machine.Always init as es s)
    (hpc : (s.nodes i).detector.pc = .reassign workerID job jobs dead)
    (hst : step cfg s (.server i net (.detector ch)) = some (t, fs)) :
    (t.nodes i).detector.pc = .reassign workerID job jobs dead ∧ fs = [] ∨
      ∃ abandoned committed result,
        Transitioned (.reap cfg.maxRetries) abandoned committed result ∧
          (t.nodes i).detector = .at (Detector.after cfg workerID job jobs dead result) ∧
          fs = [(i, .transitioned job.id (.reap cfg.maxRetries) result.2)] := by
  obtain ⟨n, detector, es', hd, ht, rfl⟩ := detector_of_step hst
  have hcode := congrArg (Detector.code cfg) hpc
  rw [ht, Function.update_self]
  rcases hd.transitioned (ran_of_run h i) hcode with
    ⟨hpc', rfl⟩ | ⟨abandoned, committed, result, htr, rfl, rfl⟩
  · exact .inl ⟨hpc'.trans hpc, rfl⟩
  · exact .inr ⟨abandoned, committed, result, htr, rfl, rfl⟩

end Run

def sampleBudget : Config := { Server.sampleConfig with maxRetries := 1 }

def sampleSilent : List Action :=
  [[.elect 0], [.registerWorker ⟨"w", "host:1", 1⟩ 0,
      .invokeFunction 0 { functionBytes := [1] } "j" 1, .call 0 { now := 1 }].map (.server 0 {}),
    [.commit 0 1, .apply 0],
    [.call 0 {}, .call 0 {}, .call 0 {}, .drainer {}, .drainer {}, .drainer { order := ["w"] },
      .drainer { now := 2 }].map (.server 0 {}),
    [.commit 0 2, .apply 0],
    [.drainer {}, .drainer {}, .drainer {}, .registerWorker ⟨"v", "host:2", 1⟩ 99,
      .detector { now := 100, order := ["v", "w"] }, .detector {}].map (.server 0 {})].flatten

/-- `Dispatch` takes the job back and marks it RUNNING on `v`; its first entry gets into the log
before the reaper's. -/
def sampleRaced : List Action :=
  [[.drainer { answer := .failed }, .drainer {}, .drainer { now := 101 },
      .detector { now := 102 }].map (.server 0 {}),
    [.commit 0 4, .apply 0],
    [.drainer {}, .drainer { order := ["v", "w"] }, .drainer { now := 103 }].map (.server 0 {}),
    [.apply 0, .commit 0 5, .apply 0],
    [.detector {}, .detector { now := 104 }].map (.server 0 {}),
    [.commit 0 6, .apply 0, .server 0 {} (.detector {})]].flatten

def sampleFollowUp : State × List Event :=
  ((machine sampleBudget).exec (fun _ _ => true) init (sampleSilent ++ sampleRaced)).get (by decide)

/-- The closure's first run is abandoned and the second gives the job up: the reaper enqueues the
FAILED job and tells nobody. -/
theorem failed_job_enqueued : ∃ as es s r,
    (machine sampleBudget).Run Lib.Machine.Always init as es s ∧
      es.getLast? = some (0, .transitioned "j" (.reap 1) (.ok true)) ∧
      (s.nodes 0).mem.store.getJob "j" = some r ∧ r.status = .failed ∧
      (s.nodes 0).detector = .at (.enqueue "w" "j" .check [] []) := by
  have hrun : (machine sampleBudget).Run Lib.Machine.Always init _ sampleFollowUp.2
      sampleFollowUp.1 :=
    (Lib.Machine.run_of_exec_get (by decide)).mono fun _ _ _ => trivial
  refine ⟨_, sampleFollowUp.2, sampleFollowUp.1, _, hrun, ?_, rfl, rfl, ?_⟩
  · decide
  · decide

end Raft

end Minimodal
