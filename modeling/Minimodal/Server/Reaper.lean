import Minimodal.Server.Pending

namespace Minimodal.Server

variable {cfg : Config} {s t : State} {a : Action} {es : List Event} {m m' : Mem} {ch : Choice}
  {j w : String}

namespace Detector

def unlisted : Detector → List String
  | .owed dead | .reassign _ _ _ dead | .enqueue _ _ _ _ dead | .notify _ _ _ _ dead => dead
  | .stopped => []

@[simp] theorem unlisted_next (w : String) (jobs : List JobRecord) (dead : List String) :
    (next w jobs dead).unlisted = dead := by
  cases jobs <;> rfl

def batch : Detector → Option (String × List String)
  | .reassign w job jobs _ => some (w, job.id :: jobs.map (·.id))
  | .enqueue w _ _ jobs _ | .notify w _ _ jobs _ => some (w, jobs.map (·.id))
  | .owed _ | .stopped => none

/-- `ReassignJobsOf w` is in progress, or it is owed for an id that a sweep has returned. -/
def Owes (d : Detector) (w : String) : Prop := w ∈ d.unlisted ∨ ∃ js, d.batch = some (w, js)

/-- The reaper will look at `j` if it runs on `w`. -/
def Reaps (d : Detector) (j w : String) : Prop :=
  w ∈ d.unlisted ∨ ∃ js, d.batch = some (w, js) ∧ j ∈ js

theorem Reaps.owes {d : Detector} (h : d.Reaps j w) : d.Owes w :=
  h.imp_right fun ⟨js, hb, _⟩ => ⟨js, hb⟩

theorem reaps_next {w' : String} {jobs : List JobRecord} {dead : List String}
    (h : w ∈ dead ∨ w' = w ∧ j ∈ jobs.map (·.id)) : (next w' jobs dead).Reaps j w := by
  cases jobs with
  | nil => exact .inl (h.resolve_right (by simp))
  | cons job jobs =>
    refine h.imp_right ?_
    rintro ⟨rfl, hj⟩
    exact ⟨_, rfl, hj⟩

theorem Steps.running {d d' : Detector} (h : Steps cfg m ch d m' d' es)
    (hr : m'.store.RunningOn j w) : m.store.RunningOn j w := by
  cases h with
  | requeue ht | giveUp ht | skip ht => exact (ht.running hr).resolve_right (by simp)
  | _ => exact hr

theorem Steps.reaps {d d' : Detector} (h : Steps cfg m ch d m' d' es) (hf : ch.fault = none)
    (hs : m.store.Sound) (hr : m'.store.RunningOn j w) (hold : d.Reaps j w) : d'.Reaps j w := by
  cases h with
  | stop | sweep =>
    rcases hold with hw | ⟨js, hb, -⟩
    · simp [unlisted] at hw
    · simp [batch] at hb
  | list =>
    rcases hold with hw | ⟨js, hb, -⟩
    · rcases List.mem_cons.mp hw with rfl | hw
      · exact reaps_next (.inr ⟨rfl, (BoltStore.mem_listRunningOnWorker hs.keyedById).mpr hr⟩)
      · exact reaps_next (.inl hw)
    · simp [batch] at hb
  | listError hbad => simp [hf] at hbad
  | requeue ht | giveUp ht | skip ht =>
    have hne := (ht.stopped (by simp) hf hr).2
    rcases hold with hw | ⟨js, hb, hj⟩
    · first
        | exact .inl hw
        | exact reaps_next (.inl hw)
    · simp only [batch, Option.some.injEq, Prod.mk.injEq] at hb
      obtain ⟨rfl, rfl⟩ := hb
      have hj := (List.mem_cons.mp hj).resolve_left hne
      first
        | exact .inr ⟨_, rfl, hj⟩
        | exact reaps_next (.inr ⟨rfl, hj⟩)
  | check | notify => exact hold
  | checkSkip | send | notified =>
    rcases hold with hw | ⟨js, hb, hj⟩
    · exact reaps_next (.inl hw)
    · simp only [batch, Option.some.injEq, Prod.mk.injEq] at hb
      obtain ⟨rfl, rfl⟩ := hb
      exact reaps_next (.inr ⟨rfl, hj⟩)

def Covers (m : Mem) (d : Detector) (j w : String) : Prop :=
  m.pool.isAlive w = true ∨ d.Reaps j w

theorem Steps.covers {d d' : Detector} (h : Steps cfg m ch d m' d' es) (hf : ch.fault = none)
    (hs : m.store.Sound) (hr : m'.store.RunningOn j w)
    (hold : m.store.RunningOn j w → Covers m d j w) : Covers m' d' j w := by
  rcases hold (h.running hr) with halive | hreaps
  · cases h with
    | @sweep entries =>
      by_cases hdead : w ∈ (m.pool.sweep cfg.workerTimeout ch.now entries).2
      · exact .inr (.inl hdead)
      · exact .inl ((WorkerPool.isAlive_sweep _ _ _ _ _).mpr ⟨halive, hdead⟩)
    | requeue ht | giveUp ht | skip ht =>
      rw [ht.mem]
      exact .inl halive
    | _ => exact .inl halive
  · exact .inr (h.reaps hf hs hr hreaps)

end Detector

def Drainer.marking : Drainer → Option (String × String)
  | .dispatch a (.mark _ _ workerID _) => some (a.jobID, workerID)
  | _ => none

theorem Drainer.Steps.pool {d d' : Drainer} (h : Drainer.Steps cfg m ch d m' d' es) :
    m'.pool = m.pool := by
  cases h with
  | missingPayload ht | mark ht | markSkip ht | markError ht | revert ht | fail ht => rw [ht.mem]
  | _ => rfl

theorem Drainer.Steps.running {d d' : Drainer} (h : Drainer.Steps cfg m ch d m' d' es)
    (hr : m'.store.RunningOn j w) : m.store.RunningOn j w ∨ d.marking = some (j, w) := by
  cases h with
  | missingPayload ht | revert ht | fail ht => exact .inl ((ht.running hr).resolve_right (by simp))
  | mark ht | markSkip ht | markError ht =>
    rcases ht.running hr with hold | ⟨rfl, hm, -⟩
    · exact .inl hold
    · exact .inr (by rw [marking, Mutator.markRunning.inj hm])
  | _ => exact .inl hr

theorem Handler.Steps.pool {c : Nat} {h h' : Handler} (hst : Handler.Steps m ch c h m' h' es) :
    m'.pool = m.pool := by
  cases hst with
  | report ht | reportError ht => rw [ht.mem]
  | quiet _ _ hm _ => exact hm.pool
  | _ => rfl

theorem Handler.Steps.running {c : Nat} {h h' : Handler} (hst : Handler.Steps m ch c h m' h' es)
    (hnb : ∀ req rec, h = .submit req rec → rec.Newborn) (hr : m'.store.RunningOn j w) :
    m.store.RunningOn j w := by
  cases hst with
  | @created req rec _ _ _ hres | @existing req rec _ _ _ hres =>
    obtain ⟨r, hget, hst, hw⟩ := hr
    rcases submit_get m.store rec req.idempotencyKey ch.now j with heq | ⟨-, -, heq⟩
    · rw [hres] at heq
      exact ⟨r, heq ▸ hget, hst, hw⟩
    · rw [hres] at heq
      rw [show Lib.Bucket.get _ j = some r from hget, Option.some.injEq] at heq
      simp [heq, (hnb req rec rfl).status] at hst
  | report ht | reportError ht => exact (ht.running hr).resolve_right (by simp)
  | quiet _ _ hm _ => exact hm.store ▸ hr
  | _ => exact hr

theorem Main.Steps.running {pc pc' : Main} (h : Main.Steps m ch pc m' pc' es)
    (hr : m'.store.RunningOn j w) : m.store.RunningOn j w := by
  cases h with
  | replay ht | replayError ht => exact (ht.running hr).resolve_right (by simp)
  | _ => exact hr

theorem running_of_step (hnb : ∀ c req rec, s.calls c = .submit req rec → rec.Newborn)
    (hst : Stepped cfg s a t es) (h : t.mem.store.RunningOn j w) :
    s.mem.store.RunningOn j w ∨ s.drainer.marking = some (j, w) := by
  cases hst with
  | main hcode hp => exact .inl ((Main.steps hcode hp).running h)
  | drainer _ hcode hp => exact (Drainer.steps hcode hp).running h
  | detector _ hcode hp => exact .inl ((Detector.steps hcode hp).running h)
  | call hcode hp => exact .inl ((Handler.steps hcode hp).running (hnb _) h)
  | _ => exact .inl h

def Main.unreplayed : Main → Option (List String)
  | .down | .list => none
  | .replay job jobs => some (job.id :: jobs.map (·.id))
  | .enqueue _ _ jobs => some (jobs.map (·.id))
  | .serving => some []

@[simp] theorem Main.unreplayed_next (jobs : List JobRecord) :
    (next jobs).unreplayed = some (jobs.map (·.id)) := by
  cases jobs <;> rfl

def Demoting (m : Mem) (pc : Main) : Prop :=
  ∀ js, pc.unreplayed = some js → ∀ j w, m.store.RunningOn j w → j ∈ js

theorem Main.Steps.demoting {pc pc' : Main} (h : Main.Steps m ch pc m' pc' es)
    (hf : ch.fault = none) (hs : m.store.Sound) (hd : Demoting m pc) : Demoting m' pc' := by
  intro js hjs j w hr
  cases h with
  | list =>
    simp only [unreplayed_next, Option.some.injEq] at hjs
    exact hjs ▸ (BoltStore.mem_listUnfinished hs.keyedById).mpr hr.unfinished
  | listError => simp [unreplayed] at hjs
  | replay ht =>
    obtain ⟨hr', hne⟩ := ht.stopped (by simp) hf hr
    obtain rfl := Option.some.inj hjs
    exact (List.mem_cons.mp (hd _ rfl j w hr')).resolve_left hne
  | replayError ht =>
    obtain ⟨hr', hne⟩ := ht.stopped (by simp) hf hr
    simp only [unreplayed_next, Option.some.injEq] at hjs
    exact hjs ▸ (List.mem_cons.mp (hd _ rfl j w hr')).resolve_left hne
  | check => exact hd js hjs j w hr
  | checkSkip | send =>
    simp only [unreplayed_next, Option.some.injEq] at hjs
    exact hjs ▸ hd _ rfl j w hr

/-- When `Dispatch` marks a job RUNNING, the worker it has picked is still alive, or a sweep
has returned it and the reaper has not yet listed its jobs. -/
def markSeen (s : State) : Action → Bool
  | .drainer _ =>
    s.drainer.marking.all fun (_, w) => s.mem.pool.isAlive w || s.detector.unlisted.contains w
  | _ => true

structure Reapable (s : State) : Prop where
  boot : s.main ≠ .serving → Demoting s.mem s.main
  live : s.main = .serving → ∀ j w, s.mem.store.RunningOn j w →
    Detector.Covers s.mem s.detector j w

theorem Reapable.init : Reapable init where
  boot _ js hjs := by simp [Server.init, Main.unreplayed] at hjs
  live h := by simp [Server.init] at h

theorem Reapable.step (h : Reapable s) (hi : Inv s)
    (hok : a.storeSucceeds = true) (hseen : markSeen s a = true) (hst : Stepped cfg s a t es) :
    Reapable t := by
  cases hst with
  | start | crash =>
    exact ⟨fun _ _ hjs => by simp [State.lose, Main.unreplayed] at hjs,
      fun hm => by simp [State.lose] at hm⟩
  | beginShutdown | cancel | close => exact ⟨h.boot, h.live⟩
  | registerWorker hm =>
    refine ⟨fun hne => absurd hm hne, fun _ j w hr => (h.live hm j w hr).imp_left fun ha => ?_⟩
    simp only [registerWorker]
    split
    · simp [WorkerPool.isAlive_register, ha]
    · exact ha
  | heartbeat hm =>
    refine ⟨fun hne => absurd hm hne, fun _ j w hr => (h.live hm j w hr).imp_left fun ha => ?_⟩
    simp only [heartbeat]
    split
    · exact ha
    · exact WorkerPool.isAlive_recordHeartbeat ha _ _ _
  | @main ch stmt mem r _ hcode hp =>
    have hne : s.main ≠ .serving := by
      intro he
      simp [he, Main.code] at hcode
    have hd := (Main.steps hcode hp).demoting (Option.isNone_iff_eq_none.mp hok) hi.sound (h.boot hne)
    refine ⟨fun _ => hd, fun hserv j w hr => ?_⟩
    have hnone : (stmt.next r).unreplayed = some [] := congrArg Main.unreplayed hserv
    simpa using hd [] hnone j w hr
  | @drainer ch _ mem _ _ hm hcode hp =>
    have hd := Drainer.steps hcode hp
    refine ⟨fun hne => absurd hm hne, fun _ j w hr => ?_⟩
    have hcovers : Detector.Covers s.mem s.detector j w := by
      rcases hd.running hr with hold | hmark
      · exact h.live hm j w hold
      · simp only [markSeen, hmark, Option.all_some, Bool.or_eq_true, List.contains_iff_mem] at hseen
        exact hseen.imp_right .inl
    exact hcovers.imp_left fun ha => (congrArg (WorkerPool.isAlive · w) hd.pool).trans ha
  | detector hm hcode hp =>
    refine ⟨fun hne => absurd hm hne, fun _ j w hr => ?_⟩
    exact (Detector.steps hcode hp).covers (Option.isNone_iff_eq_none.mp hok) hi.sound hr
      (h.live hm j w)
  | call hcode hp =>
    have hm := hi.serving_of_code hcode
    have hh := Handler.steps hcode hp
    refine ⟨fun hne => absurd hm hne, fun _ j w hr => ?_⟩
    have hold := hh.running (hi.newborn _) hr
    exact (h.live hm j w hold).imp_left fun ha =>
      (congrArg (WorkerPool.isAlive · w) hh.pool).trans ha
  | invokeFunction hm | accept hm => exact ⟨fun hne => absurd hm hne, h.live⟩

/-- In every run whose store operations succeed and whose `Dispatch` marks are all seen by
the pool or the reaper, a RUNNING job whose worker is not owed to the reaper has a worker
that is alive, so that its silence will be swept. -/
theorem running_on_live_worker (cfg : Config) {as : List Action} {es : List Event} {s : State}
    (h : (machine cfg).Run (fun s a => (a.storeSucceeds && markSeen s a) = true) init as es s)
    (hup : s.main = .serving) {j w : String} {r : JobRecord}
    (hget : s.mem.store.getJob j = some r) (hr : r.status = .running) (hw : r.workerID = w)
    (howed : ¬ s.detector.Owes w) :
    ∃ ws, s.mem.pool.workers.get w = some ws ∧ ws.alive = true := by
  have hinv : Inv s ∧ Reapable s := by
    refine h.invariant (P := fun s => Inv s ∧ Reapable s) ⟨.init, .init⟩ ?_
    intro u a v e ⟨hi, hre⟩ hok hst
    obtain ⟨hok, hseen⟩ := (Bool.and_eq_true _ _).mp hok
    have hst := stepped_of_step hst
    exact ⟨(hi.step hst).1, hre.step hi hok hseen hst⟩
  rcases hinv.2.live hup j w ⟨r, hget, hr, hw⟩ with halive | hreaps
  · cases hws : s.mem.pool.workers.get w with
    | none => simp [WorkerPool.isAlive, hws] at halive
    | some ws => exact ⟨ws, rfl, by simpa [WorkerPool.isAlive, hws] using halive⟩
  · exact absurd hreaps.owes howed

def sampleRunning : State × List Event :=
  ((machine sampleConfig).exec (fun s a => a.storeSucceeds && markSeen s a) init
    (sampleSubmit ++ sampleDispatch ++
      ([.heartbeat { workerID := "w", activeTasks := 1 } 5,
        .detector { order := ["w"], now := 10 }] : List Action))).get (by decide)

theorem running_on_live_worker_sampleRunning :
    (∃ r, sampleRunning.1.mem.store.getJob "j" = some r ∧ r.status = .running) ∧
      ∃ ws, sampleRunning.1.mem.pool.workers.get "w" = some ws ∧ ws.alive = true := by
  have hrun : (machine sampleConfig).Run
      (fun s a => (a.storeSucceeds && markSeen s a) = true) init _ sampleRunning.2 sampleRunning.1 :=
    Lib.Machine.run_of_exec_get (by decide)
  have howed : ¬ sampleRunning.1.detector.Owes "w" := by
    rintro (h | ⟨js, h⟩)
    · exact absurd h (by decide)
    · exact absurd (show none = some ("w", js) from h) (by simp)
  exact ⟨⟨_, rfl, rfl⟩, running_on_live_worker sampleConfig hrun rfl (j := "j") rfl rfl rfl howed⟩

/-- `Dispatch` picks `w`; a sweep declares it dead and the reaper finds nothing to reassign;
`Dispatch` then marks the job RUNNING on it, and `w` accepts. -/
def sampleStranded : State × List Event :=
  ((machine sampleConfig).exec (fun _ a => a.storeSucceeds) init
    (sampleSubmit ++
      ([.drainer {}, .drainer {}, .drainer { order := ["w"] },
        .detector { order := ["w"], now := 10 }, .detector {},
        .drainer { now := 11 }, .drainer {}, .drainer {}, .drainer {}] : List Action))).get
    (by decide)

/-- The job is RUNNING, nothing is in progress, and no sweep will return its worker. -/
theorem stranded_on_dead_worker : ∃ as es s,
    (machine sampleConfig).Run (fun _ a => a.storeSucceeds = true) init as es s ∧
      s.main = .serving ∧ s.drainer.job ≠ some "j" ∧ ¬ s.detector.Owes "w" ∧
      (∃ r, s.mem.store.getJob "j" = some r ∧ r.status = .running ∧ r.workerID = "w") ∧
      ∃ ws, s.mem.pool.workers.get "w" = some ws ∧ ws.alive = false := by
  refine ⟨_, sampleStranded.2, sampleStranded.1, Lib.Machine.run_of_exec_get (by decide), rfl,
    by decide, ?_, ⟨_, rfl, rfl, rfl⟩, ⟨_, rfl, rfl⟩⟩
  rintro (h | ⟨js, h⟩)
  · exact absurd h (by decide)
  · exact absurd (show none = some ("w", js) from h) (by simp)

end Minimodal.Server
