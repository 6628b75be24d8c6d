import Minimodal.Server.Reaper

namespace Minimodal.Server

/-- The process that runs under a worker id: which one it is, whether it runs and has
registered, and the jobs that it has accepted and not reported. -/
structure Process where
  epoch : Nat := 0
  live : Bool := false
  registered : Bool := false
  jobs : List String := []

structure Delivery where
  workerID : String
  epoch : Nat
  jobID : String
  deriving DecidableEq, Repr

/-- The orchestrator with its workers. `accepted j w` is the process of `w` that has taken `j`
since `Dispatch` last marked `j` RUNNING on `w`. -/
structure Fleet where
  server : State := init
  procs : String → Process := fun _ => {}
  delivery : Option Delivery := none
  accepted : String → String → Option Nat := fun _ _ => none

namespace Fleet

inductive Action
  | server (a : Server.Action)
  | executeTask
  | crash (workerID : String)
  | restart (workerID : String)

def setProc (f : Fleet) (w : String) (p : Process) : Fleet :=
  { f with procs := Function.update f.procs w p }

def reached (f : Fleet) (j w : String) : Bool :=
  (f.procs w).live &&
    (f.delivery = some ⟨w, (f.procs w).epoch, j⟩ || f.accepted j w = some (f.procs w).epoch)

def answers (f : Fleet) (j w : String) : Answer → Bool
  | .accepted => (f.accepted j w).isSome
  | .rejected => (f.procs w).live && f.delivery = some ⟨w, (f.procs w).epoch, j⟩
  | .failed => !f.reached j w || f.server.mem.ctxDone

/-- Who the calls to the server come from, and who answers its own. -/
def permits (f : Fleet) : Server.Action → Bool
  | .drainer ch =>
    match f.server.drainer with
    | .dispatch a (.await _ _ w) => f.answers a.jobID w ch.answer
    | _ => true
  | .registerWorker req _ => (f.procs req.workerID).live
  | .heartbeat req _ => (f.procs req.workerID).live && (f.procs req.workerID).registered
  | .reportTaskResult _ req =>
    (f.procs req.workerID).live && (f.procs req.workerID).jobs.contains req.jobID
  | _ => true

def deliver (f : Fleet) : Event → Option Delivery
  | .executeTask w _ req =>
    if (f.procs w).live then some ⟨w, (f.procs w).epoch, req.jobID⟩ else none
  | .answered _ _ .rejected => none
  | _ => f.delivery

def observe (f : Fleet) (a : Server.Action) (es : List Event) : String → Process :=
  match a, es with
  | .registerWorker req _, [.registered (.ok _)] =>
    Function.update f.procs req.workerID { f.procs req.workerID with registered := true }
  | .reportTaskResult _ req, _ =>
    Function.update f.procs req.workerID
      { f.procs req.workerID with jobs := (f.procs req.workerID).jobs.erase req.jobID }
  | _, _ => f.procs

def step (cfg : Config) (f : Fleet) : Action → Option (Fleet × List Event)
  | .server a =>
    if f.permits a then
      (Server.step cfg f.server a).map fun (server, es) =>
        ({ server
           procs := f.observe a es
           delivery := es.foldl (fun _ => f.deliver) f.delivery
           accepted := fun j w =>
            if .transitioned j (.markRunning w) (.ok true) ∈ es then none else f.accepted j w }, es)
    else none
  | .executeTask =>
    match f.delivery with
    | none => none
    | some d =>
      let p := f.procs d.workerID
      if p.live ∧ p.epoch = d.epoch then
        some ({ f.setProc d.workerID { p with jobs := d.jobID :: p.jobs } with
          delivery := none
          accepted := fun j w => if j = d.jobID ∧ w = d.workerID then some d.epoch else f.accepted j w },
          [])
      else none
  | .crash w =>
    if (f.procs w).live then
      some (f.setProc w { f.procs w with live := false, jobs := [] }, [])
    else none
  | .restart w =>
    if (f.procs w).live then none
    else some (f.setProc w { epoch := (f.procs w).epoch + 1, live := true }, [])

def machine (cfg : Config) : Lib.Machine Fleet Action Event := ⟨step cfg⟩

end Fleet

def Handler.reporter : Handler → Option String
  | .putResult req | .appendTail req | .report req | .notify req _ | .recordColdStart req
  | .count req | .acknowledge req => some req.workerID
  | _ => none

/-- The process of `w` that took `j` is gone and another one has registered, `j` is RUNNING on
`w`, and nobody will see to it. -/
structure Fleet.Stranded (f : Fleet) (j w : String) : Prop where
  serving : f.server.main = .serving
  running : ∃ r, f.server.mem.store.getJob j = some r ∧ r.status = .running ∧ r.workerID = w
  gone : ∃ epoch, f.accepted j w = some epoch ∧ epoch < (f.procs w).epoch
  newer : (f.procs w).live = true ∧ (f.procs w).registered = true
  beating : f.server.mem.pool.isAlive w = true
  handlers : ∀ c, (f.server.calls c).reporter ≠ some w
  queue : j ∉ f.server.mem.pendingQueue
  drainer : f.server.drainer.job ≠ some j
  reaper : ¬ f.server.detector.Reaps j w

/-- Store operations succeed, marks are seen by the pool or the reaper, and a process that
registers for the first time finds its id dead or unknown in the pool, or no job RUNNING on it. -/
def Fleet.late (f : Fleet) : Fleet.Action → Bool
  | .server a => a.storeSucceeds && markSeen f.server a && match a with
    | .registerWorker req _ => (f.procs req.workerID).registered ||
      !f.server.mem.pool.isAlive req.workerID ||
      (f.server.mem.store.listRunningOnWorker req.workerID).isEmpty
    | _ => true
  | _ => true

variable {cfg : Config} {s t : State} {a : Server.Action} {es : List Event} {m m' : Mem} {ch : Choice}
  {j w : String} {f g : Fleet} {n : Nat}

theorem Drainer.Steps.marks {d d' : Drainer} (h : Drainer.Steps cfg m ch d m' d' es)
    (hr : m'.store.RunningOn j w) :
    m.store.RunningOn j w ∨ .transitioned j (.markRunning w) (.ok true) ∈ es := by
  cases h with
  | missingPayload ht | revert ht | fail ht => exact .inl ((ht.running hr).resolve_right (by simp))
  | mark ht | markSkip ht | markError ht =>
    refine (ht.running hr).imp_right ?_
    rintro ⟨rfl, hm, hb⟩
    simp [hm, hb]
  | _ => exact .inl hr

theorem Stepped.running (h : Stepped cfg s a t es) (hi : Inv s) (hre : Reapable s)
    (hok : a.storeSucceeds = true) (hup : t.main = .serving) (hr : t.mem.store.RunningOn j w)
    (hnew : .transitioned j (.markRunning w) (.ok true) ∉ es) :
    s.main = .serving ∧ s.mem.store.RunningOn j w ∧
      (s.detector.Reaps j w → t.detector.Reaps j w) := by
  cases h with
  | start | crash => simp [State.lose] at hup
  | beginShutdown hm | registerWorker hm | heartbeat hm => exact ⟨hm, hr, id⟩
  | cancel | close => exact ⟨hup, hr, id⟩
  | @main ch stmt mem r _ hcode hp =>
    have hne : s.main ≠ .serving := by
      intro he
      simp [he, Main.code] at hcode
    have hd := (Main.steps hcode hp).demoting (Option.isNone_iff_eq_none.mp hok) hi.sound
      (hre.boot hne)
    have hnone : (stmt.next r).unreplayed = some [] := congrArg Main.unreplayed hup
    simpa using hd [] hnone j w hr
  | drainer hm hcode hp => exact ⟨hm, ((Drainer.steps hcode hp).marks hr).resolve_right hnew, id⟩
  | detector hm hcode hp =>
    have hd := Detector.steps hcode hp
    exact ⟨hm, hd.running hr, hd.reaps (Option.isNone_iff_eq_none.mp hok) hi.sound hr⟩
  | call hcode hp =>
    exact ⟨hi.serving_of_code hcode, (Handler.steps hcode hp).running
      (fun req rec he => (hi.submitting _ req rec he).1) hr, id⟩
  | invokeFunction hm | accept hm => exact ⟨hm, hr, id⟩

namespace Fleet

/-- The job of a process that has registered was taken by that process, or the reaper will
look at it. -/
structure Attended (f : Fleet) : Prop where
  inv : Inv f.server
  reapable : Reapable f.server
  held : f.server.main = .serving → ∀ j w epoch, f.server.mem.store.RunningOn j w →
    f.accepted j w = some epoch → (f.procs w).registered = true →
    epoch = (f.procs w).epoch ∨ f.server.detector.Reaps j w

theorem Attended.init : Attended {} where
  inv := .init
  reapable := .init
  held h := by simp [Server.init] at h

theorem observe_epoch (f : Fleet) (a : Server.Action) (es : List Event) (w : String) :
    (f.observe a es w).epoch = (f.procs w).epoch := by
  unfold observe
  split
  · rw [Function.update_apply]
    split <;> simp_all
  · rw [Function.update_apply]
    split <;> simp_all
  · rfl

theorem registered_of_observe (h : (f.observe a es w).registered = true) :
    (f.procs w).registered = true ∨ ∃ req now, a = .registerWorker req now ∧ req.workerID = w := by
  unfold observe at h
  split at h
  · rw [Function.update_apply] at h
    split at h
    · rename_i hw
      exact .inr ⟨_, _, rfl, hw.symm⟩
    · exact .inl h
  · rw [Function.update_apply] at h
    split at h
    · rename_i hw
      rw [hw]
      exact .inl h
    · exact .inl h
  · exact .inl h

theorem Attended.server (h : Attended f) (hok : f.late (.server a) = true)
    (hst : Server.step cfg f.server a = some (t, es)) {delivery : Option Delivery} :
    Attended { server := t, procs := f.observe a es, delivery
               accepted := fun j w =>
                if .transitioned j (.markRunning w) (.ok true) ∈ es then none
                else f.accepted j w } := by
  simp only [late, Bool.and_eq_true] at hok
  obtain ⟨⟨hstore, hseen⟩, hreg⟩ := hok
  have hst := stepped_of_step hst
  refine ⟨(h.inv.step hst).1, h.reapable.step h.inv hstore hseen hst, ?_⟩
  intro hup j w epoch hr hacc hregistered
  have hnew : .transitioned j (.markRunning w) (.ok true) ∉ es := fun hmem => by simp [hmem] at hacc
  simp only [hnew, if_false] at hacc
  obtain ⟨hup', hr', hreaps⟩ := hst.running h.inv h.reapable hstore hup hr hnew
  rw [observe_epoch]
  rcases registered_of_observe hregistered with hold | ⟨req, now, rfl, rfl⟩
  · exact (h.held hup' j w epoch hr' hacc hold).imp_right hreaps
  · simp only [Bool.or_eq_true, Bool.not_eq_true', List.isEmpty_iff] at hreg
    rcases hreg with (hold | hdead) | hnone
    · exact (h.held hup' j _ epoch hr' hacc hold).imp_right hreaps
    · -- the id is not alive, so the reaper has the jobs of the process before
      rcases h.reapable.live hup' j _ hr' with halive | hreap
      · simp [hdead] at halive
      · exact .inr (hreaps hreap)
    · have hmem := (BoltStore.mem_listRunningOnWorker h.inv.sound.keyedById).mpr hr'
      simp [hnone] at hmem

theorem Attended.setProc (h : Attended f) {p : Process}
    (hp : p.registered = true → (f.procs w).registered = true ∧ p.epoch = (f.procs w).epoch) :
    Attended (f.setProc w p) where
  inv := h.inv
  reapable := h.reapable
  held hup j v epoch hr hacc hreg := by
    simp only [Fleet.setProc, Function.update_apply] at hreg ⊢
    by_cases hv : v = w
    · subst hv
      simp only [if_true] at hreg ⊢
      rw [(hp hreg).2]
      exact h.held hup j v epoch hr hacc (hp hreg).1
    · simp only [hv, if_false] at hreg ⊢
      exact h.held hup j v epoch hr hacc hreg

theorem Attended.accept (h : Attended f) (hepoch : n = (f.procs w).epoch)
    {delivery : Option Delivery} :
    Attended { f with
      delivery
      accepted := fun i v => if i = j ∧ v = w then some n else f.accepted i v } where
  inv := h.inv
  reapable := h.reapable
  held hup i v epoch hr hacc hreg := by
    simp only at hacc
    split at hacc
    · rename_i hiv
      left
      rw [hiv.2, ← hepoch]
      exact (Option.some.inj hacc).symm
    · exact h.held hup i v epoch hr hacc hreg

theorem Attended.step {b : Fleet.Action} (h : Attended f) (hok : f.late b = true)
    (hst : Fleet.step cfg f b = some (g, es)) : Attended g := by
  cases b with
  | server a =>
    simp only [Fleet.step, Option.ite_none_right_eq_some, Option.map_eq_some_iff, Prod.mk.injEq,
      Prod.exists] at hst
    obtain ⟨-, t, es, hst, rfl, rfl⟩ := hst
    exact h.server hok hst
  | executeTask =>
    simp only [Fleet.step] at hst
    split at hst
    · simp at hst
    · rename_i d hd
      simp only [Option.ite_none_right_eq_some, Option.some.injEq, Prod.mk.injEq] at hst
      obtain ⟨⟨-, hepoch⟩, rfl, rfl⟩ := hst
      refine (h.setProc (p := _) ?_).accept ?_
      · exact fun hreg => ⟨hreg, rfl⟩
      · simp [Fleet.setProc, hepoch]
  | crash w =>
    simp only [Fleet.step, Option.ite_none_right_eq_some, Option.some.injEq, Prod.mk.injEq] at hst
    obtain ⟨-, rfl, rfl⟩ := hst
    exact h.setProc fun hreg => ⟨hreg, rfl⟩
  | restart w =>
    simp only [Fleet.step, Option.ite_none_left_eq_some, Option.some.injEq, Prod.mk.injEq] at hst
    obtain ⟨-, rfl, rfl⟩ := hst
    exact h.setProc fun hreg => by simp at hreg

/-- In every run in which a worker's new process registers late enough, none of its old jobs
is stranded. -/
theorem restart_strands_no_job (cfg : Config) {as : List Fleet.Action} {es : List Event}
    {f : Fleet} (h : (Fleet.machine cfg).Run (fun f b => f.late b = true) {} as es f)
    (j w : String) : ¬ f.Stranded j w := by
  intro hstranded
  have hinv : Attended f :=
    h.invariant .init fun _ _ _ _ hinv hok hst => hinv.step hok hst
  obtain ⟨epoch, hacc, hlt⟩ := hstranded.gone
  rcases hinv.held hstranded.serving j w epoch hstranded.running hacc hstranded.newer.2 with
    rfl | hreaps
  · exact lt_irrefl _ hlt
  · exact hstranded.reaper hreaps

def sampleTaken : List Fleet.Action :=
  [.server .start, .server (.main {}), .restart "w",
   .server (.registerWorker ⟨"w", "host:1", 1⟩ 0),
   .server (.invokeFunction 0 { functionBytes := [1] } "j" 1),
   .server (.call 0 { now := 2 }), .server (.call 0 {}), .server (.call 0 {}),
   .server (.call 0 {}), .server (.call 0 {}),
   .server (.drainer {}), .server (.drainer {}), .server (.drainer { order := ["w"] }),
   .server (.drainer { now := 3 }), .server (.drainer {}), .server (.drainer {}),
   .executeTask, .server (.drainer {})]

def sampleLateRestart : Fleet × List Event :=
  ((Fleet.machine sampleConfig).exec Fleet.late {}
    (sampleTaken ++ ([.crash "w", .restart "w", .server (.detector { order := ["w"], now := 10 }),
      .server (.detector {}), .server (.registerWorker ⟨"w", "host:1", 1⟩ 11),
      .server (.detector { now := 12 }), .server (.detector {}), .server (.detector {})] :
      List Fleet.Action))).get (by decide)

theorem restart_strands_no_job_sample :
    "j" ∈ sampleLateRestart.1.server.mem.pendingQueue ∧
      (sampleLateRestart.1.procs "w").registered = true ∧
      ¬ sampleLateRestart.1.Stranded "j" "w" :=
  ⟨by decide, by decide,
    restart_strands_no_job sampleConfig (Lib.Machine.run_of_exec_get (by decide)) "j" "w"⟩

/-- The next process registers and beats before a sweep has missed the one that took the job. -/
def sampleQuickRestart : Fleet × List Event :=
  ((Fleet.machine sampleConfig).exec (fun _ _ => true) {}
    (sampleTaken ++ ([.crash "w", .restart "w", .server (.registerWorker ⟨"w", "host:1", 1⟩ 5),
      .server (.heartbeat { workerID := "w", activeTasks := 0 } 8),
      .server (.detector { order := ["w"], now := 10 })] : List Fleet.Action))).get (by decide)

theorem restart_strands_job : ∃ as es f,
    (Fleet.machine sampleConfig).Run Lib.Machine.Always {} as es f ∧ f.Stranded "j" "w" := by
  have hrun : (Fleet.machine sampleConfig).Run Lib.Machine.Always {} _ sampleQuickRestart.2
      sampleQuickRestart.1 := (Lib.Machine.run_of_exec_get (by decide)).mono fun _ _ _ => trivial
  refine ⟨_, _, _, hrun, rfl, ⟨_, rfl, rfl, rfl⟩, ⟨1, rfl, by decide⟩, ⟨rfl, rfl⟩, by decide, ?_,
    by decide, by decide, ?_⟩
  · rintro (_ | c) h
    · exact absurd (show none = some "w" from h) (by simp)
    · exact absurd (show none = some "w" from h) (by simp)
  · rintro (h | ⟨js, h, -⟩)
    · exact absurd h (by decide)
    · exact absurd (show none = some ("w", js) from h) (by simp)

end Fleet

end Minimodal.Server
