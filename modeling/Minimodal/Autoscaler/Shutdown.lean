import Minimodal.Autoscaler.Launcher
import Minimodal.Autoscaler.Policy

namespace Minimodal.Shutdown

/-- The autoscaler's `Run`: in its `select`, in a tick with these calls still to make, or back. -/
inductive Runner
  | select
  | tick (calls : List Autoscaler.Event)
  | returned

/-- `main` from the moment it serves: it cancels the background context, and `StopAll` goes through
its copy of the table. -/
inductive Main
  | serving
  | canceled
  | signal (procs : List Nat)
  | wait (p : Nat) (procs : List Nat)
  | kill (p : Nat) (procs : List Nat)
  | returned
  deriving DecidableEq

/-- `graces` are the processes for which a goroutine of `StopWorker` waits. -/
structure State where
  launcher : ProcessLauncher
  scaler : Autoscaler := {}
  runner : Runner := .select
  graces : List Nat := []
  main : Main := .serving

inductive Signal
  | sigterm (p : Nat)
  | sigkill (p : Nat)
  deriving DecidableEq

inductive Action
  | tick (x : Autoscaler.Observation)
  | call (start : Option Err)
  | leave
  | grace (p : Nat)
  | exit (p : Nat)
  | close (p : Nat)
  | drop (p : Nat)
  | cancel
  | stopAll (order : List Nat)
  | signal
  | timeout
  | done

def isDone (l : ProcessLauncher) (p : Nat) : Bool := (l.started[p]?).any fun w => w.done

def stopWorker (s : State) (id : String) : State × List Signal :=
  match s.launcher.procs.lookup id with
  | none => (s, [])
  | some p => ({ s with graces := p :: s.graces }, [.sigterm p])

/-- One step of one of the goroutines, or the end of a worker process. An observation says how the
call that ends the tick comes out, so a call that comes out otherwise is not enabled. -/
def perform (ps : Autoscaler.Params) (s : State) : Action → Option (State × List Signal)
  | .tick x =>
    match s.runner with
    | .select => (Autoscaler.tick ps s.scaler x).map fun (scaler, calls) =>
        ({ s with scaler, runner := .tick calls }, [])
    | _ => none
  | .call start =>
    match s.runner with
    | .tick [] => some ({ s with runner := .select }, [])
    | .tick (.stopWorker id _ ok :: calls) =>
      if ok then
        let (s, e) := stopWorker s id
        some ({ s with runner := .tick calls }, e)
      else none
    | .tick (.launchWorker id ok :: calls) =>
      let (launcher, result) := s.launcher.launchWorker id start
      if result.isOk = ok then some ({ s with launcher, runner := .tick calls }, []) else none
    | _ => none
  | .leave =>
    match s.runner, s.main with
    | .select, .serving => none
    | .select, _ => some ({ s with runner := .returned }, [])
    | _, _ => none
  | .grace p =>
    if p ∈ s.graces then
      some ({ s with graces := s.graces.erase p }, if isDone s.launcher p then [] else [.sigkill p])
    else none
  | .exit p =>
    match s.launcher.started[p]? with
    | some w => if w.exited then none else some ({ s with launcher := s.launcher.exit p }, [])
    | none => none
  | .close p =>
    match s.launcher.started[p]? with
    | some w =>
      if w.exited && !w.done then some ({ s with launcher := s.launcher.close p }, []) else none
    | none => none
  | .drop p =>
    match s.launcher.started[p]? with
    | some w =>
      if w.done && !w.dropped then some ({ s with launcher := s.launcher.drop p w }, []) else none
    | none => none
  | .cancel =>
    match s.main with
    | .serving => some ({ s with main := .canceled }, [])
    | _ => none
  | .stopAll order =>
    match s.main with
    | .canceled =>
      if order.isPerm (s.launcher.procs.map Prod.snd) then some ({ s with main := .signal order }, [])
      else none
    | _ => none
  | .signal =>
    match s.main with
    | .signal [] => some ({ s with main := .returned }, [])
    | .signal (p :: procs) => some ({ s with main := .wait p procs }, [.sigterm p])
    | _ => none
  | .timeout =>
    match s.main with
    | .wait p procs => some ({ s with main := .kill p procs }, [.sigkill p])
    | _ => none
  | .done =>
    match s.main with
    | .wait p procs | .kill p procs =>
      if isDone s.launcher p then some ({ s with main := .signal procs }, []) else none
    | _ => none

/-- When `main` has returned, the goroutines are gone and only the worker processes go on. -/
def step (ps : Autoscaler.Params) (s : State) (a : Action) : Option (State × List Signal) :=
  match s.main, a with
  | .returned, .exit _ => perform ps s a
  | .returned, _ => none
  | _, _ => perform ps s a

def machine (ps : Autoscaler.Params) : Lib.Machine State Action Signal := ⟨step ps⟩

def init (argv : List String) (workDir orchAddr : String) (basePort : Nat) : State :=
  { launcher := { argv, workDir, orchAddr, basePort } }

def Main.remaining : Main → Option (List Nat)
  | .serving | .canceled => none
  | .signal procs => some procs
  | .wait p procs | .kill p procs => some (p :: procs)
  | .returned => some []

def starts (s : State) : Action → Bool
  | .call start =>
    match s.runner with
    | .tick (.launchWorker id _ :: _) => (s.launcher.launchWorker id start).2.isOk
    | _ => false
  | _ => false

/-- No process is started once `StopAll` has copied the table. -/
def timely (s : State) (a : Action) : Bool := s.main.remaining.isNone || !starts s a

inductive Steps (s : State) : Action → ProcessLauncher → Main → Prop
  | quiet {a} : Steps s a s.launcher s.main
  | launch {a id start l} : s.launcher.launchWorker id start = (l, .ok ()) → starts s a = true →
      Steps s a l s.main
  | exit {p w} : s.launcher.started[p]? = some w → Steps s (.exit p) (s.launcher.exit p) s.main
  | close {p w} : s.launcher.started[p]? = some w → w.exited = true →
      Steps s (.close p) (s.launcher.close p) s.main
  | drop {p w} : s.launcher.started[p]? = some w → w.done = true → w.dropped = false →
      Steps s (.drop p) (s.launcher.drop p w) s.main
  | cancel : Steps s .cancel s.launcher .canceled
  | stopAll {order} : order.Perm (s.launcher.procs.map Prod.snd) →
      Steps s (.stopAll order) s.launcher (.signal order)
  | signal {p procs} : s.main = .signal (p :: procs) → Steps s .signal s.launcher (.wait p procs)
  | finish : s.main = .signal [] → Steps s .signal s.launcher .returned
  | timeout {p procs} : s.main = .wait p procs → Steps s .timeout s.launcher (.kill p procs)
  | done {p procs} : s.main.remaining = some (p :: procs) → isDone s.launcher p = true →
      Steps s .done s.launcher (.signal procs)

variable {ps : Autoscaler.Params} {s t : State} {a : Action} {e : List Signal}

theorem steps_of_call {start : Option Err} (h : perform ps s (.call start) = some (t, e)) :
    Steps s (.call start) t.launcher t.main := by
  simp only [perform] at h
  split at h
  · simp only [Option.some.injEq, Prod.mk.injEq] at h
    rw [← h.1]
    exact .quiet
  · split at h
    · simp only [Option.some.injEq, Prod.mk.injEq, stopWorker] at h
      rw [← h.1]
      split <;> exact .quiet
    · simp at h
  · rename_i id ok calls hrunner
    split at h
    · simp only [Option.some.injEq, Prod.mk.injEq] at h
      rw [← h.1]
      cases hl : s.launcher.launchWorker id start with
      | mk l result =>
        cases result with
        | ok => exact .launch hl (by simp [starts, hrunner, hl, Except.isOk, Except.toBool])
        | error err =>
          obtain rfl := ProcessLauncher.launchWorker_failed hl
          exact .quiet
    · simp at h
  · simp at h

theorem steps_of_perform (h : perform ps s a = some (t, e)) : Steps s a t.launcher t.main := by
  cases a with
  | call start => exact steps_of_call h
  | tick x =>
    simp only [perform] at h
    split at h
    · simp only [Option.map_eq_some_iff, Prod.mk.injEq, Prod.exists] at h
      obtain ⟨scaler, calls, -, rfl, -⟩ := h
      exact .quiet
    · simp at h
  | leave =>
    simp only [perform] at h
    split at h
    · simp at h
    · simp only [Option.some.injEq, Prod.mk.injEq] at h
      rw [← h.1]
      exact .quiet
    · simp at h
  | grace p =>
    simp only [perform, Option.ite_none_right_eq_some, Option.some.injEq, Prod.mk.injEq] at h
    rw [← h.2.1]
    exact .quiet
  | exit p =>
    simp only [perform] at h
    split at h
    · rename_i w hw
      simp only [Option.ite_none_left_eq_some, Option.some.injEq, Prod.mk.injEq] at h
      rw [← h.2.1]
      exact .exit hw
    · simp at h
  | close p =>
    simp only [perform] at h
    split at h
    · rename_i w hw
      simp only [Option.ite_none_right_eq_some, Option.some.injEq, Prod.mk.injEq,
        Bool.and_eq_true] at h
      rw [← h.2.1]
      exact .close hw h.1.1
    · simp at h
  | drop p =>
    simp only [perform] at h
    split at h
    · rename_i w hw
      simp only [Option.ite_none_right_eq_some, Option.some.injEq, Prod.mk.injEq,
        Bool.and_eq_true, Bool.not_eq_true'] at h
      rw [← h.2.1]
      exact .drop hw h.1.1 h.1.2
    · simp at h
  | cancel =>
    simp only [perform] at h
    split at h
    · simp only [Option.some.injEq, Prod.mk.injEq] at h
      rw [← h.1]
      exact .cancel
    · simp at h
  | stopAll order =>
    simp only [perform] at h
    split at h
    · simp only [Option.ite_none_right_eq_some, Option.some.injEq, Prod.mk.injEq] at h
      rw [← h.2.1]
      exact .stopAll (List.isPerm_iff.mp h.1)
    · simp at h
  | signal =>
    simp only [perform] at h
    split at h
    · rename_i hmain
      simp only [Option.some.injEq, Prod.mk.injEq] at h
      rw [← h.1]
      exact .finish hmain
    · rename_i p procs hmain
      simp only [Option.some.injEq, Prod.mk.injEq] at h
      rw [← h.1]
      exact .signal hmain
    · simp at h
  | timeout =>
    simp only [perform] at h
    split at h
    · rename_i p procs hmain
      simp only [Option.some.injEq, Prod.mk.injEq] at h
      rw [← h.1]
      exact .timeout hmain
    · simp at h
  | done =>
    simp only [perform] at h
    split at h
    · rename_i p procs hmain
      simp only [Option.ite_none_right_eq_some, Option.some.injEq, Prod.mk.injEq] at h
      rw [← h.2.1]
      exact .done (by rw [hmain]; rfl) h.1
    · rename_i p procs hmain
      simp only [Option.ite_none_right_eq_some, Option.some.injEq, Prod.mk.injEq] at h
      rw [← h.2.1]
      exact .done (by rw [hmain]; rfl) h.1
    · simp at h

theorem steps_of_step (h : step ps s a = some (t, e)) : Steps s a t.launcher t.main := by
  unfold step at h
  split at h
  · exact steps_of_perform h
  · simp at h
  · exact steps_of_perform h

structure Watched (l : ProcessLauncher) (main : Main) : Prop where
  tracked : l.Tracked
  remaining : ∀ rest, main.remaining = some rest → ∀ (p : Nat) w, l.started[p]? = some w →
    w.exited = false → p ∈ rest

theorem Watched.update (h : Watched s.launcher s.main) {l : ProcessLauncher} (htracked : l.Tracked)
    (hback : ∀ (p : Nat) w, l.started[p]? = some w → ∃ v, s.launcher.started[p]? = some v ∧
      (w.exited = false → v.exited = false)) : Watched l s.main where
  tracked := htracked
  remaining rest hrest p w hw hrunning := by
    obtain ⟨v, hv, himp⟩ := hback p w hw
    exact h.remaining rest hrest p v hv (himp hrunning)

theorem watched_of_steps {l : ProcessLauncher} {main : Main} (h : Watched s.launcher s.main)
    (htimely : timely s a = true) (hst : Steps s a l main) : Watched l main := by
  cases hst with
  | quiet => exact h
  | launch hl hstarts =>
    refine ⟨h.tracked.launchWorker hl, fun rest hrest => ?_⟩
    simp [timely, hstarts, hrest] at htimely
  | exit hw =>
    refine h.update (h.tracked.exit hw) fun q v hv => ?_
    obtain ⟨v', hv', rfl⟩ := ProcessLauncher.update_started _ hv
    exact ⟨v', hv', by split <;> simp⟩
  | close hw hexited =>
    refine h.update (h.tracked.close hw hexited) fun q v hv => ?_
    obtain ⟨v', hv', rfl⟩ := ProcessLauncher.update_started _ hv
    exact ⟨v', hv', by split <;> simp⟩
  | @drop p w hw hdone hnot =>
    refine h.update (h.tracked.drop hw hdone hnot) fun q v hv => ?_
    rw [ProcessLauncher.drop_started] at hv
    obtain ⟨v', hv', rfl⟩ := ProcessLauncher.update_started _ hv
    exact ⟨v', hv', by split <;> simp⟩
  | cancel => exact ⟨h.tracked, by simp [Main.remaining]⟩
  | @stopAll order hperm =>
    refine ⟨h.tracked, ?_⟩
    rintro rest hrest p w hw hrunning
    simp only [Main.remaining, Option.some.injEq] at hrest
    subst hrest
    have hnot : w.dropped = false := by
      by_contra hd
      have hdone := h.tracked.closed p w hw (by simpa using hd)
      simp [h.tracked.exited p w hw hdone] at hrunning
    have hheld := h.tracked.held p w hw hnot
    obtain ⟨l₁, l₂, heq, -⟩ := List.lookup_eq_some_iff.mp hheld
    exact hperm.mem_iff.mpr (by simp [heq])
  | @signal p procs hmain =>
    refine ⟨h.tracked, ?_⟩
    have hrem := h.remaining (p :: procs) (by rw [hmain]; rfl)
    simpa [Main.remaining] using hrem
  | finish hmain =>
    refine ⟨h.tracked, ?_⟩
    have hrem := h.remaining [] (by rw [hmain]; rfl)
    simpa [Main.remaining] using hrem
  | @timeout p procs hmain =>
    refine ⟨h.tracked, ?_⟩
    have hrem := h.remaining (p :: procs) (by rw [hmain]; rfl)
    simpa [Main.remaining] using hrem
  | @done p procs hmain hdone =>
    refine ⟨h.tracked, ?_⟩
    rintro rest hrest q w hw hrunning
    simp only [Main.remaining, Option.some.injEq] at hrest
    subst hrest
    obtain rfl | hq := List.mem_cons.mp (h.remaining _ hmain q w hw hrunning)
    · simp only [isDone, hw, Option.any_some] at hdone
      simp [h.tracked.exited _ w hw hdone] at hrunning
    · exact hq

theorem watched_of_run {argv : List String} {workDir orchAddr : String} {basePort : Nat}
    {as : List Action} {es : List Signal}
    (h : (machine ps).Run (fun s a => timely s a = true) (init argv workDir orchAddr basePort) as es s) :
    Watched s.launcher s.main := by
  refine h.invariant (P := fun s => Watched s.launcher s.main) ?_ fun _ _ _ _ hs hok hst =>
    watched_of_steps hs hok (steps_of_step hst)
  exact ⟨⟨by simp [init], by simp [init], by simp [init], by simp [init], by simp [init]⟩, by simp [init]⟩

/-- If no process is started once `StopAll` has copied the table, every worker process that the
launcher has started has ended when `main` returns. -/
theorem workers_ended_on_return (ps : Autoscaler.Params) (argv : List String)
    (workDir orchAddr : String) (basePort : Nat) {as : List Action} {es : List Signal} {s : State}
    (h : (machine ps).Run (fun s a => timely s a = true) (init argv workDir orchAddr basePort) as es s)
    (hret : s.main = .returned) : ∀ w ∈ s.launcher.started, w.exited = true := by
  intro w hw
  obtain ⟨p, hp⟩ := List.mem_iff_getElem?.mp hw
  by_contra hrunning
  have hmem := (watched_of_run h).remaining [] (by rw [hret]; rfl) p w hp (by simpa using hrunning)
  cases hmem

def sampleDemand : Autoscaler.Observation where
  now := 0
  byID := []
  queue := 1
  order := []
  failing := []
  ok := true

def sampleInit : State := init ["python", "-m", "worker.worker"] "." "127.0.0.1:50051" 50060

def sampleKilled : State × List Signal :=
  ((machine Autoscaler.sampleScaler).exec timely sampleInit
    [.tick sampleDemand, .call none, .call none, .cancel, .leave, .stopAll [0], .signal, .timeout,
      .exit 0, .close 0, .done, .signal]).get (by decide)

theorem workers_ended_on_return_sample :
    sampleKilled.2 = [.sigterm 0, .sigkill 0] ∧ sampleKilled.1.launcher.started.length = 1 ∧
      ∀ w ∈ sampleKilled.1.launcher.started, w.exited = true :=
  ⟨by decide, by decide, workers_ended_on_return Autoscaler.sampleScaler _ _ _ _
    (Lib.Machine.run_of_exec_get (by decide)) (by decide)⟩

/-- A tick has begun when the context is canceled, and launches its worker after `StopAll` has copied
the empty table. -/
def sampleOrphan : State × List Signal :=
  ((machine Autoscaler.sampleScaler).exec (fun _ _ => true) sampleInit
    [.tick sampleDemand, .cancel, .stopAll [], .call none, .signal]).get (by decide)

theorem worker_outlives_main :
    ∃ as, (machine Autoscaler.sampleScaler).Run Lib.Machine.Always sampleInit as sampleOrphan.2
        sampleOrphan.1 ∧
      sampleOrphan.1.main = .returned ∧ ∃ w ∈ sampleOrphan.1.launcher.started, w.exited = false :=
  ⟨_, (Lib.Machine.run_of_exec_get (by decide)).mono fun _ _ _ => trivial, by decide, by decide⟩

end Minimodal.Shutdown
