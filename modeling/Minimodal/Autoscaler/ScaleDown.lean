import Minimodal.Autoscaler.Tick

namespace Minimodal

namespace Autoscaler

variable {ps : Params} {s t : State} {a : Action} {es : List Event}

/-- The capacity that is really there: the alive workers that have not been stopped, and those
on their way. -/
def State.spare (s : State) : Int :=
  (s.pool.workers.forEach.filter fun (id, w) => w.alive && id ∉ s.stopped).length +
    s.scaler.pending

/-- What a tick counts as alive when it decides is still alive and has not been stopped. -/
def current (s : State) : Action → Prop
  | .decide _ _ _ => ∀ now byID, s.tick = .decide now byID → ∀ entry ∈ byID, entry.2.alive = true →
      s.pool.isAlive entry.1 = true ∧ entry.1 ∉ s.stopped
  | _ => True

def Tick.byID : Tick → List (String × WorkerMetrics)
  | .waiting => []
  | .reconcile _ byID | .decide _ byID => byID

theorem snapshot_nodup (p : WorkerPool) : (p.snapshot.map Prod.fst).Nodup := by
  have hmap : p.snapshot.map Prod.fst = p.workers.forEach.map Prod.fst := by
    simp [WorkerPool.snapshot]
  rw [hmap, List.Nodup, List.pairwise_map]
  exact p.workers.forEach_pairwise

theorem byID_nodup_of_step (hs : (s.tick.byID.map Prod.fst).Nodup)
    (h : step ps s a = some (t, es)) : (t.tick.byID.map Prod.fst).Nodup := by
  cases steps_of_step h with
  | tick => exact snapshot_nodup s.pool
  | reconcile htick =>
    rw [htick] at hs
    exact hs
  | decide _ _ hact =>
    rw [tick_of_act hact]
    exact List.nodup_nil
  | _ => exact hs

theorem byID_nodup_of_run {ok : State → Action → Prop} {as : List Action}
    (h : (machine ps).Run ok {} as es s) : (s.tick.byID.map Prod.fst).Nodup :=
  h.invariant (P := fun s => (s.tick.byID.map Prod.fst).Nodup) List.nodup_nil
    fun _ _ _ _ hs _ hst => byID_nodup_of_step hs hst

theorem decision_of_stopWorker {now : Nat} {ok ok' : Bool} {d : Decision} {id : String}
    (h : act ps s now ok d = (t, es)) (hmem : .stopWorker id true ok' ∈ es) : d = .stop id := by
  cases d with
  | launch =>
    simp only [act, Prod.mk.injEq] at h
    simp [← h.2] at hmem
  | stop id' =>
    have hes : es = [.stopWorker id' true ok] := by
      cases ok <;> simp only [act, Bool.false_eq_true, if_true, if_false, Prod.mk.injEq] at h <;>
        exact h.2.symm
    simp only [hes, List.mem_singleton, Event.stopWorker.injEq] at hmem
    rw [hmem.1]
  | nothing =>
    simp only [act, Prod.mk.injEq] at h
    simp [← h.2] at hmem

theorem min_lt_of_decision {cfg : AutoscalerConfig} {now : Nat}
    {byID : List (String × WorkerMetrics)} {scaler : Autoscaler} {queue : Int}
    {entries : List (String × ManagedWorker)} {id : String}
    (h : decision cfg now byID scaler queue entries = .stop id) :
    cfg.min < scaler.effective byID := by
  unfold decision at h
  split at h
  · cases h
  · split at h
    · cases h
    · split at h
      · rename_i hidle
        exact hidle.2.2
      · cases h

theorem alive_le_spare {byID : List (String × WorkerMetrics)} (hnodup : (byID.map Prod.fst).Nodup)
    (h : ∀ entry ∈ byID, entry.2.alive = true →
      s.pool.isAlive entry.1 = true ∧ entry.1 ∉ s.stopped) :
    s.scaler.effective byID ≤ s.spare := by
  have hsub : ((byID.filter fun entry => entry.2.alive).map Prod.fst) ⊆
      ((s.pool.workers.forEach.filter fun (id, w) => w.alive && id ∉ s.stopped).map Prod.fst) := by
    intro id hid
    simp only [List.mem_map, List.mem_filter] at hid ⊢
    obtain ⟨entry, ⟨hmem, halive⟩, rfl⟩ := hid
    obtain ⟨hpool, hstopped⟩ := h entry hmem halive
    simp only [WorkerPool.isAlive, Option.any_eq_true] at hpool
    obtain ⟨w, hget, hw⟩ := hpool
    exact ⟨(entry.1, w), ⟨Lib.Bucket.mem_forEach.mpr hget, by simp [hw, hstopped]⟩, rfl⟩
  have hlen := ((hnodup.sublist (List.filter_sublist.map Prod.fst)).subperm hsub).length_le
  simp only [List.length_map] at hlen
  simp only [effective, alive, State.spare]
  omega

/-- A tick that decides on the workers that are really there does not stop one with the minimum or
less. -/
theorem stopWorker_above_min (ps : Params) {as : List Action} {es es' : List Event} {s t : State}
    {a : Action} {id : String} {ok : Bool} (h : (machine ps).Run Lib.Machine.Always {} as es s)
    (hok : current s a) (hst : (machine ps).step s a = some (t, es'))
    (hmem : .stopWorker id true ok ∈ es') : ps.cfg.min < s.spare := by
  have hnodup := byID_nodup_of_run h
  cases steps_of_step hst with
  | reconcile => simp at hmem
  | @decide now byID _ _ _ _ _ _ htick _ hact =>
    rw [htick] at hnodup
    have hmin := min_lt_of_decision (decision_of_stopWorker hact hmem)
    exact hmin.trans_le (alive_le_spare hnodup (hok now byID htick))
  | _ => simp at hmem

def currentNow (s : State) : Action → Bool
  | .decide _ _ _ => s.tick.byID.all fun entry =>
      !entry.2.alive || (s.pool.isAlive entry.1 && entry.1 ∉ s.stopped)
  | _ => true

theorem current_of_currentNow (h : currentNow s a = true) : current s a := by
  cases a with
  | decide queue order ok =>
    intro now byID htick entry hmem halive
    simp only [currentNow, htick, Tick.byID, List.all_eq_true] at h
    simpa [halive] using h entry hmem
  | _ => trivial

def sampleParams : Params where
  cfg := { min := 1, max := 2, queueThreshold := 1, idleTimeout := 10, cooldown := 0
           registerTimeout := 100 }
  pid := 1
  timeout := 6

def sampleTick (now queue : Nat) (order : List String) : List Action :=
  [.tick now, .reconcile [], .decide queue order true]

def sampleGrow : List Action :=
  sampleTick 0 0 [] ++ [Action.register "autoscale-1-1" "host:1" 1 1] ++
    sampleTick 2 1 ["autoscale-1-1"] ++ [Action.register "autoscale-1-2" "host:2" 1 3] ++
    sampleTick 4 0 ["autoscale-1-1", "autoscale-1-2"] ++
    sampleTick 5 0 ["autoscale-1-1", "autoscale-1-2"]

def sampleIdle : State × List Event :=
  ((machine sampleParams).exec (fun _ _ => true) {}
    (sampleGrow ++ ([.tick 20, .reconcile []] : List Action))).get (by decide)

def sampleStop : State × List Event :=
  ((machine sampleParams).step sampleIdle.1
    (.decide 0 ["autoscale-1-1", "autoscale-1-2"] true)).get (by decide)

theorem stopWorker_above_min_sample :
    .stopWorker "autoscale-1-1" true true ∈ sampleStop.2 ∧ 1 < sampleIdle.1.spare :=
  have hmem : .stopWorker "autoscale-1-1" true true ∈ sampleStop.2 := by decide
  ⟨hmem, stopWorker_above_min sampleParams
    (a := .decide 0 ["autoscale-1-1", "autoscale-1-2"] true) (t := sampleStop.1)
    ((Lib.Machine.run_of_exec_get (by decide)).mono fun _ _ _ => trivial)
    (current_of_currentNow (by decide)) rfl hmem⟩

def silent (s : State) : Action → Bool
  | .heartbeat id _ _ => id ∉ s.stopped
  | _ => true

/-- The next tick still counts the worker that the last one stopped, and stops the only one left. -/
theorem stopWorker_counts_stopped :
    ∃ as es s a t es', (machine sampleParams).Run (fun s a => silent s a = true) {} as es s ∧
      (machine sampleParams).step s a = some (t, es') ∧
      .stopWorker "autoscale-1-2" true true ∈ es' ∧ s.spare = sampleParams.cfg.min := by
  have hrun : (machine sampleParams).Run (fun s a => silent s a = true) {}
      (sampleGrow ++ sampleTick 20 0 ["autoscale-1-1", "autoscale-1-2"] ++
        [.tick 21, .reconcile []]) _ _ :=
    Lib.Machine.run_of_exec_get (by decide)
  refine ⟨_, _, _, .decide 0 ["autoscale-1-2"] true, _, _, hrun,
    (Option.some_get (by decide)).symm, ?_, ?_⟩
  · decide
  · decide

end Autoscaler

end Minimodal
