import Minimodal.Autoscaler.Policy
import Minimodal.Lib.Slack

namespace Minimodal

namespace Autoscaler

def aliveWorkers (byID : List (String × WorkerMetrics)) : List WorkerMetrics :=
  (byID.filter fun (_, w) => w.alive).map Prod.snd

def Full (byID : List (String × WorkerMetrics)) : Prop :=
  ∀ w ∈ aliveWorkers byID, w.capacity ≤ w.activeTasks
  deriving Decidable

def free (byID : List (String × WorkerMetrics)) : Int :=
  Lib.slack WorkerMetrics.capacity WorkerMetrics.activeTasks (aliveWorkers byID)

def excess (byID : List (String × WorkerMetrics)) : Int :=
  Lib.slack WorkerMetrics.activeTasks WorkerMetrics.capacity (aliveWorkers byID)

/-- There are free slots, and no fewer tasks beyond the capacity of other workers. -/
def Hidden (byID : List (String × WorkerMetrics)) : Prop :=
  0 < free byID ∧ free byID ≤ excess byID
  deriving Decidable

variable {ps : Params} {cfg : AutoscalerConfig} {now : Nat} {byID : List (String × WorkerMetrics)}
  {a b : Autoscaler} {x : Observation} {e : List Event} {id : String}

theorem capacity_eq (byID : List (String × WorkerMetrics)) :
    capacity byID = ((aliveWorkers byID).map WorkerMetrics.capacity).sum := by
  simp only [capacity, aliveWorkers, List.map_map]
  rfl

theorem active_eq (byID : List (String × WorkerMetrics)) :
    active byID = ((aliveWorkers byID).map WorkerMetrics.activeTasks).sum := by
  simp only [active, aliveWorkers, List.map_map]
  rfl

theorem full_iff : Full byID ↔ free byID = 0 := Lib.slack_eq_zero.symm

theorem saturated_iff (hne : aliveWorkers byID ≠ []) (hcap : ∀ w ∈ aliveWorkers byID, 0 < w.capacity) :
    saturated byID = true ↔ free byID ≤ excess byID := by
  have hpos : 0 < capacity byID := by
    rw [capacity_eq]
    refine List.sum_pos _ ?_ (by simpa using hne)
    simpa using hcap
  have hsum : capacity byID ≤ active byID ↔ free byID ≤ excess byID := by
    rw [capacity_eq, active_eq]
    exact Lib.sum_le_sum_iff_slack
  simp only [saturated, decide_eq_true_eq, ge_iff_le, hsum]
  exact and_iff_right hpos

theorem saturated_of_launch {entries : List (String × ManagedWorker)}
    (h : decision cfg.new now byID a 0 entries = .launch) (hmin : cfg.min ≤ a.effective byID) :
    saturated byID = true := by
  have hthreshold : 1 ≤ cfg.new.queueThreshold := by
    simp only [AutoscalerConfig.new]
    split <;> omega
  unfold decision at h
  split at h
  · rename_i hbelow
    simp only [AutoscalerConfig.new] at hbelow
    omega
  · split at h
    · rename_i hdemand
      exact hdemand.1.resolve_left (by omega)
    · split at h
      · split at h <;> cases h
      · cases h

theorem decision_of_launchWorker {ok : Bool} (h : tick ps a x = some (b, e))
    (hmem : .launchWorker id ok ∈ e) :
    ∃ entries, decision ps.cfg.new x.now x.byID (reconcile ps.cfg.new x.now x.byID a).1 x.queue
      entries = .launch := by
  simp only [tick, Option.map_eq_some_iff, Prod.mk.injEq] at h
  obtain ⟨entries, -, -, rfl⟩ := h
  refine ⟨entries, ?_⟩
  cases hd : decision ps.cfg.new x.now x.byID (reconcile ps.cfg.new x.now x.byID a).1 x.queue entries with
  | launch => rfl
  | stop id => cases hok : x.ok <;> simp [hd, hok, act, stops] at hmem
  | nothing => simp [hd, act, stops] at hmem

/-- On a snapshot with an alive worker and positive capacities, `saturated` says that every alive
worker is full, and a tick with an empty queue and no less than the minimum launches only then,
unless the tasks beyond the capacity of some workers make up for the free slots of others. -/
theorem saturated_means_full_iff (byID : List (String × WorkerMetrics))
    (hne : aliveWorkers byID ≠ []) (hcap : ∀ w ∈ aliveWorkers byID, 0 < w.capacity) :
    ((saturated byID = true ↔ Full byID) ∧
      ∀ ps a x b e id ok, x.byID = byID → x.queue = 0 → tick ps a x = some (b, e) →
        ps.cfg.min ≤ (reconcile ps.cfg.new x.now byID a).1.effective byID →
        .launchWorker id ok ∈ e → Full byID) ↔ ¬ Hidden byID := by
  have hfree : 0 ≤ free byID := Lib.slack_nonneg _ _ _
  have hexcess : 0 ≤ excess byID := Lib.slack_nonneg _ _ _
  have hflag := saturated_iff hne hcap
  have hfull : Full byID ↔ free byID = 0 := full_iff
  constructor
  · rintro ⟨hiff, -⟩ ⟨hpos, hle⟩
    have hzero := hfull.mp (hiff.mp (hflag.mpr hle))
    omega
  · intro hhidden
    have hiff : saturated byID = true ↔ Full byID := by
      rw [hflag, hfull]
      simp only [Hidden] at hhidden
      omega
    refine ⟨hiff, ?_⟩
    rintro ps a x b e id ok rfl hqueue htick hmin hmem
    obtain ⟨entries, hd⟩ := decision_of_launchWorker htick hmem
    rw [hqueue] at hd
    exact hiff.mp (saturated_of_launch hd hmin)

def sampleBusy : List (String × WorkerMetrics) :=
  [("w", { alive := true, activeTasks := 2, capacity := 1 }),
    ("v", { alive := true, activeTasks := 1, capacity := 3 })]

theorem saturated_means_full_iff_sample :
    ¬ Hidden sampleBusy ∧ saturated sampleBusy = false ∧ (saturated sampleBusy = true ↔ Full sampleBusy) := by
  have hnot : ¬ Hidden sampleBusy := by decide
  exact ⟨hnot, by decide,
    ((saturated_means_full_iff sampleBusy (by decide) (by decide)).mpr hnot).1⟩

def sampleRoom : Params := { sampleScaler with cfg := { sampleScaler.cfg with max := 3 } }

def sampleOverloaded : State × List Event :=
  ((machine sampleRoom).exec (fun _ _ => true) {}
    [.register "w" "host:1" 1 0, .heartbeat "w" 3 1, .register "v" "host:2" 1 2, .tick 3,
      .reconcile []]).get (by decide)

def sampleFleet : List (String × WorkerMetrics) :=
  [("v", { alive := true, activeTasks := 0, capacity := 1 }),
    ("w", { alive := true, activeTasks := 3, capacity := 1 })]

/-- With nothing queued, the tick launches a third worker while `v` is free. -/
theorem launch_beside_free_worker :
    (∃ as, (machine sampleRoom).Run Lib.Machine.Always {} as sampleOverloaded.2 sampleOverloaded.1) ∧
      sampleOverloaded.1.tick = .decide 3 sampleFleet ∧
      (∀ w ∈ aliveWorkers sampleFleet, 0 < w.capacity) ∧
      sampleRoom.cfg.min ≤ sampleOverloaded.1.scaler.effective sampleFleet ∧
      saturated sampleFleet = true ∧ ¬ Full sampleFleet ∧
      (step sampleRoom sampleOverloaded.1 (.decide 0 [] true)).map Prod.snd =
        some [.launchWorker "autoscale-1-1" true] :=
  ⟨⟨_, (Lib.Machine.run_of_exec_get (by decide)).mono fun _ _ _ => trivial⟩,
    by decide, by decide, by decide, by decide, by decide, by decide⟩

end Autoscaler

end Minimodal
