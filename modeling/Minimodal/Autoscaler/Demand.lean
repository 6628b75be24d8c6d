import Minimodal.Autoscaler.Policy
import Minimodal.Server.Attempts

namespace Minimodal

namespace Autoscaler

variable {ps : Params} {a b : Autoscaler} {x : Observation} {xs ys : List Observation}
  {es fs e : List Event} {t : Nat}

/-- No worker has been launched after `t`. -/
structure LaunchedBy (t : Nat) (a : Autoscaler) : Prop where
  managed : ∀ entry ∈ a.managed, entry.2.launchedAt ≤ t
  lastLaunch : ∀ l, a.lastLaunch = some l → l ≤ t

section Reconcile

variable {cfg : AutoscalerConfig} {now : Nat} {byID : List (String × WorkerMetrics)} {id : String}
  {m m' : ManagedWorker}

theorem reconcileWorker_launchedAt (h : reconcileWorker cfg now byID id m = some m') :
    m'.launchedAt = m.launchedAt := by
  unfold reconcileWorker at h
  simp only at h
  repeat' split at h
  all_goals cases h <;> rfl

theorem reconcileWorker_overdue (h : reconcileWorker cfg now byID id m = some m')
    (hlate : cfg.registerTimeout < (now : Int) - m.launchedAt) : m'.registered = true := by
  unfold reconcileWorker at h
  cases hreg : m.registered with
  | false =>
    simp only [hreg, Bool.not_false, if_true, gt_iff_lt, hlate] at h
    split at h
    · cases h
      rfl
    · cases h
  | true =>
    simp only [hreg, Bool.not_true, Bool.false_eq_true, if_false] at h
    repeat' split at h
    all_goals cases h <;> first | rfl | exact hreg

theorem LaunchedBy.reconcile (h : LaunchedBy t a) : LaunchedBy t (reconcile cfg now byID a).1 where
  managed entry hentry := by
    obtain ⟨m, hmem, hm⟩ := mem_reconcile hentry
    rw [reconcileWorker_launchedAt hm]
    exact h.managed _ hmem
  lastLaunch := h.lastLaunch

theorem LaunchedBy.pending (h : LaunchedBy t a)
    (hlate : cfg.registerTimeout < (now : Int) - t) :
    (Autoscaler.reconcile cfg now byID a).1.pending = 0 := by
  have hall : ∀ entry ∈ (Autoscaler.reconcile cfg now byID a).1.managed,
      entry.2.registered = true := by
    intro entry hentry
    obtain ⟨m, hmem, hm⟩ := mem_reconcile hentry
    have hm' : m.launchedAt ≤ t := h.managed _ hmem
    exact reconcileWorker_overdue hm (by omega)
  simpa [Autoscaler.pending] using hall

theorem LaunchedBy.cooled (h : LaunchedBy t a) (hlate : cfg.cooldown ≤ (now : Int) - t) :
    a.cooled cfg now = true := by
  unfold Autoscaler.cooled
  split
  · rfl
  · rename_i l hl
    have hl' := h.lastLaunch l hl
    simp only [ge_iff_le, decide_eq_true_eq]
    omega

end Reconcile

theorem Ticks.launchedBy (h : Ticks ps a x b e) (ha : LaunchedBy t a)
    (ht : (∃ id, .launchWorker id true ∈ e) → x.now ≤ t) : LaunchedBy t b := by
  cases h with
  | launch =>
    cases hok : x.ok with
    | false => exact ⟨ha.managed, ha.lastLaunch⟩
    | true =>
      have hnow : x.now ≤ t := ht ⟨workerID ps.pid (a.seq + 1), by simp [hok]⟩
      refine ⟨fun entry hentry => ?_, fun l hl => Option.some.inj hl ▸ hnow⟩
      simp only [Autoscaler.launch, if_true, insert, List.mem_append, List.mem_filter,
        List.mem_singleton] at hentry
      rcases hentry with ⟨hmem, -⟩ | rfl
      · exact ha.managed entry hmem
      · exact hnow
  | stop =>
    split
    · exact ⟨fun entry hentry => ha.managed entry (List.mem_filter.mp hentry).1, ha.lastLaunch⟩
    · exact ha
  | nothing => exact ha

theorem decision_launch {cfg : AutoscalerConfig} {now : Nat}
    {byID : List (String × WorkerMetrics)} {queue : Int} {entries : List (String × ManagedWorker)}
    (hdead : ∀ entry ∈ byID, entry.2.alive = false) (hpending : a.pending = 0)
    (hqueue : cfg.queueThreshold ≤ queue) (hmax : 1 ≤ cfg.max) (hcooled : a.cooled cfg now = true) :
    decision cfg now byID a queue entries = .launch := by
  have halive : alive byID = 0 := by
    simp only [alive, Nat.cast_eq_zero, List.length_eq_zero_iff, List.filter_eq_nil_iff]
    exact fun entry hentry => by simp [hdead entry hentry]
  have heffective : a.effective byID = 0 := by rw [effective, halive, hpending, zero_add]
  unfold decision
  split
  · rfl
  · rw [if_pos ⟨.inl hqueue, by omega, hcooled⟩]

theorem launchedBy_of_run (h : (policy ps).Run Lib.Machine.Always {} xs es a)
    (hxs : ∀ x ∈ xs, x.now ≤ t) : LaunchedBy t a := by
  refine h.mem.invariant (P := LaunchedBy t) ⟨by simp, by simp⟩ ?_
  rintro a x b e ha ⟨-, hx⟩ hst
  obtain ⟨e', htick, -⟩ := ticks_of_tick hst
  exact htick.launchedBy ha.reconcile fun _ => hxs x hx

theorem launches_or_launchedBy (h : (policy ps).Run Lib.Machine.Always a xs es b)
    (ha : LaunchedBy t a) : (∃ id, .launchWorker id true ∈ es) ∨ LaunchedBy t b := by
  refine h.invariant_trace (P := fun es b => (∃ id, .launchWorker id true ∈ es) ∨ LaunchedBy t b)
    (.inr ha) ?_
  rintro es b x c e (⟨id, hmem⟩ | hb) - hst
  · exact .inl ⟨id, List.mem_append_left _ hmem⟩
  · obtain ⟨e', htick, rfl⟩ := ticks_of_tick hst
    by_cases hlaunch : ∃ id, .launchWorker id true ∈ e'
    · obtain ⟨id, hmem⟩ := hlaunch
      exact .inl ⟨id, List.mem_append_right _ (List.mem_append_right _ hmem)⟩
    · exact .inr (htick.launchedBy hb.reconcile fun h => absurd h hlaunch)

/-- A waiting job is not left without a worker: if at a tick a job waits, no worker is alive and
the launcher works, then the autoscaler has launched a worker after `t`, this tick included, for
every time `t` from which a launch had time to register and to cool down. -/
theorem waiting_job_gets_worker (cfg : Config) (ps : Params) {xs ys : List Observation}
    {es fs : List Event} {a b c : Autoscaler} {x : Observation} {e : List Event}
    (hxs : (policy ps).Run Lib.Machine.Always {} xs es a) (t : Nat) (ht : ∀ x ∈ xs, x.now ≤ t)
    (hys : (policy ps).Run Lib.Machine.Always a ys fs b) (htick : tick ps b x = some (c, e))
    {s : Server.State} {j : String} (hwaits : Server.Waits cfg s j)
    (hqueue : x.queue = s.mem.queueDepth) (hdead : ∀ entry ∈ x.byID, entry.2.alive = false)
    (hok : x.ok = true) (hthreshold : ps.cfg.queueThreshold ≤ 1) (hmax : 1 ≤ ps.cfg.max)
    (hregister : ps.cfg.registerTimeout < (x.now : Int) - t)
    (hcooldown : ps.cfg.cooldown ≤ (x.now : Int) - t) :
    ∃ id, .launchWorker id true ∈ fs ++ e := by
  rcases launches_or_launchedBy hys (launchedBy_of_run hxs ht) with ⟨id, hmem⟩ | hb
  · exact ⟨id, List.mem_append_left _ hmem⟩
  · have hdepth := hwaits.queueDepth
    have hthreshold' : ps.cfg.new.queueThreshold ≤ x.queue := by
      rw [hqueue]
      simp only [AutoscalerConfig.new]
      split <;> omega
    have hmax' : 1 ≤ ps.cfg.new.max := by
      simp only [AutoscalerConfig.new]
      split <;> omega
    have hpending : (reconcile ps.cfg.new x.now x.byID b).1.pending = 0 := hb.pending hregister
    have hcooled : (reconcile ps.cfg.new x.now x.byID b).1.cooled ps.cfg.new x.now = true :=
      hb.reconcile.cooled hcooldown
    simp only [tick, Option.map_eq_some_iff, Prod.mk.injEq] at htick
    obtain ⟨entries, -, -, rfl⟩ := htick
    rw [decision_launch hdead hpending hthreshold' hmax' hcooled, hok]
    exact ⟨_, List.mem_append_right _ (List.mem_append_right _ (List.mem_singleton_self _))⟩

def sampleNobody : Server.State × List Server.Event :=
  ((Server.machine Server.sampleConfig).exec (fun _ _ => true) Server.init
    [.start, .main {},
      .invokeFunction 0 { functionBytes := [1], argsBytes := [2], functionName := "f" } "j" 1,
      .call 0 { now := 2 }, .call 0 {}, .call 0 {}, .call 0 {}, .call 0 {}, .drainer {},
      .drainer {}, .drainer {}, .drainer {}]).get (by decide)

def sampleDemand (now : Nat) (order : List String) (ok : Bool) : Observation where
  now := now
  byID := []
  queue := 1
  order := order
  failing := []
  ok := ok

def sampleLaunched : Autoscaler × List Event :=
  ((policy sampleScaler).exec (fun _ _ => true) {} [sampleDemand 0 [] true]).get (by decide)

def sampleGivenUp : Autoscaler × List Event :=
  ((policy sampleScaler).exec (fun _ _ => true) sampleLaunched.1
    [sampleDemand 60 ["autoscale-1-1"] false, sampleDemand 120 [] false]).get (by decide)

theorem waiting_job_gets_worker_sample :
    sampleNobody.1.mem.queueDepth = 1 ∧ .launchWorker "autoscale-1-1" true ∈ sampleLaunched.2 ∧
      .launchWorker "autoscale-1-3" false ∈ sampleGivenUp.2 ∧
      ∃ id, .launchWorker id true ∈
        sampleGivenUp.2 ++ ((tick sampleScaler sampleGivenUp.1 (sampleDemand 130 [] true)).get
          (by decide)).2 := by
  have hserver : (Server.machine Server.sampleConfig).Run Lib.Machine.Always Server.init _
      sampleNobody.2 sampleNobody.1 :=
    (Lib.Machine.run_of_exec_get (by decide)).mono fun _ _ _ => trivial
  have hxs : (policy sampleScaler).Run Lib.Machine.Always {} _ sampleLaunched.2 sampleLaunched.1 :=
    (Lib.Machine.run_of_exec_get (by decide)).mono fun _ _ _ => trivial
  have hys : (policy sampleScaler).Run Lib.Machine.Always sampleLaunched.1 _ sampleGivenUp.2
      sampleGivenUp.1 := (Lib.Machine.run_of_exec_get (by decide)).mono fun _ _ _ => trivial
  have hwaits : Server.Waits Server.sampleConfig sampleNobody.1 "j" := ⟨⟨_, _, hserver⟩, .inr rfl⟩
  have hdepth : sampleNobody.1.mem.queueDepth = 1 := rfl
  have htick : (tick sampleScaler sampleGivenUp.1 (sampleDemand 130 [] true)).isSome = true := by
    decide
  refine ⟨hdepth, by decide, by decide, ?_⟩
  exact waiting_job_gets_worker Server.sampleConfig sampleScaler hxs 0 (by simp [sampleDemand]) hys
    (Option.some_get htick).symm hwaits hdepth.symm (by simp [sampleDemand]) rfl (by decide)
    (by decide) (by decide) (by decide)

end Autoscaler

end Minimodal
