import Minimodal.Autoscaler.Policy

namespace Minimodal

namespace Autoscaler

/-- A managed worker that `reconcile` meets in the pool for the first time is alive there. -/
def seenAlive (s : State) : Action → Bool
  | .reconcile _ =>
    match s.tick with
    | .reconcile _ byID => s.scaler.managed.all fun (id, m) =>
        m.registered || (byID.lookup id).all fun w => w.alive
    | _ => true
  | _ => true

variable {ps : Params} {cfg : AutoscalerConfig} {now : Nat} {byID : List (String × WorkerMetrics)}
  {a : Autoscaler} {s t : State} {c : Action} {es : List Event} {id : String}

theorem reconcileWorker_registered {m m' : ManagedWorker}
    (h : reconcileWorker cfg now byID id m = some m') (hreg : m'.registered = true) :
    ∃ w, byID.lookup id = some w ∧ (m.registered = true → w.alive = true) := by
  unfold reconcileWorker at h
  cases hw : byID.lookup id with
  | none =>
    cases hm : m.registered with
    | false =>
      simp only [hm, hw, Bool.not_false, if_true, Option.isSome_none, Bool.false_eq_true, if_false] at h
      split at h
      · cases h
      · rw [← Option.some.inj h, hm] at hreg
        cases hreg
    | true => simp [hm, hw] at h
  | some w =>
    refine ⟨w, rfl, fun hm => ?_⟩
    by_contra halive
    simp [hm, hw, halive] at h

theorem le_effective (hkeys : (a.managed.map Prod.fst).Nodup)
    (h : ∀ entry ∈ a.managed, entry.2.registered = true →
      ∃ w, byID.lookup entry.1 = some w ∧ w.alive = true) :
    (a.managed.length : Int) ≤ a.effective byID := by
  have hsub : (a.managed.filter fun entry => entry.2.registered).map Prod.fst ⊆
      (byID.filter fun entry => entry.2.alive).map Prod.fst := by
    intro id hid
    simp only [List.mem_map, List.mem_filter] at hid ⊢
    obtain ⟨entry, ⟨hmem, hreg⟩, rfl⟩ := hid
    obtain ⟨w, hw, halive⟩ := h entry hmem hreg
    obtain ⟨l₁, l₂, rfl, -⟩ := List.lookup_eq_some_iff.mp hw
    exact ⟨(entry.1, w), ⟨by simp, halive⟩, rfl⟩
  have hle := ((hkeys.sublist (List.filter_sublist.map Prod.fst)).subperm hsub).length_le
  have hsplit := List.length_eq_length_filter_add (l := a.managed) fun entry => entry.2.registered
  simp only [List.length_map] at hle
  simp only [effective, alive, pending]
  omega

theorem lt_max_of_launch {queue : Int} {entries : List (String × ManagedWorker)}
    (h : decision cfg.new now byID a queue entries = .launch) : a.effective byID < cfg.new.max := by
  have hle : cfg.new.min ≤ cfg.new.max := by
    simp only [AutoscalerConfig.new]
    split <;> omega
  unfold decision at h
  split at h
  · rename_i hmin
    omega
  · split at h
    · rename_i hmax
      exact hmax.2.1
    · split at h
      · split at h <;> cases h
      · cases h

structure Bounded (ps : Params) (s : State) : Prop where
  le_max : (s.scaler.managed.length : Int) ≤ ps.cfg.new.max
  counted : ∀ now byID, s.tick = .decide now byID →
    (s.scaler.managed.length : Int) ≤ s.scaler.effective byID

theorem length_act {ok : Bool} {d : Decision} :
    (act ps s now ok d).1.scaler.managed.length ≤
      s.scaler.managed.length + if d = .launch then 1 else 0 := by
  cases d with
  | launch =>
    cases ok with
    | false => simp [act, launch]
    | true =>
      have hle := List.length_filter_le
        (fun entry : String × ManagedWorker => entry.1 != workerID ps.pid (s.scaler.seq + 1))
        s.scaler.managed
      simpa [act, launch, insert] using hle
  | stop id =>
    cases ok with
    | false => simp [act]
    | true => simpa [act] using List.length_filter_le _ _
  | nothing => simp [act]

theorem bounded_of_step (h : Bounded ps s) (hkeys : (s.scaler.managed.map Prod.fst).Nodup)
    (hok : seenAlive s c = true) (hst : step ps s c = some (t, es)) : Bounded ps t := by
  cases steps_of_step hst with
  | tick => exact ⟨h.le_max, by simp⟩
  | @reconcile now byID failing scaler gone htick hrec =>
    have hscaler : scaler = (reconcile ps.cfg.new now byID s.scaler).1 := by rw [hrec]
    subst hscaler
    refine ⟨?_, ?_⟩
    · have hle := List.length_filterMap_le
        (fun entry : String × ManagedWorker =>
          (reconcileWorker ps.cfg.new now byID entry.1 entry.2).map fun m => (entry.1, m)) s.scaler.managed
      have hmax := h.le_max
      simp only [reconcile]
      omega
    · rintro now' byID' heq
      simp only [Tick.decide.injEq] at heq
      obtain ⟨rfl, rfl⟩ := heq
      refine le_effective (hkeys.sublist reconcile_keys) fun entry hentry hreg => ?_
      obtain ⟨m, hmem, hm⟩ := mem_reconcile hentry
      obtain ⟨w, hw, halive⟩ := reconcileWorker_registered hm hreg
      refine ⟨w, hw, ?_⟩
      cases hm' : m.registered with
      | true => exact halive hm'
      | false =>
        simp only [seenAlive, htick, List.all_eq_true] at hok
        simpa [hm', hw] using hok _ hmem
  | @decide now byID queue order entries ok _ _ htick _ hact =>
    refine ⟨?_, by simp [tick_of_act hact]⟩
    have hlen : ∀ d, (act ps s now ok d).1.scaler.managed.length ≤
        s.scaler.managed.length + if d = .launch then 1 else 0 := fun _ => length_act
    have hlen := hlen (decision ps.cfg.new now byID s.scaler queue entries)
    simp only [hact] at hlen
    have hmax := h.le_max
    have hcounted := h.counted now byID htick
    split at hlen
    · rename_i hd
      have hlt := lt_max_of_launch hd
      omega
    · omega
  | _ => exact ⟨h.le_max, h.counted⟩

theorem bounded_of_run {as : List Action} (hmax : 0 ≤ ps.cfg.new.max)
    (h : (machine ps).Run (fun s c => seenAlive s c = true) {} as es s) : Bounded ps s := by
  induction h with
  | refl => exact ⟨by simpa using hmax, by simp⟩
  | tail hrun hok hst ih => exact bounded_of_step ih (keys_nodup_of_run hrun) hok hst

/-- As long as no launched worker registers and is declared dead between two ticks, the autoscaler
never manages more workers than the maximum. -/
theorem managed_le_max (ps : Params) (hmax : 0 ≤ ps.cfg.new.max) {as : List Action} {es : List Event}
    {s : State} (h : (machine ps).Run (fun s c => seenAlive s c = true) {} as es s) :
    (s.scaler.managed.length : Int) ≤ ps.cfg.new.max :=
  (bounded_of_run hmax h).le_max

def sampleSingle : Params where
  cfg := { min := 1, max := 1, queueThreshold := 1, idleTimeout := 10, cooldown := 0
           registerTimeout := 100 }
  pid := 1
  timeout := 6

def sampleUp : State × List Event :=
  ((machine sampleSingle).exec seenAlive {}
    [.tick 0, .reconcile [], .decide 0 [] true, .tick 200, .reconcile [], .decide 0 [] true,
      .register "autoscale-1-1" "host:1" 1 201, .heartbeat "autoscale-1-1" 0 203, .tick 204,
      .reconcile [], .decide 3 ["autoscale-1-2"] true]).get (by decide)

theorem managed_le_max_sample : (sampleUp.1.scaler.managed.length : Int) ≤ 1 :=
  managed_le_max sampleSingle (by decide) (Lib.Machine.run_of_exec_get (by decide))

/-- The only worker allowed registers and is declared dead before the next tick, which marks it as
registered and so counts it neither as alive nor as pending. -/
def sampleOver : State × List Event :=
  ((machine sampleSingle).exec (fun _ _ => true) {}
    [.tick 0, .reconcile [], .decide 0 [] true, .register "autoscale-1-1" "host:1" 1 1,
      .sweep 20 ["autoscale-1-1"], .tick 21, .reconcile [], .decide 0 ["autoscale-1-1"] true]).get
    (by decide)

theorem managed_exceeds_max :
    ∃ as, (machine sampleSingle).Run Lib.Machine.Always {} as sampleOver.2 sampleOver.1 ∧
      sampleOver.1.tick = .waiting ∧ sampleSingle.cfg.new.max = 1 ∧
      sampleOver.1.scaler.managed.length = 2 :=
  ⟨_, (Lib.Machine.run_of_exec_get (by decide)).mono fun _ _ _ => trivial, by decide, by decide,
    by decide⟩

end Autoscaler

end Minimodal
