import Minimodal.Autoscaler.Tick

namespace Minimodal

namespace Autoscaler

/-- What a tick meets: the clock, the snapshot and the queue, the order in which the map is ranged
over, the workers of `reconcile` that cannot be stopped, and how the call that ends it comes out. -/
structure Observation where
  now : Nat
  byID : List (String × WorkerMetrics)
  queue : Int
  order : List String
  failing : List String
  ok : Bool

def Observation.showsIdle (x : Observation) (id : String) : Prop :=
  ∃ w, x.byID.lookup id = some w ∧ w.alive = true ∧ w.activeTasks ≤ 0

def stops (gone failing : List String) : List Event :=
  gone.map fun id => .stopWorker id false (id ∉ failing)

def tick (ps : Params) (a : Autoscaler) (x : Observation) : Option (Autoscaler × List Event) :=
  let (b, gone) := reconcile ps.cfg.new x.now x.byID a
  (b.range x.order).map fun entries =>
    let (t, es) := act ps { scaler := b } x.now x.ok
      (decision ps.cfg.new x.now x.byID b x.queue entries)
    (t.scaler, stops gone x.failing ++ es)

def policy (ps : Params) : Lib.Machine Autoscaler Observation Event := ⟨tick ps⟩

variable {ps : Params} {a b : Autoscaler} {x : Observation} {xs : List Observation}
  {es e : List Event} {id : String}

inductive Ticks (ps : Params) (a : Autoscaler) (x : Observation) : Autoscaler → List Event → Prop
  | launch : Ticks ps a x (a.launch ps.pid x.now x.ok)
      [.launchWorker (workerID ps.pid (a.seq + 1)) x.ok]
  | stop {entries id} : a.range x.order = some entries →
      decision ps.cfg.new x.now x.byID a x.queue entries = .stop id →
      Ticks ps a x
        (if x.ok then { a with managed := a.managed.filter fun entry => entry.1 != id } else a)
        [.stopWorker id true x.ok]
  | nothing : Ticks ps a x a []

theorem ticks_of_tick (h : tick ps a x = some (b, e)) :
    ∃ e', Ticks ps (reconcile ps.cfg.new x.now x.byID a).1 x b e' ∧
      e = stops (reconcile ps.cfg.new x.now x.byID a).2 x.failing ++ e' := by
  simp only [tick, Option.map_eq_some_iff, Prod.mk.injEq] at h
  obtain ⟨entries, hentries, rfl, rfl⟩ := h
  refine ⟨_, ?_, rfl⟩
  cases hd : decision ps.cfg.new x.now x.byID (reconcile ps.cfg.new x.now x.byID a).1 x.queue entries with
  | launch => exact .launch
  | stop id =>
    have hstop : Ticks ps _ x _ _ := .stop hentries hd
    cases hok : x.ok <;> simpa [act, hok] using hstop
  | nothing => exact .nothing

theorem workerID_inj {pid m n : Nat} (h : workerID pid m = workerID pid n) : m = n := by
  simpa [workerID] using h

/-- Every `StopWorker` comes after a successful launch of its worker and after no successful stop. -/
def Sound (es : List Event) : Prop :=
  ∀ pre post id idle ok, es = pre ++ .stopWorker id idle ok :: post →
    .launchWorker id true ∈ pre ∧ ∀ idle', .stopWorker id idle' true ∉ pre

theorem Sound.snoc (h : Sound es) {ev : Event}
    (hev : ∀ id idle ok, ev = .stopWorker id idle ok →
      .launchWorker id true ∈ es ∧ ∀ idle', .stopWorker id idle' true ∉ es) : Sound (es ++ [ev]) := by
  intro pre post id idle ok heq
  obtain rfl | ⟨post', last, rfl⟩ := post.eq_nil_or_concat
  · obtain ⟨rfl, hlast⟩ := List.append_inj' heq rfl
    exact hev id idle ok (List.singleton_inj.mp hlast)
  · rw [List.concat_eq_append, ← List.cons_append, ← List.append_assoc] at heq
    exact h pre post' id idle ok (List.append_inj' heq rfl).1

theorem Sound.stops (h : Sound es) {gone failing : List String} (hnodup : gone.Nodup)
    (hgone : ∀ id ∈ gone, .launchWorker id true ∈ es ∧ ∀ idle, .stopWorker id idle true ∉ es) :
    Sound (es ++ stops gone failing) := by
  induction gone using List.reverseRecOn with
  | nil => simpa [Autoscaler.stops] using h
  | append_singleton gone id ih =>
    have hnodup' := List.nodup_append.mp hnodup
    have ih := ih hnodup'.1 fun id' hid => hgone id' (by simp [hid])
    have heq : es ++ Autoscaler.stops (gone ++ [id]) failing =
        (es ++ Autoscaler.stops gone failing) ++ [Event.stopWorker id false (id ∉ failing)] := by
      simp [Autoscaler.stops]
    rw [heq]
    refine ih.snoc fun id' idle ok hev => ?_
    simp only [Event.stopWorker.injEq] at hev
    obtain ⟨rfl, -, -⟩ := hev
    obtain ⟨hlaunch, hstop⟩ := hgone id (by simp)
    refine ⟨by simp [hlaunch], fun idle' hmem => ?_⟩
    -- no worker is given up twice in one round
    obtain hmem | hmem := List.mem_append.mp hmem
    · exact hstop idle' hmem
    · simp only [Autoscaler.stops, List.mem_map, Event.stopWorker.injEq] at hmem
      obtain ⟨id', hid', rfl, -⟩ := hmem
      exact hnodup'.2.2 id' hid' id' (by simp) rfl

def Event.launchedID : Event → Option String
  | .launchWorker id _ => some id
  | .stopWorker _ _ _ => none

def IdleSince (xs : List Observation) (id : String) (since : Nat) : Prop :=
  ∃ ys y zs, xs = ys ++ y :: zs ∧ y.now = since ∧ ∀ z ∈ y :: zs, z.showsIdle id

theorem IdleSince.snoc {since : Nat} (h : IdleSince xs id since) (hx : x.showsIdle id) :
    IdleSince (xs ++ [x]) id since := by
  obtain ⟨ys, y, zs, rfl, hnow, hall⟩ := h
  refine ⟨ys, y, zs ++ [x], by simp, hnow, fun z hz => ?_⟩
  simp only [List.mem_cons, List.mem_append, List.not_mem_nil, or_false] at hz
  obtain rfl | hz | rfl := hz
  · exact hall _ (by simp)
  · exact hall z (by simp [hz])
  · exact hx

theorem IdleSince.single (hx : x.showsIdle id) : IdleSince (xs ++ [x]) id x.now :=
  ⟨xs, x, [], rfl, rfl, by simpa using hx⟩

structure Owned (ps : Params) (xs : List Observation) (es : List Event) (a : Autoscaler) : Prop where
  keys : (a.managed.map Prod.fst).Nodup
  distinct : (es.filterMap Event.launchedID).Nodup
  numbered : ∀ id ok, .launchWorker id ok ∈ es → ∃ n ≤ a.seq, id = workerID ps.pid n
  managed : ∀ entry ∈ a.managed, .launchWorker entry.1 true ∈ es ∧
    ∀ idle, .stopWorker entry.1 idle true ∉ es
  unregistered : ∀ entry ∈ a.managed, entry.2.registered = false → entry.2.idleSince = none
  idle : ∀ entry ∈ a.managed, ∀ since, entry.2.idleSince = some since → IdleSince xs entry.1 since
  sound : Sound es

theorem Owned.init : Owned ps [] [] {} where
  keys := by simp
  distinct := by simp
  numbered := by simp
  managed := by simp
  unregistered := by simp
  idle := by simp
  sound := by simp [Sound]

theorem reconcileWorker_some {cfg : AutoscalerConfig} {m m' : ManagedWorker}
    (h : reconcileWorker cfg x.now x.byID id m = some m') :
    (m.registered = false ∧ m'.idleSince = m.idleSince) ∨
      m'.registered = true ∧ (m'.idleSince = none ∨
        x.showsIdle id ∧ (m'.idleSince = some x.now ∨ m'.idleSince = m.idleSince)) := by
  unfold reconcileWorker at h
  cases hreg : m.registered with
  | false =>
    left
    simp only [hreg, Bool.not_false, if_true] at h
    refine ⟨rfl, ?_⟩
    split at h
    · rw [← Option.some.inj h]
    · split at h
      · cases h
      · rw [← Option.some.inj h]
  | true =>
    right
    simp only [hreg, Bool.not_true, Bool.false_eq_true, if_false] at h
    cases hw : x.byID.lookup id with
    | none => simp [hw] at h
    | some w =>
      simp only [hw] at h
      cases halive : w.alive with
      | false => simp [halive] at h
      | true =>
        simp only [halive, Bool.not_true, Bool.false_eq_true, if_false] at h
        by_cases hact : w.activeTasks > 0
        · simp only [hact, if_true, Option.some.injEq] at h
          rw [← h]
          exact ⟨rfl, .inl rfl⟩
        · simp only [hact, if_false] at h
          have hidle : x.showsIdle id := ⟨w, hw, halive, by omega⟩
          split at h
          · rw [← Option.some.inj h]
            exact ⟨rfl, .inr ⟨hidle, .inl rfl⟩⟩
          · rw [← Option.some.inj h]
            exact ⟨hreg, .inr ⟨hidle, .inr rfl⟩⟩

section Reconcile

variable {cfg : AutoscalerConfig} {now : Nat} {byID : List (String × WorkerMetrics)}

theorem mem_reconcile {entry : String × ManagedWorker}
    (h : entry ∈ (reconcile cfg now byID a).1.managed) :
    ∃ m, (entry.1, m) ∈ a.managed ∧ reconcileWorker cfg now byID entry.1 m = some entry.2 := by
  simp only [reconcile, List.mem_filterMap, Option.map_eq_some_iff, Prod.exists] at h
  obtain ⟨id, m, hmem, m', hm, rfl⟩ := h
  exact ⟨m, hmem, hm⟩

theorem mem_gone (h : id ∈ (reconcile cfg now byID a).2) :
    ∃ m, (id, m) ∈ a.managed ∧ reconcileWorker cfg now byID id m = none := by
  simp only [reconcile, List.mem_map, List.mem_filter, Prod.exists, Option.isNone_iff_eq_none] at h
  obtain ⟨_, m, ⟨hmem, hnone⟩, rfl⟩ := h
  exact ⟨m, hmem, hnone⟩

theorem reconcile_keys :
    ((reconcile cfg now byID a).1.managed.map Prod.fst).Sublist (a.managed.map Prod.fst) := by
  simp only [reconcile]
  induction a.managed with
  | nil => exact .slnil
  | cons entry rest ih =>
    obtain ⟨id, m⟩ := entry
    cases hm : reconcileWorker cfg now byID id m with
    | none => simpa [hm] using ih.cons id
    | some m' => simpa [hm] using ih.cons_cons id

theorem gone_nodup (h : (a.managed.map Prod.fst).Nodup) : (reconcile cfg now byID a).2.Nodup :=
  h.sublist (List.filter_sublist.map Prod.fst)

end Reconcile

theorem stopWorker_mem_stops {gone failing : List String} {idle ok : Bool} :
    .stopWorker id idle ok ∈ stops gone failing ↔
      id ∈ gone ∧ idle = false ∧ ok = decide (id ∉ failing) := by
  simp only [stops, List.mem_map, Event.stopWorker.injEq]
  constructor
  · rintro ⟨id', hid', rfl, rfl, rfl⟩
    exact ⟨hid', rfl, rfl⟩
  · rintro ⟨hid, rfl, rfl⟩
    exact ⟨id, hid, rfl, rfl, rfl⟩

@[simp] theorem launchWorker_notMem_stops {gone failing : List String} {ok : Bool} :
    .launchWorker id ok ∉ stops gone failing := by
  simp [stops]

@[simp] theorem launchedID_stops (gone failing : List String) :
    (stops gone failing).filterMap Event.launchedID = [] := by
  simp [stops, List.filterMap_map, Function.comp_def, Event.launchedID]

theorem Owned.reconcile (h : Owned ps xs es a) (cfg : AutoscalerConfig) (x : Observation) :
    Owned ps (xs ++ [x]) (es ++ stops (reconcile cfg x.now x.byID a).2 x.failing)
      (reconcile cfg x.now x.byID a).1 where
  keys := h.keys.sublist reconcile_keys
  distinct := by simpa using h.distinct
  numbered id ok hmem := by
    obtain hmem | hmem := List.mem_append.mp hmem
    · exact h.numbered id ok hmem
    · exact absurd hmem launchWorker_notMem_stops
  managed entry hentry := by
    obtain ⟨m, hmem, hm⟩ := mem_reconcile hentry
    obtain ⟨hlaunch, hstop⟩ := h.managed _ hmem
    refine ⟨by simp [hlaunch], fun idle hs => ?_⟩
    obtain hs | hs := List.mem_append.mp hs
    · exact hstop idle hs
    · obtain ⟨m', hmem', hm'⟩ := mem_gone (stopWorker_mem_stops.mp hs).1
      have heq : m = m' := by
        simpa using List.inj_on_of_nodup_map h.keys hmem hmem' rfl
      rw [← heq, hm] at hm'
      cases hm'
  unregistered entry hentry hreg := by
    obtain ⟨m, hmem, hm⟩ := mem_reconcile hentry
    obtain ⟨hreg', heq⟩ | ⟨hreg', -⟩ := reconcileWorker_some hm
    · rw [heq]
      exact h.unregistered _ hmem hreg'
    · simp [hreg] at hreg'
  idle entry hentry since hsince := by
    obtain ⟨m, hmem, hm⟩ := mem_reconcile hentry
    obtain ⟨hreg, heq⟩ | ⟨-, hnone | ⟨hidle, hnow | heq⟩⟩ := reconcileWorker_some hm
    · rw [heq, h.unregistered _ hmem hreg] at hsince
      cases hsince
    · rw [hnone] at hsince
      cases hsince
    · rw [hnow, Option.some.injEq] at hsince
      rw [← hsince]
      exact .single hidle
    · rw [heq] at hsince
      exact (h.idle _ hmem since hsince).snoc hidle
  sound := by
    refine h.sound.stops (gone_nodup h.keys) fun id hid => ?_
    obtain ⟨m, hmem, -⟩ := mem_gone hid
    exact h.managed _ hmem

theorem Owned.workerID_notMem (h : Owned ps xs es a) {ok : Bool} :
    .launchWorker (workerID ps.pid (a.seq + 1)) ok ∉ es := by
  intro hmem
  obtain ⟨n, hn, heq⟩ := h.numbered _ ok hmem
  have hseq := workerID_inj heq
  omega

theorem Owned.launch (h : Owned ps xs es a) (now : Nat) (ok : Bool) :
    Owned ps xs (es ++ [Event.launchWorker (workerID ps.pid (a.seq + 1)) ok])
      (a.launch ps.pid now ok) := by
  have hmanaged : ∀ entry ∈ (a.launch ps.pid now ok).managed, entry ∈ a.managed ∨
      ok = true ∧ entry = (workerID ps.pid (a.seq + 1), { launchedAt := now }) := by
    intro entry hentry
    cases ok with
    | false => exact .inl hentry
    | true =>
      simp only [Autoscaler.launch, if_true, insert, List.mem_append, List.mem_filter,
        List.mem_singleton] at hentry
      obtain ⟨hmem, -⟩ | heq := hentry
      · exact .inl hmem
      · exact .inr ⟨rfl, heq⟩
  have hseq : (a.launch ps.pid now ok).seq = a.seq + 1 := by cases ok <;> rfl
  refine ⟨?_, ?_, ?_, ?_, ?_, ?_, ?_⟩
  · cases ok with
    | false => exact h.keys
    | true =>
      simp only [Autoscaler.launch, if_true, insert, List.map_append, List.map_cons, List.map_nil]
      refine List.nodup_append.mpr ⟨h.keys.sublist (List.filter_sublist.map Prod.fst), by simp, ?_⟩
      rintro id hid _ hid' rfl
      simp only [List.mem_map, List.mem_filter, List.mem_singleton] at hid hid'
      obtain ⟨entry, ⟨-, hne⟩, rfl⟩ := hid
      simp [hid'] at hne
  · rw [List.filterMap_append]
    refine List.nodup_append.mpr ⟨h.distinct, by simp [Event.launchedID], ?_⟩
    rintro id hid _ hid' rfl
    simp only [List.mem_filterMap] at hid
    obtain ⟨ev, hev, hid⟩ := hid
    simp only [Event.launchedID, List.filterMap_cons, List.filterMap_nil, List.mem_singleton] at hid'
    cases ev with
    | launchWorker id' ok' =>
      simp only [Event.launchedID, Option.some.injEq] at hid
      rw [hid, hid'] at hev
      exact h.workerID_notMem hev
    | stopWorker => simp [Event.launchedID] at hid
  · intro id ok' hmem
    rw [hseq]
    obtain hmem | hmem := List.mem_append.mp hmem
    · obtain ⟨n, hn, hid⟩ := h.numbered id ok' hmem
      exact ⟨n, by omega, hid⟩
    · simp only [List.mem_singleton, Event.launchWorker.injEq] at hmem
      exact ⟨a.seq + 1, le_refl _, hmem.1⟩
  · intro entry hentry
    obtain hmem | ⟨rfl, rfl⟩ := hmanaged entry hentry
    · obtain ⟨hlaunch, hstop⟩ := h.managed entry hmem
      exact ⟨by simp [hlaunch], fun idle => by simpa using hstop idle⟩
    · refine ⟨by simp, fun idle hmem => ?_⟩
      simp only [List.mem_append, List.mem_singleton, reduceCtorEq, or_false] at hmem
      obtain ⟨pre, post, heq⟩ := List.append_of_mem hmem
      have hnot : .launchWorker (workerID ps.pid (a.seq + 1)) true ∉ es := h.workerID_notMem
      refine hnot ?_
      rw [heq]
      exact List.mem_append_left _ (h.sound pre post _ idle true heq).1
  · intro entry hentry hreg
    obtain hmem | ⟨-, rfl⟩ := hmanaged entry hentry
    · exact h.unregistered entry hmem hreg
    · rfl
  · intro entry hentry since hsince
    obtain hmem | ⟨-, rfl⟩ := hmanaged entry hentry
    · exact h.idle entry hmem since hsince
    · cases hsince
  · exact h.sound.snoc (by simp)

theorem Owned.stop (h : Owned ps xs es a) {entry : String × ManagedWorker} (hentry : entry ∈ a.managed)
    (ok : Bool) :
    Owned ps xs (es ++ [Event.stopWorker entry.1 true ok])
      (if ok then { a with managed := a.managed.filter fun e => e.1 != entry.1 } else a) := by
  obtain ⟨hlaunch, hstop⟩ := h.managed entry hentry
  have hmanaged : ∀ e ∈ (if ok then { a with managed := a.managed.filter fun e => e.1 != entry.1 }
      else a).managed, e ∈ a.managed ∧ (ok = true → e.1 ≠ entry.1) := by
    intro e he
    cases ok with
    | false => exact ⟨he, by simp⟩
    | true => simpa using he
  have hseq : (if ok then { a with managed := a.managed.filter fun e => e.1 != entry.1 }
      else a).seq = a.seq := by cases ok <;> rfl
  refine ⟨?_, ?_, ?_, ?_, ?_, ?_, ?_⟩
  · cases ok with
    | false => exact h.keys
    | true => exact h.keys.sublist (List.filter_sublist.map Prod.fst)
  · simpa [Event.launchedID, List.filterMap_cons] using h.distinct
  · intro id ok' hmem
    rw [hseq]
    exact h.numbered id ok' (by simpa using hmem)
  · intro e he
    obtain ⟨hmem, hne⟩ := hmanaged e he
    obtain ⟨hlaunch', hstop'⟩ := h.managed e hmem
    refine ⟨by simp [hlaunch'], fun idle hs => ?_⟩
    simp only [List.mem_append, List.mem_singleton, Event.stopWorker.injEq] at hs
    obtain hs | ⟨hid, -, hok⟩ := hs
    · exact hstop' idle hs
    · exact hne hok.symm hid
  · intro e he
    exact h.unregistered e (hmanaged e he).1
  · intro e he
    exact h.idle e (hmanaged e he).1
  · refine h.sound.snoc fun id idle ok' hev => ?_
    simp only [Event.stopWorker.injEq] at hev
    rw [← hev.1]
    exact ⟨hlaunch, hstop⟩

def Eligible (cfg : AutoscalerConfig) (now : Nat) (entries : List (String × ManagedWorker))
    (best : String × Nat) : Prop :=
  ∃ m, (best.1, m) ∈ entries ∧ m.idleSince = some best.2 ∧ cfg.idleTimeout ≤ (now : Int) - best.2

theorem longerIdle_eligible {cfg : AutoscalerConfig} {now : Nat}
    {entries : List (String × ManagedWorker)} {best : Option (String × Nat)}
    {entry : String × ManagedWorker} (hentry : entry ∈ entries)
    (h : ∀ b ∈ best, Eligible cfg now entries b) :
    ∀ b ∈ longerIdle cfg now best entry, Eligible cfg now entries b := by
  unfold longerIdle
  split
  · rename_i since _ hsince
    split
    · exact h
    · rename_i hlong
      have hnew : Eligible cfg now entries (entry.1, since) := ⟨entry.2, hentry, hsince, by omega⟩
      split
      · simpa using hnew
      · split
        · simpa using hnew
        · exact h
  · exact h

theorem pickIdle_eligible {cfg : AutoscalerConfig} {now : Nat}
    {entries : List (String × ManagedWorker)} (h : pickIdle cfg now entries = some id) :
    ∃ since, Eligible cfg now entries (id, since) := by
  have hfold : ∀ (rest : List (String × ManagedWorker)) (best : Option (String × Nat)), rest ⊆ entries →
      (∀ b ∈ best, Eligible cfg now entries b) →
      ∀ b ∈ rest.foldl (longerIdle cfg now) best, Eligible cfg now entries b := by
    intro rest
    induction rest with
    | nil => exact fun _ _ h => h
    | cons entry rest ih =>
      intro best hsub hbest
      rw [List.cons_subset] at hsub
      exact ih _ hsub.2 (longerIdle_eligible hsub.1 hbest)
  simp only [pickIdle, Option.map_eq_some_iff, Prod.exists] at h
  obtain ⟨_, since, hbest, rfl⟩ := h
  exact ⟨since, hfold entries none (fun _ h => h) (by simp) _ hbest⟩

theorem mem_of_lookup {m : ManagedWorker} {managed : List (String × ManagedWorker)}
    (h : managed.lookup id = some m) : (id, m) ∈ managed := by
  obtain ⟨l₁, l₂, rfl, -⟩ := List.lookup_eq_some_iff.mp h
  simp

theorem mem_of_range {order : List String} {entries : List (String × ManagedWorker)}
    {entry : String × ManagedWorker} (h : a.range order = some entries) (hentry : entry ∈ entries) :
    entry ∈ a.managed := by
  simp only [range, Option.ite_none_right_eq_some, Option.some.injEq] at h
  rw [← h.2, List.mem_filterMap] at hentry
  obtain ⟨id, -, hid⟩ := hentry
  obtain ⟨m, hm, rfl⟩ := Option.map_eq_some_iff.mp hid
  exact mem_of_lookup hm

theorem decision_stop {cfg : AutoscalerConfig} {now : Nat} {byID : List (String × WorkerMetrics)}
    {queue : Int} {entries : List (String × ManagedWorker)}
    (h : decision cfg now byID a queue entries = .stop id) :
    queue = 0 ∧ pickIdle cfg now entries = some id := by
  unfold decision at h
  split at h
  · cases h
  · split at h
    · cases h
    · split at h
      · rename_i hidle
        split at h
        · rename_i hpick
          simp only [Decision.stop.injEq] at h
          exact ⟨hidle.1, h ▸ hpick⟩
        · cases h
      · cases h

theorem Owned.of_stop (h : Owned ps xs es a) {entries : List (String × ManagedWorker)}
    (hrange : a.range x.order = some entries)
    (hd : decision ps.cfg.new x.now x.byID a x.queue entries = .stop id) :
    x.queue = 0 ∧ ∃ m since, (id, m) ∈ a.managed ∧ IdleSince xs id since ∧
      ps.cfg.idleTimeout ≤ (x.now : Int) - since := by
  obtain ⟨hqueue, hpick⟩ := decision_stop hd
  obtain ⟨since, m, hmem, hsince, hlong⟩ := pickIdle_eligible hpick
  have hm := mem_of_range hrange hmem
  exact ⟨hqueue, m, since, hm, h.idle _ hm since hsince, hlong⟩

theorem Owned.tick (h : Owned ps xs es a) (hst : tick ps a x = some (b, e)) :
    Owned ps (xs ++ [x]) (es ++ e) b := by
  obtain ⟨e', hticks, rfl⟩ := ticks_of_tick hst
  have hrec := h.reconcile ps.cfg.new x
  rw [← List.append_assoc]
  cases hticks with
  | launch => exact hrec.launch x.now x.ok
  | stop hrange hd =>
    obtain ⟨-, m, since, hmem, -, -⟩ := hrec.of_stop hrange hd
    exact hrec.stop hmem x.ok
  | nothing =>
    rw [List.append_nil]
    exact hrec

theorem owned_of_run (h : (policy ps).Run Lib.Machine.Always {} xs es a) : Owned ps xs es a := by
  induction h with
  | refl => exact .init
  | tail _ _ hst ih => exact ih.tick hst

/-- Along every run of ticks: the ids that are launched are all different; a worker is stopped only
after it was launched, and not again once that has succeeded; and the idle branch stops a worker only
with nothing queued and after every tick for the length of the timeout has seen it idle. -/
theorem stopWorker_launched_idle {ps : Params} {xs : List Observation} {x : Observation}
    {es e : List Event} {a b : Autoscaler} (hrun : (policy ps).Run Lib.Machine.Always {} xs es a)
    (hst : (policy ps).step a x = some (b, e))
    (htimes : ((xs ++ [x]).map Observation.now).Pairwise (· ≤ ·)) :
    ((es ++ e).filterMap Event.launchedID).Nodup ∧
    (∀ pre post id idle ok, es ++ e = pre ++ .stopWorker id idle ok :: post →
      .launchWorker id true ∈ pre ∧ ∀ idle', .stopWorker id idle' true ∉ pre) ∧
    ∀ id ok, .stopWorker id true ok ∈ e → x.queue = 0 ∧ ∃ ys y zs, xs ++ [x] = ys ++ y :: zs ∧
      y.now ≤ x.now ∧ ps.cfg.idleTimeout ≤ (x.now : Int) - y.now ∧ ∀ z ∈ y :: zs, z.showsIdle id := by
  have howned := owned_of_run hrun
  have htick := howned.tick hst
  refine ⟨htick.distinct, htick.sound, fun id ok hmem => ?_⟩
  obtain ⟨e', hticks, rfl⟩ := ticks_of_tick hst
  obtain hmem | hmem := List.mem_append.mp hmem
  · simp [stopWorker_mem_stops] at hmem
  · cases hticks with
    | launch => simp at hmem
    | stop hrange hd =>
      simp only [List.mem_singleton, Event.stopWorker.injEq] at hmem
      obtain ⟨rfl, -, -⟩ := hmem
      obtain ⟨hqueue, m, since, -, ⟨ys, y, zs, heq, rfl, hidle⟩, hlong⟩ :=
        (howned.reconcile ps.cfg.new x).of_stop hrange hd
      refine ⟨hqueue, ys, y, zs, heq, ?_, hlong, hidle⟩
      -- the tick at hand is the last one, so no earlier one has a later time
      have hy : y ∈ xs ++ [x] := by simp [heq]
      obtain hy | hy := List.mem_append.mp hy
      · rw [List.map_append, List.pairwise_append] at htimes
        exact htimes.2.2 y.now (List.mem_map_of_mem hy) x.now (by simp)
      · rw [List.mem_singleton.mp hy]
    | nothing => simp at hmem

def sampleScaler : Params where
  cfg := { min := 0, max := 2, queueThreshold := 1, idleTimeout := 3, cooldown := 0
           registerTimeout := 100 }
  pid := 1
  timeout := 6

def sampleSeen (now : Nat) : Observation where
  now := now
  byID := [("autoscale-1-1", { alive := true, activeTasks := 0, capacity := 1 })]
  queue := 0
  order := ["autoscale-1-1"]
  failing := []
  ok := true

def sampleSeens : List Observation :=
  [{ now := 0, byID := [], queue := 1, order := [], failing := [], ok := true }, sampleSeen 1, sampleSeen 2]

def sampleWaiting : Autoscaler × List Event :=
  ((policy sampleScaler).exec (fun _ _ => true) {} sampleSeens).get (by decide)

def sampleStopped : Autoscaler × List Event :=
  ((policy sampleScaler).step sampleWaiting.1 (sampleSeen 5)).get (by decide)

theorem stopWorker_launched_idle_sample :
    .stopWorker "autoscale-1-1" true true ∈ sampleStopped.2 ∧
      .launchWorker "autoscale-1-1" true ∈ sampleWaiting.2 ∧
      ∃ ys y zs, sampleSeens ++ [sampleSeen 5] = ys ++ y :: zs ∧ 3 ≤ (5 : Int) - y.now ∧
        ∀ z ∈ y :: zs, z.showsIdle "autoscale-1-1" := by
  have hrun : (policy sampleScaler).Run Lib.Machine.Always {} sampleSeens sampleWaiting.2
      sampleWaiting.1 :=
    (Lib.Machine.run_of_exec_get (by decide)).mono fun _ _ _ => trivial
  obtain ⟨-, hlaunched, hidle⟩ :=
    stopWorker_launched_idle (x := sampleSeen 5) (e := sampleStopped.2) (b := sampleStopped.1) hrun rfl
      (by decide)
  have hmem : .stopWorker "autoscale-1-1" true true ∈ sampleStopped.2 := by decide
  have hevents : sampleStopped.2 = [.stopWorker "autoscale-1-1" true true] := by decide
  obtain ⟨-, ys, y, zs, heq, -, hlong, hall⟩ := hidle _ _ hmem
  exact ⟨hmem, (hlaunched sampleWaiting.2 [] _ true true (by rw [hevents])).1, ys, y, zs, heq, hlong, hall⟩

/-- The ticks of the autoscaler beside its pool are ticks of the policy: `es` are its calls so far. -/
def Follows (ps : Params) (es : List Event) (s : State) : Prop :=
  ∃ xs fs a, (policy ps).Run Lib.Machine.Always {} xs fs a ∧
    match s.tick with
    | .waiting | .reconcile _ _ => a = s.scaler ∧ fs = es
    | .decide now byID => ∃ failing, (reconcile ps.cfg.new now byID a).1 = s.scaler ∧
        es = fs ++ stops (reconcile ps.cfg.new now byID a).2 failing

theorem act_scaler (ps : Params) (s : State) (now : Nat) (ok : Bool) (d : Decision) :
    (act ps { scaler := s.scaler } now ok d).1.scaler = (act ps s now ok d).1.scaler ∧
      (act ps { scaler := s.scaler } now ok d).2 = (act ps s now ok d).2 := by
  cases d with
  | stop id => cases ok <;> exact ⟨rfl, rfl⟩
  | _ => exact ⟨rfl, rfl⟩

theorem follows_of_step {s t : State} {c : Action} (h : Follows ps es s)
    (hst : step ps s c = some (t, e)) : Follows ps (es ++ e) t := by
  obtain ⟨xs, fs, a, hrun, htick⟩ := h
  cases steps_of_step hst with
  | tick hwait =>
    rw [hwait] at htick
    exact ⟨xs, fs, a, hrun, by simpa using htick⟩
  | @reconcile now byID failing scaler gone hnow hrec =>
    rw [hnow] at htick
    obtain ⟨rfl, rfl⟩ := htick
    exact ⟨xs, fs, s.scaler, hrun, failing, by rw [hrec], by rw [hrec]; rfl⟩
  | @decide now byID queue order entries ok _ _ hnow hrange hact =>
    rw [hnow] at htick
    obtain ⟨failing, hscaler, rfl⟩ := htick
    obtain ⟨hs, he⟩ := act_scaler ps s now ok
      (decision ps.cfg.new now byID s.scaler queue entries)
    rw [hact] at hs he
    have htick : tick ps a ⟨now, byID, queue, order, failing, ok⟩ =
        some (t.scaler, stops (reconcile ps.cfg.new now byID a).2 failing ++ e) := by
      simp only [tick, hscaler, hrange, Option.map_some, hs, he]
    refine ⟨_, _, _, hrun.tail trivial htick, ?_⟩
    simp [tick_of_act hact]
  | _ =>
    rw [List.append_nil]
    exact ⟨xs, fs, a, hrun, htick⟩

theorem follows_of_run {ok : State → Action → Prop} {s : State} {as : List Action}
    (h : (machine ps).Run ok {} as es s) : Follows ps es s :=
  h.invariant_trace ⟨[], [], {}, .refl, rfl, rfl⟩ fun _ _ _ _ _ hs _ hst => follows_of_step hs hst

theorem keys_nodup_of_run {ok : State → Action → Prop} {s : State} {as : List Action}
    (h : (machine ps).Run ok {} as es s) : (s.scaler.managed.map Prod.fst).Nodup := by
  obtain ⟨xs, fs, a, hrun, htick⟩ := follows_of_run h
  have hkeys := (owned_of_run hrun).keys
  cases hs : s.tick with
  | decide now byID =>
    rw [hs] at htick
    obtain ⟨failing, hscaler, -⟩ := htick
    rw [← hscaler]
    exact hkeys.sublist reconcile_keys
  | _ =>
    rw [hs] at htick
    rwa [← htick.1]

end Autoscaler

end Minimodal
