import Minimodal.Server.Durable
import Minimodal.Store.Snapshot

namespace Minimodal

namespace BoltStore

def Pending (s : BoltStore) (j : String) : Prop :=
  ∃ r, s.jobs.get j = some r ∧ r.status = .pending

def RunningOn (s : BoltStore) (j workerID : String) : Prop :=
  ∃ r, s.jobs.get j = some r ∧ r.status = .running ∧ r.workerID = workerID

def Unfinished (s : BoltStore) (j : String) : Prop :=
  ∃ r, s.jobs.get j = some r ∧ r.terminal = false

theorem mem_listWhere {s : BoltStore} {p : JobRecord → Bool} {r : JobRecord} :
    r ∈ s.listWhere p ↔ (∃ j, s.jobs.get j = some r) ∧ p r = true := by
  simp [listWhere, Lib.Bucket.mem_forEach]

theorem Pending.unfinished {s : BoltStore} {j : String} (h : s.Pending j) : s.Unfinished j := by
  obtain ⟨r, hget, hr⟩ := h
  exact ⟨r, hget, by simp [JobRecord.terminal, hr]⟩

theorem RunningOn.unfinished {s : BoltStore} {j w : String} (h : s.RunningOn j w) :
    s.Unfinished j := by
  obtain ⟨r, hget, hr, -⟩ := h
  exact ⟨r, hget, by simp [JobRecord.terminal, hr]⟩

theorem Sound.keyedById {s : BoltStore} (hs : s.Sound) : s.KeyedById :=
  fun j r hget => (hs j r hget).keyed

theorem nodup_listWhere {s : BoltStore} (hs : s.KeyedById) (p : JobRecord → Bool) :
    ((s.listWhere p).map (·.id)).Nodup := by
  have hall : (s.jobs.forEach.map (·.2)).Pairwise (fun r q => r.id ≠ q.id) := by
    rw [List.pairwise_map]
    refine s.jobs.forEach_pairwise.imp_of_mem ?_
    rintro ⟨j, r⟩ ⟨k, q⟩ hr hq hne
    rw [hs j r (Lib.Bucket.mem_forEach.mp hr), hs k q (Lib.Bucket.mem_forEach.mp hq)]
    exact hne
  exact List.pairwise_map.mpr (hall.sublist List.filter_sublist)

theorem mem_listUnfinished {s : BoltStore} {j : String} (hs : s.KeyedById) :
    j ∈ s.listUnfinished.map (·.id) ↔ s.Unfinished j := by
  constructor
  · intro h
    obtain ⟨r, hr, rfl⟩ := List.mem_map.mp h
    obtain ⟨⟨k, hget⟩, hp⟩ := mem_listWhere.mp hr
    exact ⟨r, hs k r hget ▸ hget, r.unfinished_iff.mp hp⟩
  · rintro ⟨r, hget, hr⟩
    have hmem : r ∈ s.listUnfinished := mem_listWhere.mpr ⟨⟨j, hget⟩, r.unfinished_iff.mpr hr⟩
    exact List.mem_map.mpr ⟨r, hmem, hs j r hget⟩

theorem mem_listRunningOnWorker {s : BoltStore} {j w : String} (hs : s.KeyedById) :
    j ∈ (s.listRunningOnWorker w).map (·.id) ↔ s.RunningOn j w := by
  constructor
  · intro h
    obtain ⟨r, hr, rfl⟩ := List.mem_map.mp h
    obtain ⟨⟨k, hget⟩, hp⟩ := mem_listWhere.mp hr
    simp only [Bool.and_eq_true, decide_eq_true_eq] at hp
    exact ⟨r, hs k r hget ▸ hget, hp.1, hp.2⟩
  · rintro ⟨r, hget, hr, hw⟩
    have hmem : r ∈ s.listRunningOnWorker w := mem_listWhere.mpr ⟨⟨j, hget⟩, by simp [hr, hw]⟩
    exact List.mem_map.mpr ⟨r, hmem, hs j r hget⟩

end BoltStore

namespace Mutator

variable {m : Mutator} {c c' : Captured} {r r' : JobRecord}

def Settles : Mutator → Prop
  | .missingPayload | .markRunning _ | .dispatchFailed _ | .report _ => True
  | .revert | .reap _ | .recover => False

theorem Settles.run (hm : m.Settles) (h : m.run c r = (c', .ok r')) : r'.status ≠ .pending := by
  cases rewrites_of_run h with
  | revert | giveUp | requeue | recover | keep => exact hm.elim
  | @report req => cases hs : req.success <;> simp [reportResult, hs]
  | _ => simp

theorem skip_terminal {e : Err} (hm : ∀ k, m ≠ .reap k) (h : m.run c r = (c', .error e)) :
    r.terminal = true := by
  cases (skips_of_run h).1 with
  | terminal _ ht => exact ht
  | reap => exact (hm _ rfl).elim

theorem run_reap {k : Int} (h : (reap k).run {} r = (c, .ok r')) :
    r.status = .running ∧
      (c.markedPending = true ∧ r'.status = .pending ∨ c.markedPending = false ∧ r'.terminal = true) := by
  cases rewrites_of_run h with
  | giveUp hrun => exact ⟨hrun, .inr ⟨rfl, rfl⟩⟩
  | requeue hrun => exact ⟨hrun, .inl ⟨rfl, rfl⟩⟩

theorem run_running (h : m.run c r = (c', .ok r')) (hr : r'.status = .running) :
    m = .markRunning r'.workerID := by
  cases rewrites_of_run h with
  | markRunning => rfl
  | @report req => cases hs : req.success <;> simp [reportResult, hs] at hr
  | keep hne => exact absurd hr hne
  | _ => simp at hr

theorem skip_running {e : Err} (h : m.run c r = (c', .error e)) : r.status ≠ .running := by
  cases (skips_of_run h).1 with
  | terminal _ ht =>
    intro hr
    simp [JobRecord.terminal, hr] at ht
  | reap hne => exact hne

end Mutator

namespace Server

variable {m m' : Mem} {ch : Choice} {jobID j w : String} {mutate : Mutator} {c : Captured}
  {b : Except Err Bool}

theorem Transits.mem (h : Transits m ch jobID mutate m' c b) :
    m' = { m with store := m'.store } := by
  cases h <;> rfl

theorem Transits.get {r : JobRecord} (h : Transits m ch jobID mutate m' c b)
    (hr : m'.store.jobs.get j = some r) :
    m.store.jobs.get j = some r ∧ (j = jobID → b ≠ .ok true) ∨
      j = jobID ∧ b = .ok true ∧
        ∃ r₀ r₁, m.store.jobs.get j = some r₀ ∧ mutate.run {} r₀ = (c, .ok r₁) ∧
          r = r₁.stamp ch.now := by
  cases h with
  | @commit r₀ r₁ _ hkey hf hget hrun =>
    by_cases hj : j = jobID
    · subst hj
      rw [Lib.Bucket.get_insert_self, Option.some.injEq] at hr
      exact .inr ⟨rfl, rfl, r₀, r₁, hget, hrun, hr.symm⟩
    · rw [Lib.Bucket.get_insert_ne _ _ _ hj] at hr
      exact .inl ⟨hr, fun he => absurd he hj⟩
  | skip | error => exact .inl ⟨hr, by simp⟩

theorem Transits.settled (h : Transits m ch jobID mutate m' c b) (hm : mutate.Settles)
    (hf : ch.fault = none) (hp : m'.store.Pending j) : m.store.Pending j ∧ j ≠ jobID := by
  obtain ⟨r, hr, hst⟩ := hp
  rcases h.get hr with ⟨hold, hne⟩ | ⟨rfl, -, r₀, r₁, -, hrun, rfl⟩
  · refine ⟨⟨r, hold, hst⟩, ?_⟩
    rintro rfl
    cases h with
    | commit => exact hne rfl rfl
    | skip _ hget hrun =>
      rw [hget, Option.some.injEq] at hr
      have ht := Mutator.skip_terminal (fun k hk => by simp [hk, Mutator.Settles] at hm) hrun
      rw [hr] at ht
      simp [JobRecord.terminal, hst] at ht
    | error hbad => simp [hf, hold] at hbad
  · exact (hm.run hrun hst).elim

theorem Transits.reaped {k : Int} (h : Transits m ch jobID (.reap k) m' c b)
    (hp : m'.store.Pending j) :
    m.store.Pending j ∨ j = jobID ∧ b = .ok true ∧ c.markedPending = true := by
  obtain ⟨r, hr, hst⟩ := hp
  rcases h.get hr with ⟨hold, -⟩ | ⟨hj, hb, r₀, r₁, -, hrun, rfl⟩
  · exact .inl ⟨r, hold, hst⟩
  · rcases (Mutator.run_reap hrun).2 with ⟨hc, -⟩ | ⟨-, ht⟩
    · exact .inr ⟨hj, hb, hc⟩
    · simp only [JobRecord.stamp_status] at hst
      simp [JobRecord.terminal, hst] at ht

theorem Transits.pending (h : Transits m ch jobID mutate m' c b) (hp : m'.store.Pending j) :
    m.store.Pending j ∨ j = jobID := by
  obtain ⟨r, hr, hst⟩ := hp
  rcases h.get hr with ⟨hold, -⟩ | ⟨hj, -⟩
  · exact .inl ⟨r, hold, hst⟩
  · exact .inr hj

theorem Transits.running (h : Transits m ch jobID mutate m' c b) (hr : m'.store.RunningOn j w) :
    m.store.RunningOn j w ∨ j = jobID ∧ mutate = .markRunning w ∧ b = .ok true := by
  obtain ⟨r, hr, hst, hw⟩ := hr
  rcases h.get hr with ⟨hold, -⟩ | ⟨hj, hb, r₀, r₁, -, hrun, rfl⟩
  · exact .inl ⟨r, hold, hst, hw⟩
  · exact .inr ⟨hj, by rw [Mutator.run_running hrun hst, ← hw]; rfl, hb⟩

theorem Transits.stopped (h : Transits m ch jobID mutate m' c b)
    (hm : ∀ w, mutate ≠ .markRunning w) (hf : ch.fault = none) (hr : m'.store.RunningOn j w) :
    m.store.RunningOn j w ∧ j ≠ jobID := by
  refine ⟨(h.running hr).resolve_right fun he => hm w he.2.1, ?_⟩
  rintro rfl
  obtain ⟨r, hget, hst, -⟩ := hr
  rcases h.get hget with ⟨hold, hne⟩ | ⟨-, -, r₀, r₁, -, hrun, rfl⟩
  · cases h with
    | commit => exact hne rfl rfl
    | skip _ hget' hrun =>
      rw [hold, Option.some.injEq] at hget'
      exact Mutator.skip_running hrun (hget' ▸ hst)
    | error hbad => simp [hf, hold] at hbad
  · exact hm _ (Mutator.run_running hrun hst)

end Server

end Minimodal
