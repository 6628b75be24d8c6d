import Minimodal.Store.Replicas

namespace Minimodal

/-- Keys are functional and permanent, in the database file and on every replica.
What one submit per key reports is that its transaction created the job; a crash
may keep that answer from its caller. -/
theorem idempotency_keys_functional :
    (∀ as es s bs fs t, Clients.machine.Run Clients.Allowed Clients.init as es s →
      Clients.machine.Run Clients.Allowed s bs fs t → ∀ k, k ≠ "" →
        Clients.KeyFunctional k es s ∧
        (∀ id, s.store.idempotency.get k = some id → t.store.idempotency.get k = some id) ∧
        ∀ id id', JobFSM.Carries s.store id k → JobFSM.Carries t.store id' k → id = id') ∧
    (∀ (s : BoltStore) rec key now id,
      (s.submitWithIdempotency rec key now).2 = .ok (id, false) →
        (s.submitWithIdempotency rec key now).1 = s) ∧
    ∀ L, JobFSM.KeyedLog L → ∀ k, k ≠ "" → JobFSM.KeyFunctional k L := by
  refine ⟨?_, ?_, ?_⟩
  · intro as es s bs fs t hs ht k hk
    have hfs := Clients.keyFunctional_of_run hk hs
    have hft := Clients.keyFunctional_of_run hk (hs.trans ht)
    refine ⟨hfs, fun id hid => Clients.permanent_of_run ht hid, ?_⟩
    intro id id' hc hc'
    have h1 := Clients.permanent_of_run ht ((hfs.index id).mpr hc)
    rw [(hft.index id').mpr hc', Option.some.injEq] at h1
    exact h1.symm
  · intro s rec key now id h
    exact BoltStore.submitTx_existing h
  · intro L hL k hk
    exact JobFSM.keyFunctional hL hk

def keyedSample : List FsmCommand :=
  [{ op := .submit, record := { id := "a", status := .pending, idempotencyKey := "k", version := 1 },
     idempotencyKey := "k" },
   { op := .cas, record := { id := "a", status := .done, idempotencyKey := "k", version := 2 },
     expectedVersion := 1 },
   { op := .submit, record := { id := "b", status := .pending, idempotencyKey := "k", version := 1 },
     idempotencyKey := "k" }]

theorem keyedSample_keyedLog : JobFSM.KeyedLog keyedSample where
  fresh := by
    intro i c hi hop j d hj hd
    have hlt : i < 3 := JobFSM.succ_le_of_get hi
    interval_cases i <;> interval_cases j <;> cases hi <;> cases hd <;> revert hop <;> decide
  read := by
    intro i c hi hop
    have hlt : i < 3 := JobFSM.succ_le_of_get hi
    interval_cases i <;> cases hi
    case «1» => exact ⟨rfl, 1, le_refl 1, _, rfl, rfl⟩
    all_goals revert hop; decide
  ops := by decide
  submitKey := by decide
  casKey := by
    intro i c hi hop
    have hlt : i < 3 := JobFSM.succ_le_of_get hi
    interval_cases i <;> cases hi
    case «1» => exact ⟨1, le_refl 1, _, rfl, rfl⟩
    all_goals revert hop; decide

def sampleJob (id : String) : JobRecord := { id, status := .pending, functionBytes := [1] }

theorem idempotency_keys_functional_sample :
    (∃ as es s, Clients.machine.Run Clients.Allowed Clients.init as es s ∧
      Clients.KeyFunctional "k" es s ∧ .returned 1 "k" (.ok ("a", false)) ∈ es) ∧
    JobFSM.KeyFunctional "k" keyedSample := by
  refine ⟨?_, idempotency_keys_functional.2.2 _ keyedSample_keyedLog "k" (by decide)⟩
  have hrun : Clients.machine.Run Clients.Allowed Clients.init
      [.submit 0 (sampleJob "a") "k" 1, .reply 0, .submit 1 (sampleJob "b") "k" 2, .reply 1] _ _ :=
    .cons rfl rfl (.cons trivial rfl (.cons rfl rfl (.cons trivial rfl .refl)))
  exact ⟨_, _, _, hrun,
    (idempotency_keys_functional.1 _ _ _ _ _ _ hrun .refl "k" (by decide)).1, by decide⟩

/-- The first submit commits and is lost to a crash; the retry is told of its job. -/
theorem created_lost_to_crash :
    ∃ as es s, Clients.machine.Run Clients.Allowed Clients.init as es s ∧
      (∃ call id created, .returned call "k" (.ok (id, created)) ∈ es) ∧
      es.countP (Clients.returnsNew "k") ≠ 1 := by
  refine ⟨[.submit 0 (sampleJob "a") "k" 1, .crash, .submit 1 (sampleJob "b") "k" 2, .reply 1],
    _, _, .cons rfl rfl (.cons trivial rfl (.cons rfl rfl (.cons trivial rfl .refl))), ?_, ?_⟩
  · exact ⟨1, "a", false, by decide⟩
  · decide

end Minimodal
