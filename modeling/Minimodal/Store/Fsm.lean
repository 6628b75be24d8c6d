import Minimodal.Store.Bolt

namespace Minimodal

inductive FsmOp
  | put
  | cas
  | submit
  | unknown (op : String)
  deriving DecidableEq, Repr

structure FsmCommand where
  op : FsmOp
  record : JobRecord
  expectedVersion : Int := 0
  idempotencyKey : String := ""
  deriving DecidableEq, Repr

structure FsmResponse where
  conflict : Bool := false
  jobID : String := ""
  created : Bool := false
  err : Option Err := none
  deriving DecidableEq, Repr

namespace JobFSM

def apply (s : BoltStore) (cmd : FsmCommand) : BoltStore × FsmResponse :=
  match cmd.op with
  | .put =>
    match s.putJobRaw cmd.record with
    | (s, .ok ()) => (s, {})
    | (s, .error e) => (s, { err := some e })
  | .cas =>
    match s.casPut cmd.record.id cmd.expectedVersion cmd.record with
    | (s, .ok conflict) => (s, { conflict })
    | (s, .error e) => (s, { err := some e })
  | .submit =>
    match s.submitRaw cmd.record cmd.idempotencyKey with
    | (s, .ok (jobID, created)) => (s, { jobID, created })
    | (s, .error e) => (s, { err := some e })
  | .unknown op => (s, { err := some (.errorf ("unknown fsm op \"" ++ op ++ "\"")) })

structure Snapshot where
  jobs : List JobRecord
  idem : List (String × String)
  deriving DecidableEq, Repr

def snapshot (s : BoltStore) : Snapshot :=
  let (jobs, idem) := s.exportState
  { jobs, idem }

def restore (s : BoltStore) (snap : Snapshot) : BoltStore × Except Err Unit :=
  s.importState snap.jobs snap.idem

def applyAll (s : BoltStore) (log : List FsmCommand) : BoltStore :=
  log.foldl (fun s cmd => (apply s cmd).1) s

@[simp] theorem applyAll_nil (s : BoltStore) : applyAll s [] = s := rfl

@[simp] theorem applyAll_append (s : BoltStore) (xs ys : List FsmCommand) :
    applyAll s (xs ++ ys) = applyAll (applyAll s xs) ys := by
  simp [applyAll]

@[simp] theorem applyAll_singleton (s : BoltStore) (cmd : FsmCommand) :
    applyAll s [cmd] = (apply s cmd).1 := rfl

/-- Every command that takes effect stores its own record under its own id; this
is the condition under which it does. -/
def writes (s : BoltStore) (cmd : FsmCommand) : Bool :=
  match cmd.op with
  | .put => validKey cmd.record.id
  | .cas =>
    match s.jobs.get cmd.record.id with
    | none => false
    | some cur => cur.version = cmd.expectedVersion
  | .submit =>
    validKey cmd.record.id &&
      (cmd.idempotencyKey = "" ||
        (s.idempotency.get cmd.idempotencyKey).isNone && validKey cmd.idempotencyKey)
  | .unknown _ => false

theorem validKey_of_writes {s : BoltStore} {cmd : FsmCommand} (h : writes s cmd = true) :
    validKey cmd.record.id = true := by
  cases hop : cmd.op with
  | put => simpa [writes, hop] using h
  | cas =>
    cases hget : s.jobs.get cmd.record.id with
    | none => simp [writes, hop, hget] at h
    | some cur => exact Lib.Bucket.admitted_of_get hget
  | submit =>
    simp only [writes, hop, Bool.and_eq_true] at h
    exact h.1
  | unknown => simp [writes, hop] at h

theorem apply_store (s : BoltStore) (cmd : FsmCommand) :
    (apply s cmd).1 =
      if h : writes s cmd = true then
        { jobs := s.jobs.insert cmd.record.id cmd.record (validKey_of_writes h)
          idempotency :=
            if hk : cmd.op = .submit ∧ validKey cmd.idempotencyKey = true then
              s.idempotency.insert cmd.idempotencyKey cmd.record.id hk.2
            else s.idempotency }
      else s := by
  cases hop : cmd.op with
  | put =>
    by_cases hv : validKey cmd.record.id = true
    · simp [apply, hop, BoltStore.putJobRaw, BoltStore.putTx, Bucket.tryPut_ok _ _ hv, writes, hv]
    · simp only [Bool.not_eq_true] at hv
      have he := Bucket.tryPut_error s.jobs cmd.record hv
      simp [apply, hop, BoltStore.putJobRaw, BoltStore.putTx, he, writes, hv]
  | cas =>
    cases hget : s.jobs.get cmd.record.id with
    | none => simp [apply, hop, BoltStore.casPut, hget, writes]
    | some cur =>
      have hv := Lib.Bucket.admitted_of_get hget
      by_cases hver : cur.version = cmd.expectedVersion
      · simp [apply, hop, BoltStore.casPut, hget, writes, hver, Bucket.tryPut_ok _ _ hv]
      · simp [apply, hop, BoltStore.casPut, hget, writes, hver]
  | submit =>
    by_cases hk : cmd.idempotencyKey = ""
    · by_cases hv : validKey cmd.record.id = true
      · have hempty : ¬ validKey "" = true := by decide
        simp [apply, hop, BoltStore.submitRaw, BoltStore.submitTx, writes, hk, hv, hempty,
          Bucket.tryPut_ok _ _ hv]
      · simp only [Bool.not_eq_true] at hv
        have he := Bucket.tryPut_error s.jobs cmd.record hv
        simp [apply, hop, BoltStore.submitRaw, BoltStore.submitTx, writes, hk, hv, he]
    · cases hidx : s.idempotency.get cmd.idempotencyKey with
      | some existing =>
        simp [apply, hop, BoltStore.submitRaw, BoltStore.submitTx, writes, hk, hidx]
      | none =>
        by_cases hv : validKey cmd.record.id = true
        · by_cases hvk : validKey cmd.idempotencyKey = true
          · simp [apply, hop, BoltStore.submitRaw, BoltStore.submitTx, writes, hk, hv, hvk, hidx,
              Bucket.tryPut_ok _ _ hv, Bucket.tryPut_ok _ _ hvk]
          · simp only [Bool.not_eq_true] at hvk
            have he := Bucket.tryPut_error s.idempotency cmd.record.id hvk
            simp [apply, hop, BoltStore.submitRaw, BoltStore.submitTx, writes, hk, hv, hvk, hidx,
              Bucket.tryPut_ok _ _ hv, he]
        · simp only [Bool.not_eq_true] at hv
          have he := Bucket.tryPut_error s.jobs cmd.record hv
          simp [apply, hop, BoltStore.submitRaw, BoltStore.submitTx, writes, hk, hv, hidx, he]
  | unknown op => simp [apply, hop, writes]

theorem apply_jobs (s : BoltStore) (cmd : FsmCommand) (k : String) :
    (apply s cmd).1.jobs.get k =
      if writes s cmd = true ∧ cmd.record.id = k then some cmd.record else s.jobs.get k := by
  rw [apply_store]
  by_cases h : writes s cmd = true
  · simp [h, Lib.Bucket.get_insert]
  · simp [h]

theorem apply_idempotency (s : BoltStore) (cmd : FsmCommand) (k : String) :
    (apply s cmd).1.idempotency.get k =
      if writes s cmd = true ∧ cmd.op = .submit ∧ cmd.idempotencyKey = k ∧ validKey k = true
      then some cmd.record.id else s.idempotency.get k := by
  rw [apply_store]
  by_cases h : writes s cmd = true
  · by_cases hk : cmd.op = .submit ∧ validKey cmd.idempotencyKey = true
    · by_cases hc : cmd.idempotencyKey = k
      · subst hc
        simp [h, hk]
      · simp [h, hk, Lib.Bucket.get_insert, hc]
    · have hno : ¬ (cmd.op = .submit ∧ cmd.idempotencyKey = k ∧ validKey k = true) := by
        rintro ⟨hop, rfl, hv⟩
        exact hk ⟨hop, hv⟩
      simp [h, hk, hno]
  · simp [h]

end JobFSM

end Minimodal
