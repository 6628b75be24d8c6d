import Minimodal.Store.Record

namespace Minimodal

/-- bbolt refuses the empty key and keys above `MaxKeySize`. -/
def validKey (k : String) : Bool := 0 < k.utf8ByteSize && k.utf8ByteSize ≤ 32768

theorem ne_empty_of_validKey {k : String} (h : validKey k = true) : k ≠ "" := by
  rintro rfl
  exact absurd h (by decide)

abbrev Bucket (ν : Type) := Lib.Bucket String validKey ν

namespace Bucket

def keyError (k : String) : Err := .errorf (if k = "" then "key required" else "key too large")

def tryPut {ν : Type} (b : Bucket ν) (k : String) (v : ν) : Except Err (Bucket ν) :=
  match b.put k v with
  | some b' => .ok b'
  | none => .error (keyError k)

theorem tryPut_ok {ν : Type} (b : Bucket ν) {k : String} (v : ν) (h : validKey k = true) :
    Bucket.tryPut b k v = .ok (b.insert k v h) := by
  simp [tryPut, Lib.Bucket.put, h]

theorem tryPut_error {ν : Type} (b : Bucket ν) {k : String} (v : ν) (h : validKey k = false) :
    Bucket.tryPut b k v = .error (keyError k) := by
  simp [tryPut, Lib.Bucket.put, h]

end Bucket

/-- The decoded contents of the database file. A failed `Update` rolls back, so
each operation below returns the store it leaves together with its result. -/
structure BoltStore where
  jobs : Bucket JobRecord
  idempotency : Bucket String

namespace BoltStore

def empty : BoltStore := ⟨.empty, .empty⟩

def getJob (s : BoltStore) (id : String) : Option JobRecord := s.jobs.get id

def errNotFound (jobID : String) : Err := .errorf ("job " ++ jobID ++ " not found")

def putTx (s : BoltStore) (rec : JobRecord) : BoltStore × Except Err Unit :=
  match Bucket.tryPut s.jobs rec.id rec with
  | .error e => (s, .error e)
  | .ok jobs => ({ s with jobs }, .ok ())

def putJob (s : BoltStore) (rec : JobRecord) (now : Nat) : BoltStore × Except Err Unit :=
  s.putTx (rec.stamp now)

/-- Written verbatim: the command was stamped by the leader. -/
def putJobRaw (s : BoltStore) (rec : JobRecord) : BoltStore × Except Err Unit := s.putTx rec

/-- `Transition`, with the locals its closure captures passed as a state `σ`. -/
def transitionWith {σ : Type} (s : BoltStore) (jobID : String)
    (mutate : σ → JobRecord → σ × Except Err JobRecord) (c : σ) (now : Nat) :
    BoltStore × σ × Except Err Bool :=
  match s.jobs.get jobID with
  | none => (s, c, .error (errNotFound jobID))
  | some rec =>
    match mutate c rec with
    | (c, .error .errSkipTransition) => (s, c, .ok false)
    | (c, .error e) => (s, c, .error e)
    | (c, .ok rec) =>
      match Bucket.tryPut s.jobs jobID (rec.stamp now) with
      | .error e => (s, c, .error e)
      | .ok jobs => ({ s with jobs }, c, .ok true)

def transition (s : BoltStore) (jobID : String) (mutate : JobRecord → Except Err JobRecord)
    (now : Nat) : BoltStore × Except Err Bool :=
  let r := s.transitionWith jobID (fun c rec => (c, mutate rec)) () now
  (r.1, r.2.2)

def listWhere (s : BoltStore) (p : JobRecord → Bool) : List JobRecord :=
  (s.jobs.forEach.map (·.2)).filter p

def listUnfinished (s : BoltStore) : List JobRecord := s.listWhere JobRecord.unfinished

def listRunningOnWorker (s : BoltStore) (workerID : String) : List JobRecord :=
  s.listWhere fun rec => rec.status = .running && rec.workerID = workerID

/-- The check-and-set transaction that the two submit paths share. -/
def submitTx (s : BoltStore) (rec : JobRecord) (key : String) :
    BoltStore × Except Err (String × Bool) :=
  match if key = "" then none else s.idempotency.get key with
  | some existing => (s, .ok (existing, false))
  | none =>
    match Bucket.tryPut s.jobs rec.id rec with
    | .error e => (s, .error e)
    | .ok jobs =>
      if key = "" then ({ s with jobs }, .ok (rec.id, true))
      else
        match Bucket.tryPut s.idempotency key rec.id with
        | .error e => (s, .error e)
        | .ok idempotency => ({ jobs, idempotency }, .ok (rec.id, true))

def submitWithIdempotency (s : BoltStore) (rec : JobRecord) (key : String) (now : Nat) :
    BoltStore × Except Err (String × Bool) :=
  s.submitTx ({ rec with idempotencyKey := key }.stamp now) key

def submitRaw (s : BoltStore) (rec : JobRecord) (key : String) :
    BoltStore × Except Err (String × Bool) :=
  s.submitTx rec key

/-- The result `.ok true` is a conflict: another command won the race. -/
def casPut (s : BoltStore) (jobID : String) (expectedVersion : Int) (rec : JobRecord) :
    BoltStore × Except Err Bool :=
  match s.jobs.get jobID with
  | none => (s, .error (errNotFound jobID))
  | some cur =>
    if cur.version ≠ expectedVersion then (s, .ok true)
    else
      match Bucket.tryPut s.jobs jobID rec with
      | .error e => (s, .error e)
      | .ok jobs => ({ s with jobs }, .ok false)

def exportState (s : BoltStore) : List JobRecord × List (String × String) :=
  (s.jobs.forEach.map (·.2), s.idempotency.forEach)

def putAll {ν : Type} (b : Bucket ν) : List (String × ν) → Except Err (Bucket ν)
  | [] => .ok b
  | (k, v) :: rest =>
    match Bucket.tryPut b k v with
    | .error e => .error e
    | .ok b => putAll b rest

def importState (s : BoltStore) (jobs : List JobRecord) (idem : List (String × String)) :
    BoltStore × Except Err Unit :=
  match putAll .empty (jobs.map fun rec => (rec.id, rec)) with
  | .error e => (s, .error e)
  | .ok jobs =>
    match putAll .empty idem with
    | .error e => (s, .error e)
    | .ok idempotency => ({ jobs, idempotency }, .ok ())

theorem ext_get {a b : BoltStore} (hj : ∀ k, a.jobs.get k = b.jobs.get k)
    (hi : ∀ k, a.idempotency.get k = b.idempotency.get k) : a = b := by
  cases a
  cases b
  simp only [mk.injEq]
  exact ⟨Lib.Bucket.ext_get hj, Lib.Bucket.ext_get hi⟩

theorem transitionWith_cases {σ : Type} (s : BoltStore) (jobID : String)
    (mutate : σ → JobRecord → σ × Except Err JobRecord) (c : σ) (now : Nat) :
    ((s.transitionWith jobID mutate c now).1 = s ∧
      (s.transitionWith jobID mutate c now).2.2 ≠ .ok true) ∨
    ∃ rec rec' c', ∃ h : validKey jobID = true, s.jobs.get jobID = some rec ∧
      mutate c rec = (c', .ok rec') ∧
      s.transitionWith jobID mutate c now =
        ({ s with jobs := s.jobs.insert jobID (rec'.stamp now) h }, c', .ok true) := by
  unfold transitionWith
  cases hget : s.jobs.get jobID with
  | none => exact .inl ⟨rfl, by simp⟩
  | some rec =>
    have hkey := Lib.Bucket.admitted_of_get hget
    rcases hm : mutate c rec with ⟨c', res⟩
    cases res with
    | error e => cases e <;> simp [hm]
    | ok rec' =>
      refine .inr ⟨rec, rec', c', hkey, rfl, hm, ?_⟩
      simp [hm, Bucket.tryPut_ok _ _ hkey]

theorem transition_cases (s : BoltStore) (jobID : String)
    (mutate : JobRecord → Except Err JobRecord) (now : Nat) :
    ((s.transition jobID mutate now).1 = s ∧ (s.transition jobID mutate now).2 ≠ .ok true) ∨
    ∃ rec rec', ∃ h : validKey jobID = true, s.jobs.get jobID = some rec ∧
      mutate rec = .ok rec' ∧
      s.transition jobID mutate now =
        ({ s with jobs := s.jobs.insert jobID (rec'.stamp now) h }, .ok true) := by
  rcases s.transitionWith_cases jobID (fun c rec => (c, mutate rec)) () now with
    h | ⟨rec, rec', c', hkey, hget, hm, heq⟩
  · exact .inl h
  · simp only [Prod.mk.injEq] at hm
    exact .inr ⟨rec, rec', hkey, hget, hm.2, by simp [transition, heq]⟩

theorem submitTx_cases (s : BoltStore) (rec : JobRecord) (key : String) :
    (∃ existing, key ≠ "" ∧ s.idempotency.get key = some existing ∧
      s.submitTx rec key = (s, .ok (existing, false))) ∨
    (∃ e, s.submitTx rec key = (s, .error e)) ∨
    ∃ hv : validKey rec.id = true,
      (key = "" ∧ s.submitTx rec key =
        ({ s with jobs := s.jobs.insert rec.id rec hv }, .ok (rec.id, true))) ∨
      ∃ hk : validKey key = true, s.idempotency.get key = none ∧
        s.submitTx rec key =
          (⟨s.jobs.insert rec.id rec hv, s.idempotency.insert key rec.id hk⟩,
            .ok (rec.id, true)) := by
  by_cases hv : validKey rec.id = true
  · by_cases hk : key = ""
    · exact .inr (.inr ⟨hv, .inl ⟨hk, by simp [submitTx, hk, Bucket.tryPut_ok _ _ hv]⟩⟩)
    · cases hidx : s.idempotency.get key with
      | some existing => exact .inl ⟨existing, hk, rfl, by simp [submitTx, hk, hidx]⟩
      | none =>
        by_cases hvk : validKey key = true
        · exact .inr (.inr ⟨hv, .inr ⟨hvk, rfl, by
            simp [submitTx, hk, hidx, Bucket.tryPut_ok _ _ hv, Bucket.tryPut_ok _ _ hvk]⟩⟩)
        · have he := Bucket.tryPut_error s.idempotency rec.id (Bool.not_eq_true _ ▸ hvk)
          exact .inr (.inl ⟨Bucket.keyError key, by
            simp [submitTx, hk, hidx, Bucket.tryPut_ok _ _ hv, he]⟩)
  · have he := Bucket.tryPut_error s.jobs rec (Bool.not_eq_true _ ▸ hv)
    by_cases hk : key = ""
    · exact .inr (.inl ⟨Bucket.keyError rec.id, by simp [submitTx, hk, he]⟩)
    · cases hidx : s.idempotency.get key with
      | some existing => exact .inl ⟨existing, hk, rfl, by simp [submitTx, hk, hidx]⟩
      | none => exact .inr (.inl ⟨Bucket.keyError rec.id, by simp [submitTx, hk, hidx, he]⟩)

theorem submitTx_existing {s : BoltStore} {r : JobRecord} {key id : String}
    (h : (s.submitTx r key).2 = .ok (id, false)) : (s.submitTx r key).1 = s := by
  rcases s.submitTx_cases r key with ⟨_, _, _, he⟩ | ⟨_, he⟩ | ⟨hv, ⟨_, he⟩ | ⟨hk', _, he⟩⟩
  · rw [he]
  · rw [he]
  · simp [he] at h
  · simp [he] at h

theorem submitTx_created {s s' : BoltStore} {rec : JobRecord} {key id : String}
    (h : s.submitTx rec key = (s', .ok (id, true))) :
    id = rec.id ∧ s'.jobs.get rec.id = some rec := by
  rcases s.submitTx_cases rec key with
    ⟨existing, -, -, heq⟩ | ⟨e, heq⟩ | ⟨hv, ⟨-, heq⟩ | ⟨hk, -, heq⟩⟩
  all_goals rw [heq, Prod.mk.injEq] at h
  · simp at h
  · simp at h
  · obtain ⟨rfl, hid⟩ := h
    simp only [Except.ok.injEq, Prod.mk.injEq, and_true] at hid
    exact ⟨hid.symm, Lib.Bucket.get_insert_self _ _ _ hv⟩
  · obtain ⟨rfl, hid⟩ := h
    simp only [Except.ok.injEq, Prod.mk.injEq, and_true] at hid
    exact ⟨hid.symm, Lib.Bucket.get_insert_self _ _ _ hv⟩

theorem submitTx_error {s s' : BoltStore} {rec : JobRecord} {key : String} {e : Err}
    (h : s.submitTx rec key = (s', .error e)) : s' = s := by
  rcases s.submitTx_cases rec key with
    ⟨existing, -, -, heq⟩ | ⟨e', heq⟩ | ⟨hv, ⟨-, heq⟩ | ⟨hk, -, heq⟩⟩
  all_goals
    rw [heq, Prod.mk.injEq] at h
    simp_all

@[simp] theorem empty_jobs (k : String) : empty.jobs.get k = none := by
  simp [empty]

@[simp] theorem empty_idempotency (k : String) : empty.idempotency.get k = none := by
  simp [empty]

end BoltStore

end Minimodal
