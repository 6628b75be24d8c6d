import Minimodal.Server.Machine

namespace Minimodal

/-- What no transition of the server does to a record: change its identity, alter its
payload while it is unfinished, or touch it once it is terminal. -/
structure Evolves (r r' : JobRecord) : Prop where
  id : r'.id = r.id
  idempotencyKey : r'.idempotencyKey = r.idempotencyKey
  createdAt : r'.createdAt = r.createdAt
  functionName : r'.functionName = r.functionName
  frozen : r.terminal = true → { r' with updatedAt := r.updatedAt } = r
  payload : r'.terminal = false →
    r.terminal = false ∧ r'.functionBytes = r.functionBytes ∧ r'.argsBytes = r.argsBytes

theorem Evolves.refl (r : JobRecord) : Evolves r r :=
  ⟨rfl, rfl, rfl, rfl, fun _ => rfl, fun h => ⟨h, rfl, rfl⟩⟩

theorem Evolves.terminal {r r' : JobRecord} (h : Evolves r r') (ht : r.terminal = true) :
    r'.terminal = true := by
  cases hr : r'.terminal with
  | true => rfl
  | false =>
    rw [(h.payload hr).1] at ht
    exact absurd ht (by decide)

theorem Evolves.trans {r r' r'' : JobRecord} (h : Evolves r r') (h' : Evolves r' r'') :
    Evolves r r'' where
  id := h'.id.trans h.id
  idempotencyKey := h'.idempotencyKey.trans h.idempotencyKey
  createdAt := h'.createdAt.trans h.createdAt
  functionName := h'.functionName.trans h.functionName
  frozen ht := by
    have h1 := h.frozen ht
    have h2 := h'.frozen (h.terminal ht)
    calc { r'' with updatedAt := r.updatedAt }
        = { { r'' with updatedAt := r'.updatedAt } with updatedAt := r.updatedAt } := rfl
      _ = { r' with updatedAt := r.updatedAt } := by rw [h2]
      _ = r := h1
  payload ht := by
    obtain ⟨h2, hf, ha⟩ := h'.payload ht
    obtain ⟨h1, hf', ha'⟩ := h.payload h2
    exact ⟨h1, hf.trans hf', ha.trans ha'⟩

def JobRecord.Dated (r : JobRecord) : Prop := r.createdAt.isSome = true

theorem JobRecord.stamp_dated {r : JobRecord} (h : r.Dated) (now : Nat) :
    (r.stamp now).createdAt = r.createdAt := by
  rw [stamp_createdAt]
  cases hc : r.createdAt with
  | none => simp [Dated, hc] at h
  | some t => rfl

theorem Evolves.stamp {r r' : JobRecord} (h : Evolves r r') (hr : r.Dated) (now : Nat) :
    Evolves r (r'.stamp now) where
  id := h.id
  idempotencyKey := h.idempotencyKey
  createdAt := by
    rw [JobRecord.stamp_dated (by rw [JobRecord.Dated, h.createdAt]; exact hr), h.createdAt]
  functionName := h.functionName
  frozen ht := by
    have hc : (r'.stamp now).createdAt = r'.createdAt :=
      JobRecord.stamp_dated (by rw [JobRecord.Dated, h.createdAt]; exact hr) now
    rw [← h.frozen ht]
    simp only [JobRecord.stamp] at hc ⊢
    rw [hc]
  payload := h.payload

/-- An unfinished record names a worker exactly while it is running. -/
def JobRecord.Assigned (r : JobRecord) : Prop :=
  r.terminal = false → (r.workerID = "" ↔ r.status = .pending)

namespace Mutator

variable {m : Mutator} {c c' : Captured} {r r' : JobRecord}

theorem evolves (hm : m ≠ .missingPayload) (h : m.run c r = (c', .ok r')) : Evolves r r' := by
  cases rewrites_of_run h with
  | missingPayload => exact absurd rfl hm
  | markRunning ht | revert ht =>
    exact ⟨rfl, rfl, rfl, rfl, by simp [ht], fun _ => ⟨ht, rfl, rfl⟩⟩
  | dispatchFailed ht => exact ⟨rfl, rfl, rfl, rfl, by simp [ht], by simp [JobRecord.terminal]⟩
  | giveUp hrun =>
    have ht : r.terminal = false := by simp [JobRecord.terminal, hrun]
    exact ⟨rfl, rfl, rfl, rfl, by simp [ht], by simp [JobRecord.terminal]⟩
  | requeue hrun | recover hrun =>
    have ht : r.terminal = false := by simp [JobRecord.terminal, hrun]
    exact ⟨rfl, rfl, rfl, rfl, by simp [ht], fun _ => ⟨ht, rfl, rfl⟩⟩
  | @report req ht =>
    refine ⟨rfl, rfl, rfl, rfl, by simp [ht], ?_⟩
    cases hs : req.success <;> simp [JobRecord.terminal, reportResult, hs]
  | keep => exact .refl r

def Proper : Mutator → Prop
  | .missingPayload => False
  | .markRunning workerID => workerID ≠ ""
  | _ => True

@[simp] theorem proper_markRunning {workerID : String} :
    (markRunning workerID).Proper ↔ workerID ≠ "" := Iff.rfl

theorem Proper.ne_missingPayload (h : m.Proper) : m ≠ .missingPayload := by
  rintro rfl
  exact h

theorem assigned (hm : m.Proper) (h : m.run c r = (c', .ok r')) (hr : r.Assigned) :
    r'.Assigned := by
  cases rewrites_of_run h with
  | missingPayload => exact hm.elim
  | @markRunning workerID =>
    have hw : workerID ≠ "" := hm
    simp [JobRecord.Assigned, hw]
  | @report req =>
    cases hs : req.success <;> simp [JobRecord.Assigned, JobRecord.terminal, reportResult, hs]
  | keep => exact hr
  | _ => simp [JobRecord.Assigned, JobRecord.terminal]

end Mutator

structure JobRecord.Sound (j : String) (r : JobRecord) : Prop where
  keyed : r.id = j
  dated : r.Dated
  loaded : r.terminal = false → r.functionBytes ≠ []
  assigned : r.Assigned

def BoltStore.Sound (s : BoltStore) : Prop := ∀ j r, s.jobs.get j = some r → r.Sound j

structure JobRecord.Newborn (r : JobRecord) : Prop where
  status : r.status = .pending
  workerID : r.workerID = ""
  dated : r.Dated
  loaded : r.functionBytes ≠ []
  unspent : r.retryCount = 0

theorem JobRecord.Sound.run {j : String} {r r' : JobRecord} {m : Mutator} {c c' : Captured}
    (hm : m.Proper) (h : m.run c r = (c', .ok r')) (hr : r.Sound j) (now : Nat) :
    (r'.stamp now).Sound j := by
  have he := (Mutator.evolves hm.ne_missingPayload h).stamp hr.dated now
  have ha : r'.Assigned := Mutator.assigned hm h hr.assigned
  refine ⟨he.id.trans hr.keyed, ?_, ?_, ha⟩
  · rw [Dated, he.createdAt]
    exact hr.dated
  · intro ht
    obtain ⟨ht', hf, -⟩ := he.payload ht
    rw [hf]
    exact hr.loaded ht'

theorem JobRecord.Newborn.sound {r : JobRecord} (h : r.Newborn) (key : String) (now : Nat) :
    ({ r with idempotencyKey := key }.stamp now).Sound r.id where
  keyed := rfl
  dated := by
    have hd : ({ r with idempotencyKey := key } : JobRecord).Dated := h.dated
    rw [Dated, stamp_dated hd]
    exact h.dated
  loaded _ := h.loaded
  assigned _ := by simp [h.status, h.workerID]

namespace Server

variable {cfg : Config} {m m' : Mem} {ch : Choice} {op : Op} {res : op.Res} {es : List Event}

theorem perform_store (h : perform cfg m ch op = some (m', res, es)) :
    m'.store = m.store ∨
    (∃ jobID mutate, op = .transition jobID mutate ∧
      m'.store = (m.store.transitionWith jobID mutate.run {} ch.now).1) ∨
    ∃ rec key, op = .submitWithIdempotency rec key ∧
      m'.store = (m.store.submitWithIdempotency rec key ch.now).1 := by
  cases performs_of_perform h with
  | transition _ hres => exact .inr (.inl ⟨_, _, rfl, (congrArg Prod.fst hres).symm⟩)
  | submit _ hres => exact .inr (.inr ⟨_, _, rfl, (congrArg Prod.fst hres).symm⟩)
  | _ => exact .inl rfl

theorem submit_get (s : BoltStore) (rec : JobRecord) (key : String) (now : Nat) (j : String) :
    (s.submitWithIdempotency rec key now).1.jobs.get j = s.jobs.get j ∨
      j = rec.id ∧ (s.submitWithIdempotency rec key now).2 = .ok (rec.id, true) ∧
        (s.submitWithIdempotency rec key now).1.jobs.get j =
          some ({ rec with idempotencyKey := key }.stamp now) := by
  have hinsert : ∀ (b : Bucket JobRecord) (r : JobRecord) (hv : validKey r.id = true),
      (b.insert r.id r hv).get j = b.get j ∨
        j = r.id ∧ (b.insert r.id r hv).get j = some r := by
    intro b r hv
    rw [Lib.Bucket.get_insert]
    split
    · rename_i hj
      exact .inr ⟨hj.symm, rfl⟩
    · exact .inl rfl
  rw [BoltStore.submitWithIdempotency]
  rcases s.submitTx_cases ({ rec with idempotencyKey := key }.stamp now) key with
    ⟨existing, -, -, h⟩ | ⟨e, h⟩ | ⟨hv, ⟨-, h⟩ | ⟨hk, -, h⟩⟩
  · exact .inl (by rw [h])
  · exact .inl (by rw [h])
  · rw [h]
    exact (hinsert _ _ hv).imp_right fun ⟨hj, hget⟩ => ⟨hj, rfl, hget⟩
  · rw [h]
    exact (hinsert _ _ hv).imp_right fun ⟨hj, hget⟩ => ⟨hj, rfl, hget⟩

def Op.Plain : Op → Prop
  | .transition _ mutate => mutate.Proper
  | .submitWithIdempotency _ _ => False
  | _ => True

def Kept (s s' : BoltStore) : Prop :=
  ∀ j r, s.jobs.get j = some r → ∃ r', s'.jobs.get j = some r' ∧ Evolves r r'

theorem Kept.refl (s : BoltStore) : Kept s s := fun _ r hr => ⟨r, hr, .refl r⟩

theorem Kept.trans {s s' s'' : BoltStore} (h : Kept s s') (h' : Kept s' s'') : Kept s s'' := by
  intro j r hr
  obtain ⟨r', hr', he⟩ := h j r hr
  obtain ⟨r'', hr'', he'⟩ := h' j r' hr'
  exact ⟨r'', hr'', he.trans he'⟩

theorem transition_sound {s : BoltStore} {mutate : Mutator} (hm : mutate.Proper) (hs : s.Sound)
    (jobID : String) (c : Captured) (now : Nat) :
    (s.transitionWith jobID mutate.run c now).1.Sound ∧
      Kept s (s.transitionWith jobID mutate.run c now).1 := by
  rcases s.transitionWith_cases jobID mutate.run c now with
    ⟨heq, -⟩ | ⟨r, r', c', hkey, hget, hrun, heq⟩
  · rw [heq]
    exact ⟨hs, .refl s⟩
  · rw [heq]
    have hr := hs jobID r hget
    refine ⟨?_, ?_⟩
    · intro j q hq
      rw [Lib.Bucket.get_insert] at hq
      split at hq
      · rename_i hj
        simp only [Option.some.injEq] at hq
        rw [← hq, ← hj]
        exact hr.run hm hrun now
      · exact hs j q hq
    · intro j q hq
      by_cases hj : jobID = j
      · subst hj
        rw [hget, Option.some.injEq] at hq
        subst hq
        refine ⟨_, Lib.Bucket.get_insert_self _ _ _ hkey, ?_⟩
        exact (Mutator.evolves hm.ne_missingPayload hrun).stamp hr.dated now
      · refine ⟨q, ?_, .refl q⟩
        rw [Lib.Bucket.get_insert, if_neg hj, hq]

theorem submit_sound {s : BoltStore} {rec : JobRecord} (hrec : rec.Newborn)
    (hnew : s.jobs.get rec.id = none) (hs : s.Sound) (key : String) (now : Nat) :
    (s.submitWithIdempotency rec key now).1.Sound ∧
      Kept s (s.submitWithIdempotency rec key now).1 := by
  refine ⟨?_, ?_⟩
  · intro j r hr
    rcases submit_get s rec key now j with heq | ⟨rfl, -, heq⟩
    · exact hs j r (heq ▸ hr)
    · rw [heq, Option.some.injEq] at hr
      exact hr ▸ hrec.sound key now
  · intro j r hr
    rcases submit_get s rec key now j with heq | ⟨rfl, -, -⟩
    · exact ⟨r, heq.trans hr, .refl r⟩
    · simp [hnew] at hr

theorem perform_sound (hop : op.Plain) (hs : m.store.Sound)
    (h : perform cfg m ch op = some (m', res, es)) : m'.store.Sound ∧ Kept m.store m'.store := by
  rcases perform_store h with heq | ⟨jobID, mutate, rfl, heq⟩ | ⟨rec, key, rfl, heq⟩
  · rw [heq]
    exact ⟨hs, .refl _⟩
  · rw [heq]
    exact transition_sound hop hs jobID {} ch.now
  · exact hop.elim

theorem perform_domain (hop : op.Plain) (h : perform cfg m ch op = some (m', res, es)) {j : String}
    (hj : m.store.jobs.get j = none) : m'.store.jobs.get j = none := by
  rcases perform_store h with heq | ⟨jobID, mutate, rfl, heq⟩ | ⟨rec, key, rfl, heq⟩
  · rw [heq, hj]
  · rw [heq]
    rcases m.store.transitionWith_cases jobID mutate.run {} ch.now with
      ⟨hsame, -⟩ | ⟨r, r', c', hkey, hget, -, hins⟩
    · rw [hsame, hj]
    · have hne : j ≠ jobID := by
        rintro rfl
        simp [hj] at hget
      rw [hins, Lib.Bucket.get_insert_ne _ _ _ hne, hj]
  · exact hop.elim

end Server

end Minimodal
