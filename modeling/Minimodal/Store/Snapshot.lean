import Minimodal.Store.Fsm

namespace Minimodal

namespace BoltStore

variable {ν : Type}

theorem putAll_get {b b' : Bucket ν} {l : List (String × ν)} (h : putAll b l = .ok b')
    (hl : l.Pairwise (fun x y => x.1 ≠ y.1)) (k : String) (v : ν) :
    b'.get k = some v ↔ (k, v) ∈ l ∨ (∀ w, (k, w) ∉ l) ∧ b.get k = some v := by
  induction l generalizing b with
  | nil =>
    simp only [putAll, Except.ok.injEq] at h
    simp [h]
  | cons x l ih =>
    obtain ⟨k₀, v₀⟩ := x
    simp only [putAll] at h
    split at h
    · simp at h
    · rename_i b₁ hput
      obtain ⟨hx, hl⟩ := List.pairwise_cons.mp hl
      have hk : validKey k₀ = true := by
        by_contra hbad
        have he := Bucket.tryPut_error b v₀ (Bool.not_eq_true _ ▸ hbad)
        simp [he] at hput
      rw [Bucket.tryPut_ok _ _ hk, Except.ok.injEq] at hput
      subst hput
      rw [ih h hl, Lib.Bucket.get_insert]
      by_cases hkk : k₀ = k
      · subst hkk
        have hout : ∀ w, (k₀, w) ∉ l := fun w hw => hx _ hw rfl
        simp only [hout, not_false_eq_true, implies_true, if_true, Option.some.injEq, true_and,
          false_or, List.mem_cons, Prod.mk.injEq, or_false]
        constructor
        · intro he
          exact .inl he.symm
        · rintro (he | ⟨hno, -⟩)
          · exact he.symm
          · exact absurd rfl (hno v₀)
      · simp [hkk, Ne.symm hkk]

theorem putAll_ok (b : Bucket ν) {l : List (String × ν)} (h : ∀ x ∈ l, validKey x.1 = true) :
    ∃ b', putAll b l = .ok b' := by
  induction l generalizing b with
  | nil => exact ⟨b, rfl⟩
  | cons x l ih =>
    obtain ⟨k, v⟩ := x
    have hk : validKey k = true := h (k, v) (by simp)
    simp only [putAll, Bucket.tryPut_ok _ _ hk]
    exact ih _ (fun y hy => h y (by simp [hy]))

theorem putAll_perm (b : Bucket ν) {l : List (String × ν)} (h : l.Perm b.forEach) :
    putAll .empty l = .ok b := by
  have hvalid : ∀ x ∈ l, validKey x.1 = true := by
    rintro ⟨k, v⟩ hx
    exact Lib.Bucket.admitted_of_get (Lib.Bucket.mem_forEach.mp (h.mem_iff.mp hx))
  have hdistinct : l.Pairwise (fun x y => x.1 ≠ y.1) :=
    h.symm.pairwise b.forEach_pairwise (fun hxy => hxy.symm)
  obtain ⟨b', hb'⟩ := putAll_ok .empty hvalid
  rw [hb']
  congr 1
  apply Lib.Bucket.ext_get
  intro k
  apply Option.ext
  intro v
  rw [putAll_get hb' hdistinct k v, h.mem_iff, Lib.Bucket.mem_forEach]
  simp

theorem putAll_forEach (b : Bucket ν) : putAll .empty b.forEach = .ok b :=
  putAll_perm b (.refl _)

def KeyedById (s : BoltStore) : Prop := ∀ id r, s.jobs.get id = some r → r.id = id

theorem KeyedById.insert {s : BoltStore} (h : s.KeyedById) {id : String} {r : JobRecord}
    (hid : r.id = id) (hv : validKey id = true) (idempotency : Bucket String) :
    KeyedById ⟨s.jobs.insert id r hv, idempotency⟩ := by
  intro j x hx
  rw [Lib.Bucket.get_insert] at hx
  split at hx
  · rename_i hj
    cases hx
    exact hid.trans hj
  · exact h j x hx

theorem importState_exportState {s : BoltStore} (h : s.KeyedById) (t : BoltStore)
    {idem : List (String × String)} (hidem : idem.Perm s.exportState.2) :
    t.importState s.exportState.1 idem = (s, .ok ()) := by
  have hjobs : (s.jobs.forEach.map (·.2)).map (fun rec : JobRecord => (rec.id, rec)) =
      s.jobs.forEach := by
    rw [List.map_map]
    conv_rhs => rw [← List.map_id s.jobs.forEach]
    apply List.map_congr_left
    rintro ⟨k, v⟩ hx
    simp [h k v (Lib.Bucket.mem_forEach.mp hx)]
  simp only [exportState] at hidem ⊢
  simp [importState, hjobs, putAll_forEach, putAll_perm _ hidem]

end BoltStore

namespace JobFSM

theorem restore_snapshot {s : BoltStore} (h : s.KeyedById) (t : BoltStore) :
    restore t (snapshot s) = (s, .ok ()) :=
  BoltStore.importState_exportState h t (.refl _)

theorem keyedById_apply {s : BoltStore} (h : s.KeyedById) (cmd : FsmCommand) :
    (apply s cmd).1.KeyedById := by
  intro id r hr
  rw [apply_jobs] at hr
  split at hr
  · rename_i hw
    cases hr
    exact hw.2
  · exact h id r hr

theorem keyedById_applyAll {s : BoltStore} (h : s.KeyedById) (log : List FsmCommand) :
    (applyAll s log).KeyedById := by
  induction log using List.reverseRecOn with
  | nil => exact h
  | append_singleton log cmd ih =>
    rw [applyAll_append, applyAll_singleton]
    exact keyedById_apply ih cmd

def responses (s : BoltStore) : List FsmCommand → List FsmResponse
  | [] => []
  | cmd :: log => (apply s cmd).2 :: responses (apply s cmd).1 log

@[simp] theorem responses_length (s : BoltStore) (log : List FsmCommand) :
    (responses s log).length = log.length := by
  induction log generalizing s with
  | nil => rfl
  | cons cmd log ih => simp [responses, ih]

theorem responses_append (s : BoltStore) (xs ys : List FsmCommand) :
    responses s (xs ++ ys) = responses s xs ++ responses (applyAll s xs) ys := by
  induction xs generalizing s with
  | nil => rfl
  | cons cmd xs ih =>
    simp only [List.cons_append, responses, ih]
    rfl

structure Json where
  encode : Snapshot → String
  decode : String → Except Err Snapshot

/-- What is decoded is what was encoded, up to the order of the map. -/
def Json.RoundTrips (json : Json) (snap : Snapshot) : Prop :=
  ∃ idem, json.decode (json.encode snap) = .ok { snap with idem } ∧ idem.Perm snap.idem

def persist (json : Json) (snap : Snapshot) : String := json.encode snap

def restoreFrom (json : Json) (s : BoltStore) (text : String) : BoltStore × Except Err Unit :=
  match json.decode text with
  | .error e => (s, .error e)
  | .ok snap => restore s snap

theorem restoreFrom_persist {json : Json} {s : BoltStore} (hjson : json.RoundTrips (snapshot s))
    (h : s.KeyedById) (t : BoltStore) :
    restoreFrom json t (persist json (snapshot s)) = (s, .ok ()) := by
  obtain ⟨idem, hdecode, hperm⟩ := hjson
  simp only [restoreFrom, persist, hdecode]
  exact BoltStore.importState_exportState h t hperm

theorem snapshot_commutes (json : Json) (A B : List FsmCommand)
    (hjson : json.RoundTrips (snapshot (applyAll .empty A))) (t : BoltStore) :
    let restored := restoreFrom json t (persist json (snapshot (applyAll .empty A)))
    restored.2 = .ok () ∧ applyAll restored.1 B = applyAll .empty (A ++ B) ∧
      responses restored.1 B = (responses .empty (A ++ B)).drop A.length := by
  have hkeyed : (applyAll .empty A).KeyedById :=
    keyedById_applyAll (by simp [BoltStore.KeyedById]) A
  intro restored
  have hrestored : restored = (applyAll .empty A, .ok ()) := restoreFrom_persist hjson hkeyed t
  rw [hrestored]
  refine ⟨rfl, (applyAll_append _ A B).symm, ?_⟩
  rw [responses_append, List.drop_left' (responses_length _ A)]

def sampleRecord : JobRecord where
  id := "a"
  status := .pending
  functionBytes := [1]
  idempotencyKey := "k"
  createdAt := some 1
  updatedAt := some 1
  version := 1

def sampleBefore : List FsmCommand :=
  [{ op := .submit, record := sampleRecord, idempotencyKey := "k" }]

def sampleAfter : List FsmCommand :=
  [{ op := .submit, record := { sampleRecord with id := "b" }, idempotencyKey := "k" },
   { op := .cas, record := { sampleRecord with status := .running, workerID := "w", version := 2 },
     expectedVersion := 1 }]

def sampleText : String :=
  "\x7b\"jobs\":[\x7b\"id\":\"a\",\"status\":\"PENDING\",\"function_name\":\"\"," ++
  "\"function_bytes\":\"AQ==\",\"idempotency_key\":\"k\"," ++
  "\"created_at\":\"1970-01-01T00:00:00.000000001Z\"," ++
  "\"updated_at\":\"1970-01-01T00:00:00.000000001Z\",\"retry_count\":0,\"version\":1\x7d]," ++
  "\"idempotency\":\x7b\"k\":\"a\"\x7d\x7d\n"

def sampleJson : Json where
  encode _ := sampleText
  decode text :=
    if text = sampleText then .ok ⟨[sampleRecord], [("k", "a")]⟩
    else .error (.errorf "unexpected end of JSON input")

theorem sampleJson_roundTrips : sampleJson.RoundTrips (snapshot (applyAll .empty sampleBefore)) := by
  have hsnap : snapshot (applyAll .empty sampleBefore) = ⟨[sampleRecord], [("k", "a")]⟩ := by
    decide
  rw [hsnap]
  exact ⟨[("k", "a")], by simp [sampleJson], .refl _⟩

theorem snapshot_commutes_sample :
    sampleJson.RoundTrips (snapshot (applyAll .empty sampleBefore)) ∧
      let restored := restoreFrom sampleJson (applyAll .empty sampleAfter)
        (persist sampleJson (snapshot (applyAll .empty sampleBefore)))
      restored.2 = .ok () ∧
        applyAll restored.1 sampleAfter = applyAll .empty (sampleBefore ++ sampleAfter) ∧
        responses restored.1 sampleAfter =
          (responses .empty (sampleBefore ++ sampleAfter)).drop sampleBefore.length :=
  ⟨sampleJson_roundTrips,
    snapshot_commutes sampleJson sampleBefore sampleAfter sampleJson_roundTrips _⟩

end JobFSM

end Minimodal
