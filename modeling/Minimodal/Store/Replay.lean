import Minimodal.Store.Fsm

namespace Minimodal.JobFSM

def upTo (L : List FsmCommand) (i : Nat) : BoltStore := applyAll .empty (L.take i)

/-- The logs leaders write: a submit names an id no earlier entry mentions, and a
compare-and-swap was computed from a record its job had after an earlier prefix. -/
structure Proposed (L : List FsmCommand) : Prop where
  fresh : ∀ (i : Nat) (c : FsmCommand), L[i]? = some c → c.op = .submit →
    ∀ (j : Nat) (d : FsmCommand), j < i → L[j]? = some d → d.record.id ≠ c.record.id
  read : ∀ (i : Nat) (c : FsmCommand), L[i]? = some c → c.op = .cas →
    c.record.version = c.expectedVersion + 1 ∧
    ∃ k ≤ i, ∃ r, (upTo L k).jobs.get c.record.id = some r ∧ r.version = c.expectedVersion

def resets (c : FsmCommand) : Bool :=
  validKey c.record.id && (c.op = .put || c.op = .submit && c.idempotencyKey = "")

def ResetFrom (L : List FsmCommand) (j : String) (i : Nat) : Prop :=
  ∃ (p : Nat) (c : FsmCommand), i ≤ p ∧ L[p]? = some c ∧ c.record.id = j ∧ resets c = true

theorem writes_of_resets {c : FsmCommand} (h : resets c = true) (s : BoltStore) :
    writes s c = true := by
  simp only [resets, Bool.and_eq_true, Bool.or_eq_true, decide_eq_true_eq] at h
  obtain ⟨hv, hop | ⟨hop, hk⟩⟩ := h
  · simp [writes, hop, hv]
  · simp [writes, hop, hv, hk]

theorem writes_congr {s t : BoltStore} {c : FsmCommand}
    (hj : s.jobs.get c.record.id = t.jobs.get c.record.id)
    (hi : s.idempotency.get c.idempotencyKey = t.idempotency.get c.idempotencyKey) :
    writes s c = writes t c := by
  simp only [writes, hj, hi]

@[simp] theorem upTo_zero (L : List FsmCommand) : upTo L 0 = .empty := by simp [upTo]

theorem upTo_succ {L : List FsmCommand} {i : Nat} {c : FsmCommand} (h : L[i]? = some c) :
    upTo L (i + 1) = (apply (upTo L i) c).1 := by
  simp [upTo, List.take_add_one, h]

theorem upTo_length (L : List FsmCommand) : upTo L L.length = applyAll .empty L := by
  simp [upTo]

theorem get_lt {L : List FsmCommand} {i : Nat} (h : i < L.length) : ∃ c, L[i]? = some c :=
  ⟨L[i], by simp [h]⟩

theorem succ_le_of_get {L : List FsmCommand} {i : Nat} {c : FsmCommand} (h : L[i]? = some c) :
    i + 1 ≤ L.length := by
  obtain ⟨hlt, _⟩ := List.getElem?_eq_some_iff.mp h
  exact hlt

theorem written_of_get {L : List FsmCommand} {i : Nat} {j : String} {r : JobRecord}
    (hi : i ≤ L.length) (h : (upTo L i).jobs.get j = some r) :
    ∃ (p : Nat) (d : FsmCommand), p < i ∧ L[p]? = some d ∧ d.record = r ∧ r.id = j := by
  induction i generalizing r with
  | zero => simp at h
  | succ i ih =>
    obtain ⟨c, hc⟩ := get_lt (Nat.lt_of_succ_le hi)
    rw [upTo_succ hc, apply_jobs] at h
    split at h
    · rename_i hw
      cases h
      exact ⟨i, c, Nat.lt_succ_self i, hc, rfl, hw.2⟩
    · obtain ⟨p, d, hp, hd, he, hr⟩ := ih (Nat.le_of_succ_le hi) h
      exact ⟨p, d, Nat.lt_succ_of_lt hp, hd, he, hr⟩

theorem named_of_get {L : List FsmCommand} {i : Nat} {j : String} {r : JobRecord}
    (hi : i ≤ L.length) (h : (upTo L i).jobs.get j = some r) :
    ∃ (p : Nat) (d : FsmCommand), p < i ∧ L[p]? = some d ∧ d.record.id = j := by
  obtain ⟨p, d, hp, hd, rfl, hr⟩ := written_of_get hi h
  exact ⟨p, d, hp, hd, hr⟩

theorem idempotency_mono {L : List FsmCommand} {i m : Nat} {k id : String} (him : i ≤ m)
    (hm : m ≤ L.length) (h : (upTo L i).idempotency.get k = some id) :
    (upTo L m).idempotency.get k = some id := by
  induction m, him using Nat.le_induction with
  | base => exact h
  | succ m _ ih =>
    obtain ⟨c, hc⟩ := get_lt (Nat.lt_of_succ_le hm)
    have hprev := ih (Nat.le_of_succ_le hm)
    rw [upTo_succ hc, apply_idempotency, if_neg]
    · exact hprev
    · rintro ⟨hw, hop, rfl, hv⟩
      -- a submit whose key is taken writes nothing
      simp [writes, hop, ne_empty_of_validKey hv, hprev] at hw

theorem key_taken {L : List FsmCommand} {i : Nat} {c : FsmCommand} (hc : L[i]? = some c)
    (hop : c.op = .submit) (hv : validKey c.record.id = true)
    (hk : validKey c.idempotencyKey = true) :
    ∃ id, (upTo L (i + 1)).idempotency.get c.idempotencyKey = some id := by
  cases hidx : (upTo L i).idempotency.get c.idempotencyKey with
  | none =>
    refine ⟨c.record.id, ?_⟩
    rw [upTo_succ hc, apply_idempotency]
    simp [writes, hop, hv, hk, hidx]
  | some id => exact ⟨id, idempotency_mono (Nat.le_succ i) (succ_le_of_get hc) hidx⟩

section Versions

variable {L : List FsmCommand} (hL : Proposed L) {j : String} (hr : ¬ ResetFrom L j 0)
include hL hr

theorem version_succ {i : Nat} {r : JobRecord} (hi : i + 1 ≤ L.length)
    (h : (upTo L i).jobs.get j = some r) :
    ∃ r', (upTo L (i + 1)).jobs.get j = some r' ∧ r.version ≤ r'.version := by
  obtain ⟨c, hc⟩ := get_lt (Nat.lt_of_succ_le hi)
  rw [upTo_succ hc, apply_jobs]
  split
  · rename_i hw
    obtain ⟨hw, rfl⟩ := hw
    refine ⟨c.record, rfl, ?_⟩
    cases hop : c.op with
    | put =>
      refine absurd ⟨i, c, Nat.zero_le i, hc, rfl, ?_⟩ hr
      simp [resets, hop, validKey_of_writes hw]
    | cas =>
      simp only [writes, hop, h, decide_eq_true_eq] at hw
      have := (hL.read i c hc hop).1
      omega
    | submit =>
      obtain ⟨p, d, hp, hd, he⟩ := named_of_get (Nat.le_of_succ_le hi) h
      exact absurd he (hL.fresh i c hc hop p d hp hd)
    | unknown op => simp [writes, hop] at hw
  · exact ⟨r, h, le_refl _⟩

theorem version_mono {i m : Nat} {r : JobRecord} (him : i ≤ m) (hm : m ≤ L.length)
    (h : (upTo L i).jobs.get j = some r) :
    ∃ r', (upTo L m).jobs.get j = some r' ∧ r.version ≤ r'.version := by
  induction m, him using Nat.le_induction with
  | base => exact ⟨r, h, le_refl _⟩
  | succ m _ ih =>
    obtain ⟨r', hr', hle⟩ := ih (Nat.le_of_succ_le hm)
    obtain ⟨r'', hr'', hle'⟩ := version_succ hL hr hm hr'
    exact ⟨r'', hr'', hle.trans hle'⟩

theorem version_past {i m : Nat} {c : FsmCommand} (hc : L[i]? = some c) (hop : c.op = .cas)
    (hj : c.record.id = j) (him : i < m) (hm : m ≤ L.length) :
    ∃ r', (upTo L m).jobs.get j = some r' ∧ c.expectedVersion < r'.version := by
  subst hj
  obtain ⟨hver, k, hki, r, hget, hexp⟩ := hL.read i c hc hop
  obtain ⟨r₁, hget₁, hle₁⟩ := version_mono hL hr hki (by omega) hget
  have hnext : ∃ r₂, (upTo L (i + 1)).jobs.get c.record.id = some r₂ ∧
      c.expectedVersion < r₂.version := by
    rw [upTo_succ hc, apply_jobs]
    by_cases hw : writes (upTo L i) c = true
    · exact ⟨c.record, by simp [hw], by omega⟩
    · refine ⟨r₁, by simp [hw, hget₁], ?_⟩
      have hne : r₁.version ≠ c.expectedVersion := by
        intro he
        exact hw (by simp [writes, hop, hget₁, he])
      omega
  obtain ⟨r₂, hget₂, hlt⟩ := hnext
  obtain ⟨r₃, hget₃, hle₃⟩ := version_mono hL hr him hm hget₂
  exact ⟨r₃, hget₃, by omega⟩

end Versions

/-- What a node's store looks like while it re-applies entry `i`, having once got
as far as `m`. Jobs that some entry resets are back on the log's own course as
soon as the reset has been replayed; the others wait at `m`. -/
structure Replaying (L : List FsmCommand) (i m : Nat) (t : BoltStore) : Prop where
  pos : i ≤ m
  bound : m ≤ L.length
  idempotency : ∀ k, t.idempotency.get k = (upTo L m).idempotency.get k
  waiting : ∀ j, ¬ ResetFrom L j 0 → t.jobs.get j = (upTo L m).jobs.get j
  reset : ∀ j, ResetFrom L j 0 → ResetFrom L j i ∨ t.jobs.get j = (upTo L i).jobs.get j

theorem Replaying.of_start (L : List FsmCommand) : Replaying L 0 0 .empty where
  pos := le_refl 0
  bound := Nat.zero_le _
  idempotency := by simp
  waiting := by simp
  reset := by simp

theorem Replaying.restart {L : List FsmCommand} {i m : Nat} {t : BoltStore}
    (h : Replaying L i m t) : Replaying L 0 m t where
  pos := Nat.zero_le m
  bound := h.bound
  idempotency := h.idempotency
  waiting := h.waiting
  reset := fun _ hj => .inl hj

namespace Replaying

variable {L : List FsmCommand} {i m : Nat} {t : BoltStore} {c : FsmCommand}

theorem keyed_skipped (h : Replaying L i m t) (hc : L[i]? = some c) (hlt : i < m)
    (hop : c.op = .submit) (hk : validKey c.idempotencyKey = true) : writes t c = false := by
  by_cases hv : validKey c.record.id = true
  · obtain ⟨id, hid⟩ := key_taken hc hop hv hk
    have ht := (h.idempotency _).trans (idempotency_mono hlt h.bound hid)
    simp [writes, hop, ne_empty_of_validKey hk, ht]
  · simp [writes, hop, hv]

theorem waiting_skipped (hL : Proposed L) (h : Replaying L i m t) (hc : L[i]? = some c)
    (hlt : i < m) (hr : ¬ ResetFrom L c.record.id 0) : writes t c = false := by
  have hnr : ¬ resets c = true := fun he => hr ⟨i, c, Nat.zero_le i, hc, rfl, he⟩
  simp only [resets, Bool.and_eq_true, Bool.or_eq_true, decide_eq_true_eq, not_and, not_or] at hnr
  cases hop : c.op with
  | put =>
    by_cases hv : validKey c.record.id = true
    · exact absurd hop (hnr hv).1
    · simp [writes, hop, hv]
  | cas =>
    obtain ⟨r, hget, hver⟩ := version_past hL hr hc hop rfl hlt h.bound
    simp only [writes, hop, h.waiting _ hr, hget]
    exact decide_eq_false (by omega)
  | submit =>
    by_cases hk : validKey c.idempotencyKey = true
    · exact h.keyed_skipped hc hlt hop hk
    · by_cases hv : validKey c.record.id = true
      · simp [writes, hop, hk, (hnr hv).2 hop]
      · simp [writes, hop, hv]
  | unknown op => simp [writes, hop]

theorem on_course (hL : Proposed L) (h : Replaying L i m t) (hc : L[i]? = some c) {j : String}
    (hj : ResetFrom L j 0) (hlast : ¬ ResetFrom L j (i + 1)) :
    (apply t c).1.jobs.get j = (upTo L (i + 1)).jobs.get j := by
  rw [upTo_succ hc, apply_jobs, apply_jobs]
  by_cases hnow : c.record.id = j ∧ resets c = true
  · simp [writes_of_resets hnow.2, hnow.1]
  · have hno : ¬ ResetFrom L j i := by
      rintro ⟨p, d, hp, hd, hdj, hdr⟩
      rcases Nat.eq_or_lt_of_le hp with rfl | hlt
      · rw [hc] at hd
        cases hd
        exact hnow ⟨hdj, hdr⟩
      · exact hlast ⟨p, d, hlt, hd, hdj, hdr⟩
    have hsame : t.jobs.get j = (upTo L i).jobs.get j := (h.reset j hj).resolve_left hno
    by_cases hcj : c.record.id = j
    · subst hcj
      have hw : writes t c = writes (upTo L i) c := by
        cases hop : c.op with
        | put => simp only [writes, hop]
        | cas => simp only [writes, hop, hsame]
        | submit =>
          -- the id is new here, so no entry before this one can have reset it
          obtain ⟨p, d, -, hd, hdj, hdr⟩ := hj
          rcases Nat.lt_or_ge p i with hlt | hge
          · exact absurd hdj (hL.fresh i c hc hop p d hlt hd)
          · exact absurd ⟨p, d, hge, hd, hdj, hdr⟩ hno
        | unknown op => simp only [writes, hop]
      rw [hw, hsame]
    · simp [hcj, hsame]

theorem step (hL : Proposed L) (h : Replaying L i m t) (hc : L[i]? = some c) :
    Replaying L (i + 1) (max m (i + 1)) (apply t c).1 := by
  have hreset : ∀ j, ResetFrom L j 0 → ResetFrom L j (i + 1) ∨
      (apply t c).1.jobs.get j = (upTo L (i + 1)).jobs.get j := by
    intro j hj
    by_cases hlast : ResetFrom L j (i + 1)
    · exact .inl hlast
    · exact .inr (h.on_course hL hc hj hlast)
  rcases Nat.eq_or_lt_of_le h.pos with rfl | hlt
  · -- the replay has caught up: entry `i` acts as it did the first time
    rw [Nat.max_eq_right (Nat.le_succ i)]
    refine ⟨le_refl _, succ_le_of_get hc, ?_, ?_, hreset⟩
    · intro k
      rw [upTo_succ hc, apply_idempotency, apply_idempotency, h.idempotency k]
      by_cases hop : c.op = .submit
      · have hw : writes t c = writes (upTo L i) c := by
          simp only [writes, hop, h.idempotency]
        rw [hw]
      · simp [hop]
    · intro j hj
      rw [upTo_succ hc, apply_jobs, apply_jobs, h.waiting j hj]
      by_cases hcj : c.record.id = j
      · subst hcj
        rw [writes_congr (h.waiting _ hj) (h.idempotency _)]
      · simp [hcj]
  · rw [Nat.max_eq_left hlt]
    refine ⟨hlt, h.bound, ?_, ?_, hreset⟩
    · intro k
      rw [apply_idempotency, if_neg]
      · exact h.idempotency k
      · rintro ⟨hw, hop, rfl, hk⟩
        rw [h.keyed_skipped hc hlt hop hk] at hw
        exact absurd hw (by decide)
    · intro j hj
      rw [apply_jobs, if_neg]
      · exact h.waiting j hj
      · rintro ⟨hw, rfl⟩
        rw [h.waiting_skipped hL hc hlt hj] at hw
        exact absurd hw (by decide)

theorem run (hL : Proposed L) {m : Nat} {t : BoltStore} (h : Replaying L 0 m t) {p : Nat}
    (hp : p ≤ L.length) : Replaying L p (max m p) (applyAll t (L.take p)) := by
  induction p with
  | zero => simpa using h
  | succ p ih =>
    obtain ⟨c, hc⟩ := get_lt (Nat.lt_of_succ_le hp)
    have hstep := (ih (Nat.le_of_succ_le hp)).step hL hc
    rw [Nat.max_assoc, Nat.max_eq_right (Nat.le_succ p)] at hstep
    rw [List.take_add_one, hc]
    simpa using hstep

end Replaying

theorem replaying_of_crashes {L : List FsmCommand} (hL : Proposed L)
    (Ps : List (List FsmCommand)) (hPs : ∀ P ∈ Ps, P <+: L) :
    ∃ m, Replaying L 0 m (Ps.foldl applyAll .empty) := by
  induction Ps using List.reverseRecOn with
  | nil => exact ⟨0, Replaying.of_start L⟩
  | append_singleton Ps P ih =>
    obtain ⟨m, hm⟩ := ih (fun Q hQ => hPs Q (by simp [hQ]))
    have hP : P <+: L := hPs P (by simp)
    have hrun := hm.run hL hP.length_le
    rw [← List.prefix_iff_eq_take.mp hP] at hrun
    simp only [List.foldl_append, List.foldl_cons, List.foldl_nil]
    exact ⟨_, hrun.restart⟩

/-- Partial replays of the log over the persisted store are harmless: applying the
whole log afterwards gives what applying it once to the empty store gives. -/
theorem replay_harmless {L : List FsmCommand} (hL : Proposed L) (Ps : List (List FsmCommand))
    (hPs : ∀ P ∈ Ps, P <+: L) :
    applyAll (Ps.foldl applyAll .empty) L = applyAll .empty L := by
  obtain ⟨m, hm⟩ := replaying_of_crashes hL Ps hPs
  have hrun := hm.run hL (le_refl L.length)
  rw [List.take_length, Nat.max_eq_right hm.bound] at hrun
  rw [← upTo_length]
  apply BoltStore.ext_get
  · intro j
    by_cases hj : ResetFrom L j 0
    · refine (hrun.reset j hj).resolve_left ?_
      rintro ⟨p, d, hp, hd, -, -⟩
      have := succ_le_of_get hd
      omega
    · exact hrun.waiting j hj
  · exact hrun.idempotency

def sampleLog : List FsmCommand :=
  [{ op := .submit, record := { id := "a", status := .pending, version := 1 },
     idempotencyKey := "k" },
   { op := .cas, record := { id := "a", status := .done, version := 2 }, expectedVersion := 1 },
   { op := .cas, record := { id := "a", status := .failed, version := 2 }, expectedVersion := 1 },
   { op := .submit, record := { id := "b", status := .pending, version := 1 } },
   { op := .put, record := { id := "b", status := .running, version := 1 } }]

theorem sampleLog_proposed : Proposed sampleLog where
  fresh := by
    intro i c hi hop j d hj hd
    have hlt : i < 5 := succ_le_of_get hi
    interval_cases i <;> interval_cases j <;> cases hi <;> cases hd <;> revert hop <;> decide
  read := by
    intro i c hi hop
    have hlt : i < 5 := succ_le_of_get hi
    interval_cases i <;> cases hi
    case «1» => exact ⟨rfl, 1, le_refl 1, _, rfl, rfl⟩
    case «2» => exact ⟨rfl, 1, by decide, _, rfl, rfl⟩
    all_goals revert hop; decide

theorem replay_harmless_sampleLog :
    applyAll ([sampleLog, sampleLog.take 2, sampleLog.take 4].foldl applyAll .empty) sampleLog =
      applyAll .empty sampleLog := by
  apply replay_harmless sampleLog_proposed
  intro P hP
  simp only [List.mem_cons, List.not_mem_nil, or_false] at hP
  rcases hP with rfl | rfl | rfl
  · exact List.prefix_refl _
  · exact List.take_prefix 2 _
  · exact List.take_prefix 4 _

end Minimodal.JobFSM
