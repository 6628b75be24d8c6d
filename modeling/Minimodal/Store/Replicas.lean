import Minimodal.Store.Clients
import Minimodal.Store.Replay

namespace Minimodal

namespace JobFSM

/-- Logs of submits and compare-and-swaps whose mutators keep the id and the key. -/
structure KeyedLog (L : List FsmCommand) : Prop extends Proposed L where
  ops : ∀ c ∈ L, c.op = .submit ∨ c.op = .cas
  submitKey : ∀ c ∈ L, c.op = .submit → c.record.idempotencyKey = c.idempotencyKey
  casKey : ∀ (i : Nat) (c : FsmCommand), L[i]? = some c → c.op = .cas →
    ∃ k ≤ i, ∃ r, (upTo L k).jobs.get c.record.id = some r ∧
      c.record.idempotencyKey = r.idempotencyKey

/-- A replica that has applied `i` entries. It may install a snapshot another
replica took, and after a restart it re-applies the log over its own store. -/
inductive Node (L : List FsmCommand) : Nat → BoltStore → Prop
  | start : Node L 0 .empty
  | apply {i s c} : Node L i s → L[i]? = some c → Node L (i + 1) (JobFSM.apply s c).1
  | restore {i s i' s'} : Node L i s → Node L i' s' → Node L i' (restore s (snapshot s')).1
  | restart {i s} : Node L i s → Node L 0 s

def FromLog (L : List FsmCommand) (s : BoltStore) : Prop :=
  ∀ id r, s.jobs.get id = some r →
    r.id = id ∧ ∃ (i : Nat) (c : FsmCommand), L[i]? = some c ∧ c.record = r

theorem FromLog.keyedById {L : List FsmCommand} {s : BoltStore} (h : FromLog L s) :
    s.KeyedById := fun id r hr => (h id r hr).1

theorem FromLog.apply {L : List FsmCommand} {s : BoltStore} (h : FromLog L s) {i : Nat}
    {c : FsmCommand} (hc : L[i]? = some c) : FromLog L (apply s c).1 := by
  intro id r hr
  rw [apply_jobs] at hr
  split at hr
  · rename_i hw
    cases hr
    exact ⟨hw.2, i, c, hc, rfl⟩
  · exact h id r hr

theorem Node.replaying {L : List FsmCommand} (hL : Proposed L) {i : Nat} {s : BoltStore}
    (h : Node L i s) : FromLog L s ∧ ∃ m, Replaying L i m s := by
  induction h with
  | start => exact ⟨by simp [FromLog], 0, Replaying.of_start L⟩
  | apply _ hc ih =>
    obtain ⟨hfrom, m, hm⟩ := ih
    exact ⟨hfrom.apply hc, _, hm.step hL hc⟩
  | @restore i s i' s' _ _ _ ih' =>
    obtain ⟨hfrom, m, hm⟩ := ih'
    rw [restore_snapshot hfrom.keyedById]
    exact ⟨hfrom, m, hm⟩
  | restart _ ih =>
    obtain ⟨hfrom, m, hm⟩ := ih
    exact ⟨hfrom, m, hm.restart⟩

section Keyed

variable {L : List FsmCommand} (hL : KeyedLog L)
include hL

theorem submit_of_entry (i : Nat) (c : FsmCommand) (hc : L[i]? = some c) :
    ∃ (p : Nat) (d : FsmCommand), L[p]? = some d ∧ d.op = .submit ∧
      d.record.id = c.record.id ∧ d.record.idempotencyKey = c.record.idempotencyKey := by
  induction i using Nat.strong_induction_on generalizing c with
  | _ i ih =>
    rcases hL.ops c (List.mem_of_getElem? hc) with hop | hop
    · exact ⟨i, c, hc, hop, rfl, rfl⟩
    · obtain ⟨k, hki, r, hget, hkey⟩ := hL.casKey i c hc hop
      have hi := succ_le_of_get hc
      obtain ⟨p, d, hp, hd, rfl, hid⟩ := written_of_get (by omega) hget
      obtain ⟨q, x, hx, hxop, hxid, hxkey⟩ := ih p (by omega) d hd
      exact ⟨q, x, hx, hxop, hxid.trans hid, hxkey.trans hkey.symm⟩

theorem key_unique {i i' : Nat} {c c' : FsmCommand} (hc : L[i]? = some c)
    (hc' : L[i']? = some c') (hid : c.record.id = c'.record.id) :
    c.record.idempotencyKey = c'.record.idempotencyKey := by
  obtain ⟨p, d, hd, hop, hdid, hdkey⟩ := submit_of_entry hL i c hc
  obtain ⟨p', d', hd', hop', hdid', hdkey'⟩ := submit_of_entry hL i' c' hc'
  have hsame : d.record.id = d'.record.id := by rw [hdid, hdid', hid]
  rcases Nat.lt_trichotomy p p' with hlt | rfl | hgt
  · exact absurd hsame (hL.fresh p' d' hd' hop' p d hlt hd)
  · rw [hd, Option.some.injEq] at hd'
    subst hd'
    rw [← hdkey, ← hdkey']
  · exact absurd hsame.symm (hL.fresh p d hd hop p' d' hgt hd')

theorem not_reset {i : Nat} {c : FsmCommand} (hc : L[i]? = some c)
    (hkey : c.record.idempotencyKey ≠ "") : ¬ ResetFrom L c.record.id 0 := by
  rintro ⟨p, d, -, hd, hid, hr⟩
  have hk := key_unique hL hd hc hid
  simp only [resets, Bool.and_eq_true, Bool.or_eq_true, decide_eq_true_eq] at hr
  rcases hr.2 with hop | ⟨hop, hnone⟩
  · rcases hL.ops d (List.mem_of_getElem? hd) with h | h <;> simp [hop] at h
  · rw [← hk, hL.submitKey d (List.mem_of_getElem? hd) hop] at hkey
    exact hkey hnone

theorem upTo_indexed {i : Nat} (hi : i ≤ L.length) : (upTo L i).Indexed := by
  induction i with
  | zero => simpa using BoltStore.Indexed.of_empty
  | succ i ih =>
    have hprev := ih (Nat.le_of_succ_le hi)
    obtain ⟨c, hc⟩ := get_lt (Nat.lt_of_succ_le hi)
    rw [upTo_succ hc]
    rcases hL.ops c (List.mem_of_getElem? hc) with hop | hop
    · have hfresh : (upTo L i).jobs.get c.record.id = none := by
        cases hget : (upTo L i).jobs.get c.record.id with
        | none => rfl
        | some r =>
          obtain ⟨p, d, hp, hd, he⟩ := named_of_get (Nat.le_of_succ_le hi) hget
          exact absurd he (hL.fresh i c hc hop p d hp hd)
      have happly : (apply (upTo L i) c).1 =
          ((upTo L i).submitTx c.record c.idempotencyKey).1 := by
        simp only [apply, hop, BoltStore.submitRaw]
        split <;> simp_all
      rw [happly]
      exact hprev.submitTx hfresh (hL.submitKey c (List.mem_of_getElem? hc) hop)
    · rw [apply_store]
      split
      · rename_i hw
        have hnk : ¬ (c.op = .submit ∧ validKey c.idempotencyKey = true) := by simp [hop]
        rw [dif_neg hnk]
        cases hget : (upTo L i).jobs.get c.record.id with
        | none => simp [writes, hop, hget] at hw
        | some r =>
          obtain ⟨p, d, hp, hd, rfl, hid⟩ := written_of_get (Nat.le_of_succ_le hi) hget
          exact hprev.rewrite hget rfl (key_unique hL hc hd hid.symm) _
      · exact hprev

end Keyed

theorem apply_claim (s : BoltStore) {c : FsmCommand} (hop : c.op = .submit)
    (hk : c.idempotencyKey ≠ "") :
    ((apply s c).1 = s ∧ (apply s c).2.err ≠ none ∧ (apply s c).2.created = false) ∨
    (apply s c).2.err = none ∧
      ((apply s c).2.jobID, (apply s c).2.created) =
        Lib.Once.answer (s.idempotency.get c.idempotencyKey) c.record.id ∧
      (apply s c).1.idempotency.get c.idempotencyKey =
        some (Lib.Once.answer (s.idempotency.get c.idempotencyKey) c.record.id).1 ∧
      ((apply s c).2.created = false → (apply s c).1 = s) := by
  rcases s.submitTx_claim c.record hk with ⟨e, he⟩ | ⟨hres, hcell⟩
  · exact .inl (by simp [apply, hop, BoltStore.submitRaw, he])
  · refine .inr ?_
    rcases hout : s.submitTx c.record c.idempotencyKey with ⟨s', res⟩
    rw [hout] at hres hcell
    simp only at hres hcell
    subst hres
    simp only [apply, hop, BoltStore.submitRaw, hout, true_and]
    refine ⟨hcell, ?_⟩
    intro hcr
    have hold : (s.submitTx c.record c.idempotencyKey).2 =
        .ok ((Lib.Once.answer (s.idempotency.get c.idempotencyKey) c.record.id).1, false) := by
      rw [hout, ← hcr]
    rw [← BoltStore.submitTx_existing hold, hout]

structure Answers (L : List FsmCommand) (k : String) (i : Nat) (s : BoltStore)
    (c : FsmCommand) : Prop where
  node : Node L i s
  entry : L[i]? = some c
  op : c.op = .submit
  key : c.idempotencyKey = k
  ok : (apply s c).2.err = none

def Carries (s : BoltStore) (id k : String) : Prop :=
  ∃ r, s.jobs.get id = some r ∧ r.idempotencyKey = k

def Creates (L : List FsmCommand) (k : String) (i : Nat) : Prop :=
  ∃ c, L[i]? = some c ∧ c.op = .submit ∧ c.idempotencyKey = k ∧
    (apply (upTo L i) c).2.created = true

section Nodes

variable {L : List FsmCommand} (hL : KeyedLog L) {k : String} (hk : k ≠ "")
include hL hk

theorem node_index {i : Nat} {s : BoltStore} (h : Node L i s) (id : String) :
    s.idempotency.get k = some id ↔ Carries s id k := by
  obtain ⟨hfrom, m, hm⟩ := h.replaying hL.toProposed
  rw [hm.idempotency k, (upTo_indexed hL hm.bound).iff hk]
  constructor
  · rintro ⟨r, hr, hrk⟩
    obtain ⟨p, d, -, hd, rfl, rfl⟩ := written_of_get hm.bound hr
    refine ⟨d.record, ?_, hrk⟩
    rw [hm.waiting _ (not_reset hL hd (by rw [hrk]; exact hk))]
    exact hr
  · rintro ⟨r, hr, hrk⟩
    obtain ⟨rfl, p, d, hd, rfl⟩ := hfrom id r hr
    refine ⟨d.record, ?_, hrk⟩
    rw [← hm.waiting _ (not_reset hL hd (by rw [hrk]; exact hk))]
    exact hr

omit hk in
theorem node_final {i : Nat} {s : BoltStore} (h : Node L i s) {id : String}
    (hid : s.idempotency.get k = some id) : (upTo L L.length).idempotency.get k = some id := by
  obtain ⟨-, m, hm⟩ := h.replaying hL.toProposed
  rw [hm.idempotency k] at hid
  exact idempotency_mono hm.bound (le_refl _) hid

theorem answers_final {i : Nat} {s : BoltStore} {c : FsmCommand} (h : Answers L k i s c) :
    (upTo L L.length).idempotency.get k = some (apply s c).2.jobID := by
  have hkey := h.key
  subst hkey
  rcases apply_claim s h.op hk with ⟨-, herr, -⟩ | ⟨-, hans, hcell, -⟩
  · exact absurd h.ok herr
  · rw [← hans] at hcell
    exact node_final hL (h.node.apply h.entry) hcell

theorem creates_of_created {i : Nat} {s : BoltStore} {c : FsmCommand} (h : Node L i s)
    (hc : L[i]? = some c) (hop : c.op = .submit) (hkey : c.idempotencyKey = k)
    (hnew : (apply s c).2.created = true) : Creates L k i := by
  subst hkey
  obtain ⟨-, m, hm⟩ := h.replaying hL.toProposed
  have hi := succ_le_of_get hc
  rcases apply_claim s hop hk with ⟨-, -, hold⟩ | ⟨herr, hans, -, -⟩
  · rw [hold] at hnew
    exact absurd hnew (by decide)
  · -- the key is free on the replica, so it was free when the log got here
    have hfree : s.idempotency.get c.idempotencyKey = none := by
      cases hs : s.idempotency.get c.idempotencyKey with
      | none => rfl
      | some held => simp [hs, Lib.Once.answer, hnew] at hans
    have hfree' : (upTo L i).idempotency.get c.idempotencyKey = none := by
      cases hs : (upTo L i).idempotency.get c.idempotencyKey with
      | none => rfl
      | some held =>
        rw [hm.idempotency, idempotency_mono hm.pos hm.bound hs] at hfree
        exact absurd hfree (by simp)
    refine ⟨c, hc, hop, rfl, ?_⟩
    have hw : (apply s c).2 = (apply (upTo L i) c).2 := by
      simp only [apply, hop, BoltStore.submitRaw, BoltStore.submitTx, hk, if_false, hfree, hfree']
      unfold Bucket.tryPut Lib.Bucket.put
      by_cases hv : validKey c.record.id = true <;>
        by_cases hvk : validKey c.idempotencyKey = true <;> simp [hv, hvk]
    rw [← hw]
    exact hnew

omit hL in
theorem creates_unique {i i' : Nat} (h : Creates L k i) (h' : Creates L k i') : i = i' := by
  have key : ∀ {p q : Nat}, p < q → Creates L k p → Creates L k q → False := by
    rintro p q hlt ⟨c, hc, hop, rfl, hnew⟩ ⟨d, hd, hdop, hdk, hdnew⟩
    have hq := succ_le_of_get hd
    rcases apply_claim (upTo L p) hop hk with ⟨-, -, hold⟩ | ⟨-, -, hcell, -⟩
    · rw [hold] at hnew
      exact absurd hnew (by decide)
    · rw [← upTo_succ hc] at hcell
      have hcell' := idempotency_mono hlt (Nat.le_of_succ_le hq) hcell
      rcases apply_claim (upTo L q) hdop (by rw [hdk]; exact hk) with
        ⟨-, -, hold⟩ | ⟨-, hans, -, -⟩
      · rw [hold] at hdnew
        exact absurd hdnew (by decide)
      · rw [hdk, hcell'] at hans
        simp [Lib.Once.answer, hdnew] at hans
  rcases Nat.lt_trichotomy i i' with hlt | he | hgt
  · exact (key hlt h h').elim
  · exact he
  · exact (key hgt h' h).elim

omit hL in
theorem creates_of_indexed {i : Nat} (hi : i ≤ L.length) {id : String}
    (h : (upTo L i).idempotency.get k = some id) : ∃ p, Creates L k p := by
  induction i with
  | zero => simp at h
  | succ i ih =>
    obtain ⟨c, hc⟩ := get_lt (Nat.lt_of_succ_le hi)
    cases hprev : (upTo L i).idempotency.get k with
    | some held => 
      have := idempotency_mono (Nat.le_succ i) hi hprev
      rw [h, Option.some.injEq] at this
      subst this
      exact ih (Nat.le_of_succ_le hi) hprev
    | none =>
      rw [upTo_succ hc, apply_idempotency] at h
      split at h
      · rename_i hw
        obtain ⟨hw, hop, rfl, hv⟩ := hw
        refine ⟨i, c, hc, hop, rfl, ?_⟩
        rcases apply_claim (upTo L i) hop hk with ⟨hsame, -, -⟩ | ⟨-, hans, -, -⟩
        · have hcell : (apply (upTo L i) c).1.idempotency.get c.idempotencyKey =
              some c.record.id := by
            rw [apply_idempotency]
            simp [hw, hop, hv]
          rw [hsame, hprev] at hcell
          exact absurd hcell (by simp)
        · rw [hprev] at hans
          simp only [Lib.Once.answer, Prod.mk.injEq] at hans
          exact hans.2
      · rw [hprev] at h
        exact absurd h (by simp)

end Nodes

structure KeyFunctional (k : String) (L : List FsmCommand) : Prop where
  index : ∀ i s, Node L i s → ∀ id, s.idempotency.get k = some id ↔ Carries s id k
  carrier : ∀ i s i' s', Node L i s → Node L i' s' → ∀ id id', Carries s id k →
    Carries s' id' k → id = id'
  answers : ∀ i s c i' s' c', Answers L k i s c → Answers L k i' s' c' →
    (apply s c).2.jobID = (apply s' c').2.jobID
  carried : ∀ i s c i' s' id, Answers L k i s c → Node L i' s' → Carries s' id k →
    (apply s c).2.jobID = id
  created_once : ∀ i s c, Answers L k i s c → ∃! p, Creates L k p
  created_there : ∀ i s c, Answers L k i s c → (apply s c).2.created = true → Creates L k i
  existing : ∀ i s c, Answers L k i s c → (apply s c).2.created = false → (apply s c).1 = s

theorem keyFunctional {L : List FsmCommand} (hL : KeyedLog L) {k : String} (hk : k ≠ "") :
    KeyFunctional k L where
  index i s h := node_index hL hk h
  carrier i s i' s' h h' id id' hc hc' := by
    have h1 := node_final hL h ((node_index hL hk h id).mpr hc)
    have h2 := node_final hL h' ((node_index hL hk h' id').mpr hc')
    rw [h1, Option.some.injEq] at h2
    exact h2
  answers i s c i' s' c' h h' := by
    have h1 := answers_final hL hk h
    rw [answers_final hL hk h', Option.some.injEq] at h1
    exact h1.symm
  carried i s c i' s' id h h' hc := by
    have h1 := node_final hL h' ((node_index hL hk h' id).mpr hc)
    rw [answers_final hL hk h, Option.some.injEq] at h1
    exact h1
  created_once i s c h := by
    obtain ⟨p, hp⟩ := creates_of_indexed hk (le_refl L.length) (answers_final hL hk h)
    exact ⟨p, hp, fun q hq => creates_unique hk hq hp⟩
  created_there i s c h hnew := creates_of_created hL hk h.node h.entry h.op h.key hnew
  existing i s c h hold := by
    have hkey := h.key
    subst hkey
    rcases apply_claim s h.op hk with ⟨hs, -, -⟩ | ⟨-, -, -, hs⟩
    · exact hs
    · exact hs hold

end JobFSM

end Minimodal
