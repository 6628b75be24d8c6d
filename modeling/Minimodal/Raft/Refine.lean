import Minimodal.Lib.Linearize
import Minimodal.Store.Snapshot
import Minimodal.Raft.Store

namespace Minimodal

namespace BoltStore

structure SameCore (a b : BoltStore) : Prop where
  jobs : ∀ k, (a.jobs.get k).map JobRecord.core = (b.jobs.get k).map JobRecord.core
  idempotency : ∀ k, a.idempotency.get k = b.idempotency.get k

/-- A mutator that keeps the id and does not look at versions and timestamps. -/
structure Blind (mutate : JobRecord → Except Err JobRecord) : Prop where
  id : ∀ r q, mutate r = .ok q → q.id = r.id
  unread : ∀ r q, r.core = q.core → (mutate r).map JobRecord.core = (mutate q).map JobRecord.core

namespace SameCore

variable {a b : BoltStore} {k : String} {r q : JobRecord}

theorem refl (a : BoltStore) : SameCore a a := ⟨fun _ => rfl, fun _ => rfl⟩

theorem get_none (h : SameCore a b) (hget : a.jobs.get k = none) : b.jobs.get k = none := by
  have hk := h.jobs k
  rw [hget, Option.map_none] at hk
  exact Option.map_eq_none_iff.mp hk.symm

theorem get_some (h : SameCore a b) (hget : a.jobs.get k = some r) :
    ∃ q, b.jobs.get k = some q ∧ r.core = q.core := by
  have hk := h.jobs k
  rw [hget, Option.map_some] at hk
  obtain ⟨q, hq, hcore⟩ := Option.map_eq_some_iff.mp hk.symm
  exact ⟨q, hq, hcore.symm⟩

theorem insert (h : SameCore a b) (hk : validKey k = true) (hcore : r.core = q.core) :
    SameCore { a with jobs := a.jobs.insert k r hk } { b with jobs := b.jobs.insert k q hk } where
  jobs := by
    intro j
    simp only [Lib.Bucket.get_insert]
    split
    · simp [hcore]
    · exact h.jobs j
  idempotency := h.idempotency

theorem submitTx (h : SameCore a b) (hcore : r.core = q.core) (key : String) :
    SameCore (a.submitTx r key).1 (b.submitTx q key).1 ∧
      (a.submitTx r key).2 = (b.submitTx q key).2 := by
  have hid : r.id = q.id := show r.core.id = q.core.id by rw [hcore]
  have hidx := h.idempotency key
  by_cases hk : key = ""
  · by_cases hv : validKey q.id = true
    · simp only [BoltStore.submitTx, hk, if_true, hid, Bucket.tryPut_ok _ _ hv, and_true]
      exact h.insert hv hcore
    · have he := fun (s : BoltStore) r => Bucket.tryPut_error s.jobs r (Bool.not_eq_true _ ▸ hv)
      simp only [BoltStore.submitTx, hk, if_true, hid, he, and_true]
      exact h
  · cases hget : b.idempotency.get key with
    | some existing =>
      simp only [BoltStore.submitTx, hk, if_false, hidx, hget, and_true]
      exact h
    | none =>
      by_cases hv : validKey q.id = true
      · by_cases hvk : validKey key = true
        · simp only [BoltStore.submitTx, hk, if_false, hidx, hget, hid, Bucket.tryPut_ok _ _ hv,
            Bucket.tryPut_ok _ _ hvk, and_true]
          refine ⟨(h.insert hv hcore).jobs, ?_⟩
          intro j
          simp only [Lib.Bucket.get_insert]
          split
          · rfl
          · exact h.idempotency j
        · have he := fun (s : BoltStore) i =>
            Bucket.tryPut_error s.idempotency i (Bool.not_eq_true _ ▸ hvk)
          simp only [BoltStore.submitTx, hk, if_false, hidx, hget, hid, Bucket.tryPut_ok _ _ hv,
            he, and_true]
          exact h
      · have he := fun (s : BoltStore) r =>
          Bucket.tryPut_error s.jobs r (Bool.not_eq_true _ ▸ hv)
        simp only [BoltStore.submitTx, hk, if_false, hidx, hget, hid, he, and_true]
        exact h

variable {mutate : JobRecord → Except Err JobRecord}

theorem transition_none (h : SameCore a b) (hget : a.jobs.get k = none) (now : Nat) :
    b.transition k mutate now = (b, .error (errNotFound k)) := by
  simp [BoltStore.transition, transitionWith, h.get_none hget]

theorem transition_error (h : SameCore a b) (hm : Blind mutate) {e : Err}
    (hget : a.jobs.get k = some r) (he : mutate r = .error e) (now : Nat) :
    b.transition k mutate now =
      (b, if e = .errSkipTransition then .ok false else .error e) := by
  obtain ⟨q, hq, hcore⟩ := h.get_some hget
  have hmq := hm.unread r q hcore
  rw [he] at hmq
  cases hr : mutate q with
  | ok q' => simp [hr, Except.map] at hmq
  | error e' =>
    simp only [hr, Except.map, Except.error.injEq] at hmq
    subst hmq
    cases e <;> simp [BoltStore.transition, transitionWith, hq, hr]

theorem transition_ok (h : SameCore a b) (hm : Blind mutate) {r' r'' : JobRecord}
    (hget : a.jobs.get k = some r) (ho : mutate r = .ok r') (hr'' : r''.core = r'.core)
    (now : Nat) :
    ∃ b', b.transition k mutate now = (b', .ok true) ∧
      SameCore { a with jobs := a.jobs.insert k r'' (Lib.Bucket.admitted_of_get hget) } b' := by
  obtain ⟨q, hq, hcore⟩ := h.get_some hget
  have hmq := hm.unread r q hcore
  rw [ho] at hmq
  cases hr : mutate q with
  | error e => simp [hr, Except.map] at hmq
  | ok q' =>
    simp only [hr, Except.map, Except.ok.injEq] at hmq
    have hv : validKey k = true := Lib.Bucket.admitted_of_get hget
    refine ⟨{ b with jobs := b.jobs.insert k (q'.stamp now) hv }, ?_, ?_⟩
    · simp [BoltStore.transition, transitionWith, hq, hr, Bucket.tryPut_ok _ _ hv]
    · exact h.insert hv (hr''.trans (hmq.trans (JobRecord.core_stamp _ _).symm))

end SameCore

end BoltStore

namespace RaftStore

open BoltStore

/-- What is asked of the calls: fresh ids to submit, mutators that are blind to
bookkeeping. -/
structure Admissible (prog : Nat → Call) (store : BoltStore) : Prop where
  keyed : store.KeyedById
  fresh : ∀ c rec key, prog c = .submit rec key → store.jobs.get rec.id = none
  distinct : ∀ c d rec rec' key key', prog c = .submit rec key → prog d = .submit rec' key' →
    c ≠ d → rec.id ≠ rec'.id
  blind : ∀ c jobID mutate, prog c = .transition jobID mutate → Blind mutate

def boltCall (prog : Nat → Call) (clock : Nat → Nat) : Lib.Linearize.Object BoltStore Nat Outcome :=
  fun c store =>
    match prog c with
    | .submit rec key =>
      let (store, result) := store.submitWithIdempotency rec key (clock c)
      (store, .submitted result)
    | .transition jobID mutate =>
      let (store, result) := store.transition jobID mutate (clock c)
      (store, .transitioned result)

def result (s : State) (c : Nat) : Option Outcome :=
  match s.pc c with
  | .returned out => some out
  | _ => none

/-- Committing calls stand at their log entry, the others at one of their reads. -/
def Placed (c : Nat) : Outcome → Action → Prop
  | .submitted _, a => a = .apply c
  | .transitioned (.ok true), a => a = .apply c
  | _, a => ∃ now, a = .read c now

theorem Placed.action {c : Nat} {out : Outcome} {a : Action} (h : Placed c out a) :
    a = .apply c ∨ ∃ now, a = .read c now := by
  unfold Placed at h
  split at h
  · exact .inl h
  · exact .inl h
  · exact .inr h

def observation : Lib.Linearize.Observation State Action Nat Outcome where
  result := result
  void
    | .gaveUp _ => true
    | _ => false
  place := Placed
  owner := by
    intro i j r r' a hi hj
    obtain rfl | ⟨now, rfl⟩ := hi.action <;> simpa [eq_comm] using hj.action

def Current (store : BoltStore) (rec : JobRecord) : Prop :=
  ∃ held, store.jobs.get rec.id = some held ∧ rec.version ≤ held.version ∧
    (held.version = rec.version → held = rec)

def Justified (prog : Nat → Call) (as : List Action) (store : BoltStore) (c : Nat)
    (cmd : FsmCommand) : Prop :=
  match prog c with
  | .submit rec key => ∃ now, cmd = submitCommand rec key now
  | .transition jobID mutate =>
    (∃ (p now : Nat), as[p]? = some (Action.read c now)) ∧
      ∃ rec cur now, mutate rec = .ok cur ∧ rec.id = jobID ∧ cur.id = jobID ∧
        cmd = casCommand rec cur now ∧ Current store rec

structure Inv (prog : Nat → Call) (as : List Action) (s : State) : Prop where
  keyed : s.store.KeyedById
  unborn : ∀ c rec key, prog c = .submit rec key → result s c = none →
    s.store.jobs.get rec.id = none
  waiting : ∀ c attempt cmd, s.pc c = .proposed attempt cmd → Justified prog as s.store c cmd

variable {prog : Nat → Call} {clock : Nat → Nat} {store₀ : BoltStore} {as : List Action}
  {s t : State} {e : List Empty} {c d now : Nat} {cmd : FsmCommand}

theorem result_self {store : BoltStore} {pc : Pc} :
    result (s.goto store c pc) c = match pc with | .returned out => some out | _ => none := by
  simp [result]

theorem result_returned {store : BoltStore} {out : Outcome} :
    result (s.goto store c (.returned out)) c = some out := by
  simp [result]

theorem result_ne {store : BoltStore} {pc : Pc} (h : d ≠ c) :
    result (s.goto store c pc) d = result s d := by
  simp [result, s.goto_ne store pc h]

theorem Justified.append {store : BoltStore} (h : Justified prog as store c cmd) (a : Action) :
    Justified prog (as ++ [a]) store c cmd := by
  unfold Justified at h ⊢
  split at h
  · exact h
  · obtain ⟨⟨p, now, hp⟩, hrest⟩ := h
    refine ⟨⟨p, now, ?_⟩, hrest⟩
    rw [List.getElem?_append_left (List.getElem?_eq_some_iff.mp hp).1, hp]

theorem Justified.mono {store store' : BoltStore}
    (hcur : ∀ rec, Current store rec → Current store' rec)
    (h : Justified prog as store c cmd) : Justified prog as store' c cmd := by
  unfold Justified at h ⊢
  split at h
  · exact h
  · obtain ⟨hp, rec, cur, now, hm, hid, hid', hcmd, hrec⟩ := h
    exact ⟨hp, rec, cur, now, hm, hid, hid', hcmd, hcur rec hrec⟩

theorem Current.of_get {store : BoltStore} {rec : JobRecord}
    (h : store.jobs.get rec.id = some rec) : Current store rec :=
  ⟨rec, h, le_refl _, fun _ => rfl⟩

theorem Current.apply {store : BoltStore} {rec : JobRecord} (h : Current store rec)
    (hrise : ∀ held, JobFSM.writes store cmd = true →
      store.jobs.get cmd.record.id = some held → held.version < cmd.record.version) :
    Current (JobFSM.apply store cmd).1 rec := by
  obtain ⟨held, hget, hle, heq⟩ := h
  by_cases hw : JobFSM.writes store cmd = true ∧ cmd.record.id = rec.id
  · have hlt := hrise held hw.1 (hw.2 ▸ hget)
    refine ⟨cmd.record, ?_, by omega, by omega⟩
    rw [JobFSM.apply_jobs, if_pos hw]
  · refine ⟨held, ?_, hle, heq⟩
    rw [JobFSM.apply_jobs, if_neg hw, hget]

theorem Inv.goto (h : Inv prog as s) (a : Action) {store : BoltStore} {pc : Pc}
    (hkeyed : store.KeyedById)
    (hothers : ∀ d rec key, d ≠ c → prog d = .submit rec key → result s d = none →
      store.jobs.get rec.id = none)
    (hself : ∀ rec key, prog c = .submit rec key → result (s.goto store c pc) c = none →
      store.jobs.get rec.id = none)
    (hcur : ∀ rec, Current s.store rec → Current store rec)
    (hpc : ∀ attempt cmd, pc = .proposed attempt cmd → Justified prog (as ++ [a]) store c cmd) :
    Inv prog (as ++ [a]) (s.goto store c pc) where
  keyed := hkeyed
  unborn := by
    intro d rec key hprog hres
    by_cases hd : d = c
    · subst hd
      exact hself rec key hprog hres
    · rw [result_ne hd] at hres
      exact hothers d rec key hd hprog hres
  waiting := by
    intro d attempt cmd hp
    by_cases hd : d = c
    · subst hd
      rw [State.goto_self] at hp
      exact hpc attempt cmd hp
    · rw [State.goto_ne s store pc hd] at hp
      exact ((h.waiting d attempt cmd hp).append a).mono hcur

theorem Inv.goto_same (h : Inv prog as s) (a : Action) {pc : Pc} (hres : result s c = none)
    (hpc : ∀ attempt cmd, pc = .proposed attempt cmd →
      Justified prog (as ++ [a]) s.store c cmd) :
    Inv prog (as ++ [a]) (s.goto s.store c pc) :=
  h.goto a h.keyed (fun d rec key _ hprog hd => h.unborn d rec key hprog hd)
    (fun rec key hprog _ => h.unborn c rec key hprog hres) (fun _ hrec => hrec) hpc

section Apply

variable {attempt : Nat} (h : Inv prog as s) (hpc : s.pc c = .proposed attempt cmd)
include h hpc

theorem Inv.rises {held : JobRecord} (hw : JobFSM.writes s.store cmd = true)
    (hget : s.store.jobs.get cmd.record.id = some held) : held.version < cmd.record.version := by
  have hj := h.waiting c attempt cmd hpc
  cases hprog : prog c with
  | submit rec key =>
    simp only [Justified, hprog] at hj
    obtain ⟨now, rfl⟩ := hj
    have hnone := h.unborn c rec key hprog (by simp [result, hpc])
    simp only [submitCommand, JobRecord.stamp_id] at hget
    simp [hnone] at hget
  | transition jobID mutate =>
    simp only [Justified, hprog] at hj
    obtain ⟨-, rec, cur, now, -, -, -, rfl, -⟩ := hj
    simp only [JobFSM.writes, casCommand_op, hget] at hw
    have hver : held.version = rec.version := of_decide_eq_true hw
    rw [hver]
    exact lt_add_one rec.version

theorem Inv.apply_current {rec : JobRecord} (hrec : Current s.store rec) :
    Current (JobFSM.apply s.store cmd).1 rec :=
  hrec.apply fun _ hw hget => h.rises hpc hw hget

theorem Inv.apply_unborn (hprog : Admissible prog store₀) {rec : JobRecord} {key : String}
    (hd : d ≠ c) (hsub : prog d = .submit rec key) (hres : result s d = none) :
    (JobFSM.apply s.store cmd).1.jobs.get rec.id = none := by
  have hnone := h.unborn d rec key hsub hres
  rw [JobFSM.apply_jobs, if_neg]
  · exact hnone
  rintro ⟨-, hid⟩
  have hj := h.waiting c attempt cmd hpc
  cases hcall : prog c with
  | submit rec' key' =>
    simp only [Justified, hcall] at hj
    obtain ⟨now, rfl⟩ := hj
    exact hprog.distinct c d rec' rec key' key hcall hsub (Ne.symm hd) hid
  | transition jobID mutate =>
    simp only [Justified, hcall] at hj
    obtain ⟨-, rec', cur, now, -, hid', hid'', rfl, held, hget, -⟩ := hj
    have hcur : cur.id = rec.id := hid
    rw [hid', ← hid'', hcur, hnone] at hget
    simp at hget

end Apply

theorem afterApply_submit (store : BoltStore) (rec : JobRecord) (key : String) (now attempt : Nat) :
    afterApply (.submit rec key) attempt (JobFSM.apply store (submitCommand rec key now)).2 =
      .returned (.submitted (store.submitTx (submitCommand rec key now).record key).2) := by
  simp only [JobFSM.apply, submitCommand, submitRaw]
  rcases store.submitTx _ key with ⟨store', _ | ⟨id, created⟩⟩ <;> rfl

theorem apply_submit_store (store : BoltStore) (rec : JobRecord) (key : String) (now : Nat) :
    (JobFSM.apply store (submitCommand rec key now)).1 =
      (store.submitTx (submitCommand rec key now).record key).1 := by
  simp only [JobFSM.apply, submitCommand, submitRaw]
  rcases store.submitTx _ key with ⟨store', _ | ⟨id, created⟩⟩ <;> rfl

theorem apply_cas_conflict {store : BoltStore} {rec cur held : JobRecord} {now : Nat}
    (hget : store.jobs.get cur.id = some held) (hver : held.version ≠ rec.version) :
    JobFSM.apply store (casCommand rec cur now) = (store, { conflict := true }) := by
  simp [JobFSM.apply, casCommand, casPut, hget, hver]

theorem apply_cas_commit {store : BoltStore} {rec cur held : JobRecord} {now : Nat}
    (hget : store.jobs.get cur.id = some held) (hver : held.version = rec.version) :
    JobFSM.apply store (casCommand rec cur now) =
      (⟨store.jobs.insert cur.id (casCommand rec cur now).record
          (Lib.Bucket.admitted_of_get hget), store.idempotency⟩, {}) := by
  simp [JobFSM.apply, casCommand, casPut, hget, hver,
    Bucket.tryPut_ok _ _ (Lib.Bucket.admitted_of_get hget)]

def Ordered (prog : Nat → Call) (clock : Nat → Nat) (store₀ : BoltStore) (as : List Action)
    (s : State) : Prop :=
  ∃ lin store, Lib.Linearize.Linearized observation (boltCall prog clock) as s store₀ lin store ∧
    SameCore s.store store

theorem Ordered.silent (h : Ordered prog clock store₀ as s) (a : Action) {pc : Pc}
    (hres : result s c = none) (hpc : ∀ out, pc ≠ .returned out) :
    Ordered prog clock store₀ (as ++ [a]) (s.goto s.store c pc) := by
  obtain ⟨lin, store, hlin, hsame⟩ := h
  refine ⟨lin, store, hlin.silent a ?_, hsame⟩
  intro d
  by_cases hd : d = c
  · subst hd
    change result _ d = result s d
    rw [hres, result_self]
    cases pc with
    | returned out => exact absurd rfl (hpc out)
    | _ => rfl
  · exact result_ne hd

theorem Ordered.commit (h : Ordered prog clock store₀ as s) (a : Action) {store' : BoltStore}
    {out : Outcome} (hres : result s c = none)
    (hcall : ∀ store, SameCore s.store store →
      ∃ b, boltCall prog clock c store = (b, out) ∧ SameCore store' b)
    (hvoid : observation.void out = false) (hplace : Placed c out a) :
    Ordered prog clock store₀ (as ++ [a]) (s.goto store' c (.returned out)) := by
  obtain ⟨lin, store, hlin, hsame⟩ := h
  obtain ⟨b, hb, hsame'⟩ := hcall store hsame
  exact ⟨_, b, hlin.commit hres result_returned (fun d hd => result_ne hd) hb hvoid hplace, hsame'⟩

theorem Ordered.abandon (h : Ordered prog clock store₀ as s) (a : Action) {p : Nat} {b : Action}
    {out : Outcome} (hres : result s c = none) (hb : as[p]? = some b)
    (hvoid : observation.void out = true) (hplace : Placed c out b) :
    Ordered prog clock store₀ (as ++ [a]) (s.goto s.store c (.returned out)) := by
  obtain ⟨lin, store, hlin, hsame⟩ := h
  exact ⟨_, store, hlin.abandon hres result_returned (fun d hd => result_ne hd) hb hvoid hplace, hsame⟩

section Step

variable (hprog : Admissible prog store₀) (hinv : Inv prog as s)
  (hord : Ordered prog clock store₀ as s)
include hinv hord

theorem start_ordered (hstep : step prog s (.start c now) = some (t, e)) :
    Inv prog (as ++ [Action.start c now]) t ∧
      Ordered prog clock store₀ (as ++ [Action.start c now]) t := by
  obtain ⟨hpc, ⟨rec, key, hcall, rfl⟩ | ⟨jobID, mutate, hcall, rfl⟩⟩ := step_start hstep
  · have hres : result s c = none := by simp [result, hpc]
    refine ⟨hinv.goto_same _ hres ?_, hord.silent _ hres (by simp)⟩
    intro attempt cmd he
    simp only [Pc.proposed.injEq] at he
    simp only [Justified, hcall]
    exact ⟨now, he.2.symm⟩
  · have hres : result s c = none := by simp [result, hpc]
    exact ⟨hinv.goto_same _ hres (by simp), hord.silent _ hres (by simp)⟩

include hprog

theorem read_ordered (hstep : step prog s (.read c now) = some (t, e)) :
    Inv prog (as ++ [Action.read c now]) t ∧
      Ordered prog clock store₀ (as ++ [Action.read c now]) t := by
  obtain ⟨attempt, jobID, mutate, hpc, hcall, rfl⟩ := step_read hstep
  have hres : result s c = none := by simp [result, hpc]
  have hblind := hprog.blind c jobID mutate hcall
  cases hget : s.store.getJob jobID with
  | none =>
    simp only [afterRead, hget]
    refine ⟨hinv.goto_same _ hres (by simp), hord.commit _ hres ?_ rfl ⟨now, rfl⟩⟩
    intro store hsame
    simp [boltCall, hcall, hsame.transition_none hget, hsame]
  | some rec =>
    cases hm : mutate rec with
    | error e =>
      have hcommit : ∀ store, SameCore s.store store → ∃ b, boltCall prog clock c store =
          (b, .transitioned (if e = .errSkipTransition then .ok false else .error e)) ∧
            SameCore s.store b := by
        intro store hsame
        simp [boltCall, hcall, hsame.transition_error hblind hget hm, hsame]
      have hafter : afterRead s.store jobID mutate attempt now =
          .returned (.transitioned (if e = .errSkipTransition then .ok false else .error e)) := by
        simp only [afterRead, hget, hm]
        cases e <;> rfl
      rw [hafter]
      refine ⟨hinv.goto_same _ hres (by simp), hord.commit _ hres hcommit rfl ?_⟩
      split <;> exact ⟨now, rfl⟩
    | ok cur =>
      simp only [afterRead, hget, hm]
      refine ⟨hinv.goto_same _ hres ?_, hord.silent _ hres (by simp)⟩
      intro attempt' cmd he
      simp only [Pc.proposed.injEq] at he
      have hid : rec.id = jobID := hinv.keyed jobID rec hget
      simp only [Justified, hcall]
      refine ⟨⟨as.length, now, by simp⟩, rec, cur, now, hm, hid, ?_, he.2.symm, ?_⟩
      · rw [hblind.id rec cur hm, hid]
      · exact Current.of_get (hid.symm ▸ hget)

theorem apply_ordered (hstep : step prog s (.apply c) = some (t, e)) :
    Inv prog (as ++ [Action.apply c]) t ∧
      Ordered prog clock store₀ (as ++ [Action.apply c]) t := by
  obtain ⟨attempt, cmd, hpc, rfl⟩ := step_apply hstep
  have hres : result s c = none := by simp [result, hpc]
  have hkeyed := JobFSM.keyedById_apply hinv.keyed cmd
  have hj := hinv.waiting c attempt cmd hpc
  cases hcall : prog c with
  | submit rec key =>
    simp only [Justified, hcall] at hj
    obtain ⟨now, rfl⟩ := hj
    rw [afterApply_submit]
    refine ⟨hinv.goto _ hkeyed ?_ ?_ (fun rec hrec => hinv.apply_current hpc hrec) (by simp),
      hord.commit _ hres ?_ rfl rfl⟩
    · intro d rec' key' hd hsub hnone
      exact hinv.apply_unborn hpc hprog hd hsub hnone
    · intro rec' key' _ hnone
      simp [result_returned] at hnone
    · intro store hsame
      have hcore : (submitCommand rec key now).record.core =
          (({ rec with idempotencyKey := key } : JobRecord).stamp (clock c)).core := rfl
      obtain ⟨hsame', hout⟩ := hsame.submitTx hcore key
      refine ⟨_, ?_, apply_submit_store s.store rec key now ▸ hsame'⟩
      simp only [boltCall, hcall, submitWithIdempotency, hout]
  | transition jobID mutate =>
    simp only [Justified, hcall] at hj
    obtain ⟨⟨p, rnow, hp⟩, rec, cur, now, hm, hid, hid', rfl, held, hget, hle, heq⟩ := hj
    have hget' : s.store.jobs.get cur.id = some held := by rw [hid', ← hid, hget]
    have hinv' : ∀ pc, (∀ attempt cmd, pc ≠ .proposed attempt cmd) →
        Inv prog (as ++ [Action.apply c])
          (s.goto (JobFSM.apply s.store (casCommand rec cur now)).1 c pc) := by
      intro pc hnp
      refine hinv.goto _ hkeyed ?_ ?_ (fun rec hrec => hinv.apply_current hpc hrec)
        (fun n cmd he => absurd he (hnp n cmd))
      · intro d rec' key' hd hsub hnone
        exact hinv.apply_unborn hpc hprog hd hsub hnone
      · intro rec' key' hsub
        simp [hcall] at hsub
    by_cases hver : held.version = rec.version
    · -- nobody wrote the job since it was read, so the mutator saw the stored record
      obtain rfl := heq hver
      refine ⟨hinv' _ (by simp [apply_cas_commit hget' hver, afterApply]), ?_⟩
      rw [apply_cas_commit hget' hver]
      refine hord.commit _ hres ?_ rfl rfl
      intro store hsame
      have hcore : (casCommand held cur now).record.core = cur.core := rfl
      obtain ⟨b, hb, hsame'⟩ :=
        hsame.transition_ok (hprog.blind c jobID mutate hcall) hget' hm hcore (clock c)
      refine ⟨b, ?_, hsame'⟩
      simp only [boltCall, hcall]
      rw [← hid', hb]
    · by_cases hmore : attempt + 1 < maxCASRetries
      · have hafter : afterApply (.transition jobID mutate) attempt { conflict := true } =
            .read (attempt + 1) := by
          simp [afterApply, hmore]
        have hgoto := hinv' (.read (attempt + 1)) (by simp)
        rw [apply_cas_conflict hget' hver] at hgoto ⊢
        rw [hafter]
        exact ⟨hgoto, hord.silent _ hres (by simp)⟩
      · have hafter : afterApply (.transition jobID mutate) attempt { conflict := true } =
            .returned (.gaveUp (errGaveUp jobID)) := by
          simp [afterApply, hmore]
        have hgoto := hinv' (.returned (.gaveUp (errGaveUp jobID))) (by simp)
        rw [apply_cas_conflict hget' hver] at hgoto ⊢
        rw [hafter]
        exact ⟨hgoto, hord.abandon _ hres hp rfl ⟨rnow, rfl⟩⟩

end Step

/-- Concurrent calls on a stable leader have a sequential order: each call stands at
an action of its own, and a `BoltStore` that takes the calls in that order, without
those that gave up, returns the same values and ends in the same buckets. -/
theorem raftStore_refines_boltStore (hprog : Admissible prog store₀) (clock : Nat → Nat)
    {es : List Empty} (hrun : (machine prog).Run Lib.Machine.Always (init store₀) as es s) :
    ∃ lin store, Lib.Linearize.Linearized observation (boltCall prog clock) as s store₀ lin store ∧
      SameCore s.store store := by
  suffices h : Inv prog as s ∧ Ordered prog clock store₀ as s from h.2
  induction hrun with
  | refl =>
    refine ⟨⟨hprog.keyed, fun c rec key hc _ => hprog.fresh c rec key hc, ?_⟩, [], store₀, ?_⟩
    · simp [init]
    · exact ⟨.nil fun _ => rfl, .refl _⟩
  | @tail as es t a u e _ _ hstep ih =>
    cases a with
    | start c now => exact start_ordered ih.1 ih.2 hstep
    | read c now => exact read_ordered hprog ih.1 ih.2 hstep
    | apply c => exact apply_ordered hprog ih.1 ih.2 hstep

def sampleCalls : Nat → Call
  | 0 => .submit { id := "j", status := .pending } "k"
  | 1 => .transition "j" fun r =>
    if r.terminal then .error .errSkipTransition
    else .ok { r with status := .running, workerID := "w" }
  | _ => .transition "j" fun r => .ok { r with retryCount := r.retryCount + 1 }

theorem eq_zero_of_sampleCalls {c : Nat} {rec : JobRecord} {key : String}
    (h : sampleCalls c = .submit rec key) : c = 0 := by
  unfold sampleCalls at h
  split at h
  · rfl
  · cases h
  · cases h

theorem sampleCalls_admissible : Admissible sampleCalls .empty where
  keyed := by simp [KeyedById]
  fresh := by simp
  distinct c d rec rec' key key' hc hd hne :=
    absurd ((eq_zero_of_sampleCalls hc).trans (eq_zero_of_sampleCalls hd).symm) hne
  blind := by
    intro c jobID mutate hc
    unfold sampleCalls at hc
    split at hc
    · cases hc
    · simp only [Call.transition.injEq] at hc
      obtain ⟨rfl, rfl⟩ := hc
      refine ⟨?_, ?_⟩
      · intro r q h
        split at h
        · simp at h
        · simp only [Except.ok.injEq] at h
          rw [← h]
      · intro r q h
        simp only [JobRecord.core, JobRecord.mk.injEq] at h
        have hterm : r.terminal = q.terminal := by simp [JobRecord.terminal, h.2.1]
        by_cases hq : q.terminal = true
        · simp [hterm, hq, Except.map]
        · simp [hterm, hq, Except.map, JobRecord.core, h]
    · simp only [Call.transition.injEq] at hc
      obtain ⟨rfl, rfl⟩ := hc
      refine ⟨?_, ?_⟩
      · intro r q h
        simp only [Except.ok.injEq] at h
        rw [← h]
      · intro r q h
        simp only [JobRecord.core, JobRecord.mk.injEq] at h
        simp [Except.map, JobRecord.core, h]

def sampleActions : List Action :=
  [.start 0 1, .apply 0, .start 1 2, .start 2 2, .read 1 3, .read 2 4, .apply 1, .apply 2,
    .read 2 5, .apply 2]

def sampleEnd : State × List Empty :=
  ((machine sampleCalls).exec (fun _ _ => true) (init .empty) sampleActions).get (by decide)

theorem raftStore_refines_boltStore_sampleCalls :
    (result sampleEnd.1 0 = some (.submitted (.ok ("j", true))) ∧
      result sampleEnd.1 1 = some (.transitioned (.ok true)) ∧
      result sampleEnd.1 2 = some (.transitioned (.ok true))) ∧
    ∃ lin store, Lib.Linearize.Linearized observation (boltCall sampleCalls fun _ => 9)
      sampleActions sampleEnd.1 .empty lin store ∧ SameCore sampleEnd.1.store store :=
  ⟨by decide, raftStore_refines_boltStore sampleCalls_admissible _
    ((Lib.Machine.run_of_exec_get (by decide)).mono fun _ _ _ => trivial)⟩

end RaftStore

end Minimodal
