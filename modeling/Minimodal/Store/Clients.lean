import Minimodal.Lib.Once
import Minimodal.Store.Snapshot

namespace Minimodal

namespace BoltStore

structure Indexed (s : BoltStore) : Prop where
  keyed : s.KeyedById
  forward : ∀ k id, s.idempotency.get k = some id →
    ∃ r, s.jobs.get id = some r ∧ r.idempotencyKey = k
  backward : ∀ id r, s.jobs.get id = some r → r.idempotencyKey ≠ "" →
    s.idempotency.get r.idempotencyKey = some id

theorem Indexed.of_empty : Indexed empty where
  keyed := by simp [KeyedById]
  forward := by simp
  backward := by simp

theorem Indexed.rewrite {s : BoltStore} (h : Indexed s) {id : String} {r r' : JobRecord}
    (hget : s.jobs.get id = some r) (hid : r'.id = id)
    (hkey : r'.idempotencyKey = r.idempotencyKey) (hv : validKey id = true) :
    Indexed { s with jobs := s.jobs.insert id r' hv } where
  keyed := h.keyed.insert hid hv _
  forward := by
    intro k j hj
    obtain ⟨x, hx, hxk⟩ := h.forward k j hj
    by_cases hij : id = j
    · subst hij
      rw [hget] at hx
      cases hx
      exact ⟨r', by simp, hkey.trans hxk⟩
    · exact ⟨x, by simp [Lib.Bucket.get_insert, hij, hx], hxk⟩
  backward := by
    intro j x hx hne
    rw [Lib.Bucket.get_insert] at hx
    split at hx
    · rename_i hj
      cases hx
      subst hj
      rw [hkey] at hne ⊢
      exact h.backward id r hget hne
    · exact h.backward j x hx hne

theorem Indexed.insert {s : BoltStore} (h : Indexed s) {r : JobRecord}
    (hfresh : s.jobs.get r.id = none) (hv : validKey r.id = true) (hkey : r.idempotencyKey = "") :
    Indexed { s with jobs := s.jobs.insert r.id r hv } where
  keyed := h.keyed.insert rfl hv _
  forward := by
    intro k j hj
    obtain ⟨x, hx, hxk⟩ := h.forward k j hj
    refine ⟨x, ?_, hxk⟩
    rw [Lib.Bucket.get_insert_ne]
    · exact hx
    · rintro rfl
      simp [hfresh] at hx
  backward := by
    intro j x hx hne
    rw [Lib.Bucket.get_insert] at hx
    split at hx
    · cases hx
      exact absurd hkey hne
    · exact h.backward j x hx hne

theorem Indexed.insert_keyed {s : BoltStore} (h : Indexed s) {r : JobRecord}
    (hfresh : s.jobs.get r.id = none) (hv : validKey r.id = true)
    (hk : validKey r.idempotencyKey = true)
    (hfree : s.idempotency.get r.idempotencyKey = none) :
    Indexed ⟨s.jobs.insert r.id r hv, s.idempotency.insert r.idempotencyKey r.id hk⟩ where
  keyed := h.keyed.insert rfl hv _
  forward := by
    intro k j hj
    rw [Lib.Bucket.get_insert] at hj
    split at hj
    · rename_i hkk
      cases hj
      exact ⟨r, by simp, hkk⟩
    · obtain ⟨x, hx, hxk⟩ := h.forward k j hj
      refine ⟨x, ?_, hxk⟩
      rw [Lib.Bucket.get_insert_ne]
      · exact hx
      · rintro rfl
        simp [hfresh] at hx
  backward := by
    intro j x hx hne
    rw [Lib.Bucket.get_insert] at hx
    split at hx
    · rename_i hj
      cases hx
      simp [hj]
    · have hb := h.backward j x hx hne
      rw [Lib.Bucket.get_insert_ne]
      · exact hb
      · intro he
        rw [he, hfree] at hb
        exact absurd hb (by simp)

theorem Indexed.submitTx {s : BoltStore} (h : Indexed s) {r : JobRecord} {key : String}
    (hfresh : s.jobs.get r.id = none) (hkey : r.idempotencyKey = key) :
    Indexed (s.submitTx r key).1 := by
  rcases s.submitTx_cases r key with ⟨_, _, _, he⟩ | ⟨_, he⟩ | ⟨hv, ⟨hk, he⟩ | ⟨hk, hfree, he⟩⟩
  · simpa [he] using h
  · simpa [he] using h
  · rw [he]
    exact h.insert hfresh hv (hkey.trans hk)
  · rw [he]
    subst hkey
    exact h.insert_keyed hfresh hv hk hfree

theorem submitTx_permanent {s : BoltStore} {r : JobRecord} {key k id : String}
    (h : s.idempotency.get k = some id) : (s.submitTx r key).1.idempotency.get k = some id := by
  rcases s.submitTx_cases r key with ⟨_, _, _, he⟩ | ⟨_, he⟩ | ⟨hv, ⟨hk, he⟩ | ⟨hk, hfree, he⟩⟩
  · rw [he]
    exact h
  · rw [he]
    exact h
  · rw [he]
    exact h
  · rw [he]
    simp only
    rw [Lib.Bucket.get_insert_ne]
    · exact h
    · rintro rfl
      rw [hfree] at h
      exact absurd h (by simp)

theorem submitTx_claim (s : BoltStore) (r : JobRecord) {key : String} (hk : key ≠ "") :
    (∃ e, s.submitTx r key = (s, .error e)) ∨
    (s.submitTx r key).2 = .ok (Lib.Once.answer (s.idempotency.get key) r.id) ∧
      (s.submitTx r key).1.idempotency.get key =
        some (Lib.Once.answer (s.idempotency.get key) r.id).1 := by
  rcases s.submitTx_cases r key with
    ⟨existing, _, hidx, he⟩ | ⟨e, he⟩ | ⟨hv, ⟨hk', he⟩ | ⟨hk', hfree, he⟩⟩
  · exact .inr (by simp [he, hidx, Lib.Once.answer])
  · exact .inl ⟨e, he⟩
  · exact absurd hk' hk
  · exact .inr (by simp [he, hfree, Lib.Once.answer])

theorem submitTx_idempotency_ne {s : BoltStore} {r : JobRecord} {key k : String} (hk : k ≠ key) :
    (s.submitTx r key).1.idempotency.get k = s.idempotency.get k := by
  rcases s.submitTx_cases r key with ⟨_, _, _, he⟩ | ⟨_, he⟩ | ⟨hv, ⟨_, he⟩ | ⟨hk', _, he⟩⟩
  · rw [he]
  · rw [he]
  · rw [he]
  · rw [he]
    exact Lib.Bucket.get_insert_ne _ _ hk' hk

theorem Indexed.iff {s : BoltStore} (h : Indexed s) {k id : String} (hk : k ≠ "") :
    s.idempotency.get k = some id ↔ ∃ r, s.jobs.get id = some r ∧ r.idempotencyKey = k := by
  constructor
  · exact h.forward k id
  · rintro ⟨r, hr, rfl⟩
    exact h.backward id r hr hk

end BoltStore

namespace Clients

/-- Callers of one database file. A submit whose transaction has committed waits in
`pending` until it returns; a crash loses it there. -/
structure State where
  store : BoltStore
  pending : Nat → Option (String × Except Err (String × Bool))

inductive Action
  | submit (call : Nat) (rec : JobRecord) (key : String) (now : Nat)
  | reply (call : Nat)
  | transition (jobID : String) (mutate : JobRecord → Except Err JobRecord) (now : Nat)
  | crash

inductive Event
  | committed (call : Nat) (key : String) (result : Except Err (String × Bool))
  | returned (call : Nat) (key : String) (result : Except Err (String × Bool))
  | crashed
  deriving DecidableEq

def step (s : State) : Action → Option (State × List Event)
  | .submit call rec key now =>
    match s.pending call with
    | some _ => none
    | none =>
      let (store, result) := s.store.submitWithIdempotency rec key now
      some ({ store, pending := Function.update s.pending call (some (key, result)) },
        [.committed call key result])
  | .reply call =>
    match s.pending call with
    | none => none
    | some (key, result) =>
      some ({ s with pending := Function.update s.pending call none },
        [.returned call key result])
  | .transition jobID mutate now =>
    some ({ s with store := (s.store.transition jobID mutate now).1 }, [])
  | .crash => some ({ s with pending := fun _ => none }, [.crashed])

def machine : Lib.Machine State Action Event := ⟨step⟩

def init : State := ⟨.empty, fun _ => none⟩

def PreservesKey (mutate : JobRecord → Except Err JobRecord) : Prop :=
  ∀ r r', mutate r = .ok r' → r'.id = r.id ∧ r'.idempotencyKey = r.idempotencyKey

def Allowed (s : State) : Action → Prop
  | .submit _ rec _ _ => s.store.jobs.get rec.id = none
  | .transition _ mutate _ => PreservesKey mutate
  | _ => True

theorem step_store {s t : State} {a : Action} {e : List Event} (hst : step s a = some (t, e)) :
    t.store = s.store ∨
    (∃ call rec key now, a = .submit call rec key now ∧
      t.store = (s.store.submitWithIdempotency rec key now).1) ∨
    ∃ jobID mutate now, a = .transition jobID mutate now ∧
      t.store = (s.store.transition jobID mutate now).1 := by
  cases a with
  | submit call rec key now =>
    simp only [step] at hst
    split at hst
    · simp at hst
    · simp only [Option.some.injEq, Prod.mk.injEq] at hst
      exact .inr (.inl ⟨call, rec, key, now, rfl, by rw [← hst.1]⟩)
  | reply call =>
    simp only [step] at hst
    split at hst
    · simp at hst
    · simp only [Option.some.injEq, Prod.mk.injEq] at hst
      exact .inl (by rw [← hst.1])
  | transition jobID mutate now =>
    simp only [step, Option.some.injEq, Prod.mk.injEq] at hst
    exact .inr (.inr ⟨jobID, mutate, now, rfl, by rw [← hst.1]⟩)
  | crash =>
    simp only [step, Option.some.injEq, Prod.mk.injEq] at hst
    exact .inl (by rw [← hst.1])

theorem step_indexed {s t : State} {a : Action} {e : List Event} (h : s.store.Indexed)
    (hok : Allowed s a) (hst : step s a = some (t, e)) : t.store.Indexed := by
  rcases step_store hst with he | ⟨call, rec, key, now, rfl, he⟩ | ⟨jobID, mutate, now, rfl, he⟩
  · rw [he]
    exact h
  · rw [he]
    exact h.submitTx hok rfl
  · rw [he]
    rcases s.store.transition_cases jobID mutate now with
      ⟨hs, -⟩ | ⟨rec, rec', hv, hget, hm, hs⟩
    · rw [hs]
      exact h
    · obtain ⟨hid, hkey⟩ := hok rec rec' hm
      rw [hs]
      refine h.rewrite hget ?_ ?_ hv
      · exact hid.trans (h.keyed jobID rec hget)
      · exact hkey

theorem step_permanent {s t : State} {a : Action} {e : List Event} {k id : String}
    (hst : step s a = some (t, e)) (h : s.store.idempotency.get k = some id) :
    t.store.idempotency.get k = some id := by
  rcases step_store hst with he | ⟨call, rec, key, now, rfl, he⟩ | ⟨jobID, mutate, now, rfl, he⟩
  · rw [he]
    exact h
  · rw [he]
    exact BoltStore.submitTx_permanent h
  · rw [he]
    rcases s.store.transition_cases jobID mutate now with ⟨hs, -⟩ | ⟨_, _, _, _, _, hs⟩
    · rw [hs]
      exact h
    · rw [hs]
      exact h

def answerFor (k : String) : String × Except Err (String × Bool) → Option (String × Bool)
  | (key, .ok a) => if key = k then some a else none
  | (_, .error _) => none

/-- The callers as one key sees them: a write-once cell holding a job id. -/
def view (k : String) (s : State) : Lib.Once.State Nat String where
  cell := s.store.idempotency.get k
  pending := fun call => (s.pending call).bind (answerFor k)

def viewEvent (k : String) : Event → Option (Lib.Once.Event Nat String)
  | .committed call key result => (answerFor k (key, result)).map (.claimed call)
  | .returned call key result => (answerFor k (key, result)).map (.returned call)
  | .crashed => some .crashed

theorem view_update (k : String) (store : BoltStore) (pending : Nat → Option (String × Except Err (String × Bool)))
    (call : Nat) (x : Option (String × Except Err (String × Bool))) :
    view k ⟨store, Function.update pending call x⟩ =
      ⟨store.idempotency.get k, Function.update (view k ⟨store, pending⟩).pending call
        (x.bind (answerFor k))⟩ := by
  simp only [view, Lib.Once.State.mk.injEq, true_and]
  funext c
  by_cases hc : c = call
  · subst hc
    simp
  · simp [Function.update_of_ne hc]

theorem view_idle {k : String} {s : State} {call : Nat} (h : (view k s).pending call = none) :
    (⟨s.store.idempotency.get k, Function.update (view k s).pending call none⟩ :
      Lib.Once.State Nat String) = view k s := by
  rw [Function.update_eq_self_iff.mpr h.symm]
  rfl

theorem view_step {k : String} (hk : k ≠ "") {s t : State} {a : Action} {e : List Event}
    (hst : step s a = some (t, e)) :
    ∃ bs, Lib.Once.machine.Run Lib.Machine.Always (view k s) bs (e.filterMap (viewEvent k))
      (view k t) := by
  cases a with
  | submit call rec key now =>
    simp only [step] at hst
    split at hst
    · simp at hst
    rename_i hfree
    simp only [Option.some.injEq, Prod.mk.injEq] at hst
    obtain ⟨rfl, rfl⟩ := hst
    have hidle : (view k s).pending call = none := by simp [view, hfree]
    set rec' := { rec with idempotencyKey := key }.stamp now with hrec'
    have hout : s.store.submitWithIdempotency rec key now = s.store.submitTx rec' key := rfl
    rw [hout, view_update]
    by_cases hkk : key = k
    · subst hkk
      rcases s.store.submitTx_claim rec' hk with ⟨err, he⟩ | ⟨hres, hcell⟩
      · refine ⟨[], ?_⟩
        rw [he]
        simp only [Option.bind_some, answerFor, viewEvent, List.filterMap_cons, Option.map_none,
          List.filterMap_nil]
        exact (view_idle hidle).symm ▸ .refl
      · refine ⟨[.claim call rec'.id], .single trivial ?_⟩
        simp only [hres, Option.bind_some, answerFor, if_true, viewEvent, List.filterMap_cons,
          Option.map_some, List.filterMap_nil, hcell]
        simp only [Lib.Once.machine, Lib.Once.step, hidle]
        rfl
    · refine ⟨[], ?_⟩
      have hans : answerFor k (key, (s.store.submitTx rec' key).2) = none := by
        cases (s.store.submitTx rec' key).2 with
        | error err => rfl
        | ok x => simp [answerFor, hkk]
      simp only [Option.bind_some, hans, viewEvent, List.filterMap_cons, Option.map_none,
        List.filterMap_nil, BoltStore.submitTx_idempotency_ne (Ne.symm hkk)]
      exact (view_idle hidle).symm ▸ .refl
  | reply call =>
    simp only [step] at hst
    split at hst
    · simp at hst
    rename_i key result hp
    simp only [Option.some.injEq, Prod.mk.injEq] at hst
    obtain ⟨rfl, rfl⟩ := hst
    rw [view_update]
    cases ha : answerFor k (key, result) with
    | none =>
      refine ⟨[], ?_⟩
      have hidle : (view k s).pending call = none := by simp [view, hp, ha]
      simp only [Option.bind_none, viewEvent, ha, List.filterMap_cons, Option.map_none,
        List.filterMap_nil]
      exact (view_idle hidle).symm ▸ .refl
    | some x =>
      have hheld : (view k s).pending call = some x := by simp [view, hp, ha]
      refine ⟨[.reply call], .single trivial ?_⟩
      simp only [viewEvent, ha, List.filterMap_cons, Option.map_some, List.filterMap_nil,
        Option.bind_none]
      simp only [Lib.Once.machine, Lib.Once.step, hheld]
      rfl
  | transition jobID mutate now =>
    simp only [step, Option.some.injEq, Prod.mk.injEq] at hst
    obtain ⟨rfl, rfl⟩ := hst
    refine ⟨[], ?_⟩
    have hsame : view k { s with store := (s.store.transition jobID mutate now).1 } = view k s := by
      rcases s.store.transition_cases jobID mutate now with ⟨he, -⟩ | ⟨_, _, _, _, _, he⟩
      · rw [he]
      · rw [he]
        rfl
    rw [hsame]
    exact .refl
  | crash =>
    simp only [step, Option.some.injEq, Prod.mk.injEq] at hst
    obtain ⟨rfl, rfl⟩ := hst
    exact ⟨[.crash], .single trivial rfl⟩

theorem view_run {k : String} (hk : k ≠ "") {as : List Action} {es : List Event} {s : State}
    {ok : State → Action → Prop} (h : machine.Run ok init as es s) :
    Lib.Once.Spec (es.filterMap (viewEvent k)) (view k s) := by
  have hinit : view k init = Lib.Once.init := by
    simp [view, init, Lib.Once.init]
  obtain ⟨t', bs, hrun, ht⟩ := h.simulate (R := fun s s' => s' = view k s) (N := Lib.Once.machine)
    (f := viewEvent k) (fun t a u e t' ht _ hst => by
      subst ht
      obtain ⟨bs, hbs⟩ := view_step hk hst
      exact ⟨_, bs, hbs, rfl⟩) rfl
  subst ht
  rw [hinit] at hrun
  exact Lib.Once.spec_of_run hrun

def commitsNew (k : String) : Event → Bool
  | .committed _ key (.ok (_, true)) => key = k
  | _ => false

def returnsNew (k : String) : Event → Bool
  | .returned _ key (.ok (_, true)) => key = k
  | _ => false

theorem countP_commitsNew (k : String) (es : List Event) :
    (es.filterMap (viewEvent k)).countP Lib.Once.claimsNew = es.countP (commitsNew k) := by
  rw [List.countP_filterMap]
  congr 1
  funext e
  match e with
  | .committed call key (.ok (id, true)) =>
    by_cases hk : key = k <;> simp [viewEvent, answerFor, commitsNew, Lib.Once.claimsNew, hk]
  | .committed call key (.ok (id, false)) =>
    by_cases hk : key = k <;> simp [viewEvent, answerFor, commitsNew, Lib.Once.claimsNew, hk]
  | .returned call key (.ok a) =>
    by_cases hk : key = k <;> simp [viewEvent, answerFor, commitsNew, Lib.Once.claimsNew, hk]
  | .committed call key (.error err) => rfl
  | .returned call key (.error err) => rfl
  | .crashed => rfl

theorem countP_returnsNew (k : String) (es : List Event) :
    (es.filterMap (viewEvent k)).countP Lib.Once.returnsNew = es.countP (returnsNew k) := by
  rw [List.countP_filterMap]
  congr 1
  funext e
  match e with
  | .returned call key (.ok (id, true)) =>
    by_cases hk : key = k <;> simp [viewEvent, answerFor, returnsNew, Lib.Once.returnsNew, hk]
  | .returned call key (.ok (id, false)) =>
    by_cases hk : key = k <;> simp [viewEvent, answerFor, returnsNew, Lib.Once.returnsNew, hk]
  | .committed call key (.ok a) =>
    by_cases hk : key = k <;> simp [viewEvent, answerFor, returnsNew, Lib.Once.returnsNew, hk]
  | .committed call key (.error err) => rfl
  | .returned call key (.error err) => rfl
  | .crashed => rfl

theorem mem_view_claimed {k : String} {es : List Event} {call : Nat} {a : String × Bool}
    (h : .committed call k (.ok a) ∈ es) :
    .claimed call a ∈ es.filterMap (viewEvent k) :=
  List.mem_filterMap.mpr ⟨_, h, by simp [viewEvent, answerFor]⟩

theorem mem_view_returned {k : String} {es : List Event} {call : Nat} {a : String × Bool}
    (h : .returned call k (.ok a) ∈ es) :
    .returned call a ∈ es.filterMap (viewEvent k) :=
  List.mem_filterMap.mpr ⟨_, h, by simp [viewEvent, answerFor]⟩

/-- One key is functional: the index and the records agree on who carries it, every
submit that returned was told that job, and one transaction created it. -/
structure KeyFunctional (k : String) (es : List Event) (s : State) : Prop where
  index : ∀ id, s.store.idempotency.get k = some id ↔
    ∃ r, s.store.jobs.get id = some r ∧ r.idempotencyKey = k
  answers : ∀ call id created, .returned call k (.ok (id, created)) ∈ es →
    s.store.idempotency.get k = some id
  committed_once : (∃ call a, .committed call k (.ok a) ∈ es) → es.countP (commitsNew k) = 1
  returned_once : es.countP (returnsNew k) ≤ 1
  returned_unless_cut : .crashed ∉ es → (∀ call, s.pending call = none) →
    (∃ call a, .committed call k (.ok a) ∈ es) → es.countP (returnsNew k) = 1

theorem keyFunctional_of_run {k : String} (hk : k ≠ "") {as : List Action} {es : List Event}
    {s : State} (h : machine.Run Allowed init as es s) : KeyFunctional k es s := by
  have hindexed : s.store.Indexed :=
    h.invariant (P := fun s => s.store.Indexed) BoltStore.Indexed.of_empty
      fun _ _ _ _ hs hok hst => step_indexed hs hok hst
  have hspec := view_run hk h
  have hone : (∃ call a, .committed call k (.ok a) ∈ es) → es.countP (commitsNew k) = 1 := by
    rintro ⟨call, ⟨id, created⟩, hc⟩
    have hcell := hspec.held call id created (mem_view_claimed hc)
    rw [← countP_commitsNew, hspec.news, hcell]
    rfl
  refine ⟨fun id => hindexed.iff hk, ?_, hone, ?_, ?_⟩
  · intro call id created hr
    exact hspec.held call id created (hspec.returned call _ (mem_view_returned hr))
  · have := hspec.once
    rw [countP_returnsNew, hspec.news] at this
    exact this.trans (by split <;> decide)
  · intro hcr hidle hex
    have hle : es.countP (returnsNew k) ≤ es.countP (commitsNew k) := by
      have := hspec.once
      rwa [countP_returnsNew, countP_commitsNew] at this
    rw [hone hex] at hle
    refine le_antisymm hle ?_
    -- the commit that created the record has returned, since nothing cut it off
    obtain ⟨e, he, hnew⟩ := List.countP_pos_iff.mp (by rw [countP_commitsNew, hone hex]; decide :
      0 < (es.filterMap (viewEvent k)).countP Lib.Once.claimsNew)
    match e, hnew with
    | .claimed call (id, true), _ =>
      have hnocrash : Lib.Once.Event.crashed ∉ es.filterMap (viewEvent k) := by
        intro hm
        obtain ⟨x, hx, hxe⟩ := List.mem_filterMap.mp hm
        match x with
        | .crashed => exact hcr hx
        | .committed _ _ _ => simp [viewEvent] at hxe
        | .returned _ _ _ => simp [viewEvent] at hxe
      rcases hspec.kept hnocrash call (id, true) he with hr | hp
      · rw [← countP_returnsNew]
        exact List.countP_pos_iff.mpr ⟨_, hr, rfl⟩
      · simp [view, hidle call] at hp

theorem permanent_of_run {as : List Action} {es : List Event} {s t : State}
    {ok : State → Action → Prop} (h : machine.Run ok s as es t) {k id : String}
    (hk : s.store.idempotency.get k = some id) : t.store.idempotency.get k = some id :=
  h.invariant (P := fun u => u.store.idempotency.get k = some id) hk
    fun _ _ _ _ hu _ hst => step_permanent hst hu

end Clients

end Minimodal
