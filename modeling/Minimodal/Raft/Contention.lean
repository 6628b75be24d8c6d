import Minimodal.Raft.Refine

namespace Minimodal.RaftStore

open BoltStore

def Action.call : Action → Nat
  | .start c _ | .read c _ | .apply c => c

/-- The calls of `team` are transitions of job `j` whose mutators succeed on every record; nobody
else writes `j`. -/
structure Contend (prog : Nat → Call) (team : Finset Nat) (j : String)
    (f : Nat → JobRecord → JobRecord) : Prop where
  contender : ∀ c ∈ team, prog c = .transition j fun r => .ok (f c r)
  id : ∀ c ∈ team, ∀ r, (f c r).id = r.id
  submit : ∀ c rec key, c ∉ team → prog c = .submit rec key → rec.id ≠ j
  transition : ∀ c k mutate r r', c ∉ team → prog c = .transition k mutate → mutate r = .ok r' →
    r'.id ≠ j

/-- What a leader that takes the mutators one after another makes of a record. An entry of `order`
is a call and the clock reading it stamps. -/
def replay (f : Nat → JobRecord → JobRecord) (r₀ : JobRecord) (order : List (Nat × Nat)) : JobRecord :=
  order.foldl (fun r x => (casCommand r (f x.1 r) x.2).record) r₀

variable {prog : Nat → Call} {team : Finset Nat} {j : String} {f : Nat → JobRecord → JobRecord}
  {r₀ : JobRecord} {order : List (Nat × Nat)} {as : List Action} {s t : State} {a : Action}
  {e : List Empty} {c d now : Nat}

@[simp] theorem replay_nil : replay f r₀ [] = r₀ := rfl

theorem replay_append (x : Nat × Nat) :
    replay f r₀ (order ++ [x]) =
      (casCommand (replay f r₀ order) (f x.1 (replay f r₀ order)) x.2).record := by
  simp [replay]

theorem replay_version : (replay f r₀ order).version = r₀.version + order.length := by
  induction order using List.reverseRecOn with
  | nil => simp
  | append_singleton order x ih =>
    rw [replay_append]
    simp only [casCommand, ih, List.length_append, List.length_singleton, Nat.cast_add]
    omega

theorem replay_id (hf : ∀ x ∈ order, ∀ r, (f x.1 r).id = r.id) : (replay f r₀ order).id = r₀.id := by
  induction order using List.reverseRecOn with
  | nil => rfl
  | append_singleton order x ih =>
    rw [replay_append]
    have hx : (f x.1 (replay f r₀ order)).id = (replay f r₀ order).id := hf x (by simp) _
    exact hx.trans (ih fun y hy => hf y (by simp [hy]))

theorem replay_core (hf : ∀ x ∈ order, Blind fun r => .ok (f x.1 r)) :
    (replay f r₀ order).core = (order.foldl (fun r x => f x.1 r) r₀).core := by
  induction order using List.reverseRecOn with
  | nil => rfl
  | append_singleton order x ih =>
    rw [replay_append, List.foldl_append]
    have hsame := (hf x (by simp)).unread _ _ (ih fun y hy => hf y (by simp [hy]))
    simp only [Except.map, Except.ok.injEq] at hsame
    exact hsame

/-- Where a call of the team stands after the commits of `order`, with the steps it has taken: each
round it has lost was won by another. -/
def Standing (j : String) (f : Nat → JobRecord → JobRecord) (r₀ : JobRecord)
    (order : List (Nat × Nat)) (c steps : Nat) : Pc → Prop
  | .idle => steps = 0 ∧ c ∉ order.map Prod.fst
  | .read k => steps = 2 * k + 1 ∧ k ≤ order.length ∧ c ∉ order.map Prod.fst
  | .proposed k cmd => steps = 2 * k + 2 ∧ c ∉ order.map Prod.fst ∧
      ∃ (rec : JobRecord) (now m : Nat), cmd = casCommand rec (f c rec) now ∧ rec.id = j ∧
        rec.version = r₀.version + m ∧ k ≤ m ∧ m ≤ order.length ∧
        (m = order.length → rec = replay f r₀ order)
  | .returned out => steps ≤ 2 * order.length + 1 ∧ c ∈ order.map Prod.fst ∧
      out = .transitioned (.ok true)

theorem Standing.append {steps : Nat} {pc : Pc} (h : Standing j f r₀ order c steps pc) (hc : c ≠ d) :
    Standing j f r₀ (order ++ [(d, now)]) c steps pc := by
  cases pc with
  | idle => simpa [Standing, hc] using h
  | read k =>
    obtain ⟨hsteps, hk, hmem⟩ := h
    refine ⟨hsteps, ?_, by simpa [hc] using hmem⟩
    rw [List.length_append]
    omega
  | proposed k cmd =>
    obtain ⟨hsteps, hmem, rec, now', m, hcmd, hid, hver, hk, hm, -⟩ := h
    refine ⟨hsteps, by simpa [hc] using hmem, rec, now', m, hcmd, hid, hver, hk, ?_, ?_⟩
    · rw [List.length_append]
      omega
    · intro hlen
      rw [List.length_append, List.length_singleton] at hlen
      omega
  | returned out =>
    obtain ⟨hsteps, hmem, hout⟩ := h
    refine ⟨?_, by simp [hmem], hout⟩
    rw [List.length_append]
    omega

structure Contended (team : Finset Nat) (j : String) (f : Nat → JobRecord → JobRecord)
    (r₀ : JobRecord) (as : List Action) (s : State) (order : List (Nat × Nat)) : Prop where
  nodup : (order.map Prod.fst).Nodup
  members : ∀ x ∈ order, x.1 ∈ team
  logged : (order.map fun x => Action.apply x.1).Sublist as
  stored : s.store.jobs.get j = some (replay f r₀ order)
  standing : ∀ c ∈ team, Standing j f r₀ order c (as.countP fun a => a.call = c) (s.pc c)
  others : ∀ c k cmd, c ∉ team → s.pc c = .proposed k cmd → cmd.record.id ≠ j

theorem Contended.init {store : BoltStore} (hget : store.jobs.get j = some r₀) :
    Contended team j f r₀ [] (init store) [] where
  nodup := List.nodup_nil
  members := by simp
  logged := List.nil_sublist _
  stored := hget
  standing c _ := by simp [RaftStore.init, Standing]
  others := by simp [RaftStore.init]

theorem countP_call_self (h : a.call = c) :
    (as ++ [a]).countP (fun b => b.call = c) = as.countP (fun b => b.call = c) + 1 := by
  simp [h]

theorem countP_call_ne (h : a.call ≠ c) :
    (as ++ [a]).countP (fun b => b.call = c) = as.countP (fun b => b.call = c) := by
  simp [h]

theorem Contended.goto (h : Contended team j f r₀ as s order) {a : Action} {store : BoltStore}
    {pc : Pc} (hd : a.call = d) (hstore : store.jobs.get j = s.store.jobs.get j)
    (hself : d ∈ team → Standing j f r₀ order d (as.countP (fun a => a.call = d) + 1) pc)
    (hother : d ∉ team → ∀ k cmd, pc = .proposed k cmd → cmd.record.id ≠ j) :
    Contended team j f r₀ (as ++ [a]) (s.goto store d pc) order where
  nodup := h.nodup
  members := h.members
  logged := h.logged.trans (List.sublist_append_left _ _)
  stored := hstore.trans h.stored
  standing c hc := by
    by_cases hcd : c = d
    · subst hcd
      rw [State.goto_self, countP_call_self hd]
      exact hself hc
    · rw [State.goto_ne s store pc hcd, countP_call_ne (hd ▸ Ne.symm hcd)]
      exact h.standing c hc
  others c k cmd hc hpc := by
    by_cases hcd : c = d
    · subst hcd
      rw [State.goto_self] at hpc
      exact hother hc k cmd hpc
    · rw [State.goto_ne s store pc hcd] at hpc
      exact h.others c k cmd hc hpc

theorem Contended.commit (h : Contended team j f r₀ as s order) {store : BoltStore} (hd : d ∈ team)
    (hmem : d ∉ order.map Prod.fst)
    (hsteps : as.countP (fun a => a.call = d) ≤ 2 * order.length + 2)
    (hstore : store.jobs.get j = some (replay f r₀ (order ++ [(d, now)]))) :
    Contended team j f r₀ (as ++ [Action.apply d])
      (s.goto store d (.returned (.transitioned (.ok true)))) (order ++ [(d, now)]) where
  nodup := by
    rw [List.map_append, List.nodup_append]
    refine ⟨h.nodup, List.nodup_singleton _, ?_⟩
    rintro x hx y hy rfl
    obtain rfl := List.mem_singleton.mp hy
    exact hmem hx
  members x hx := by
    rcases List.mem_append.mp hx with hx | hx
    · exact h.members x hx
    · rw [List.mem_singleton.mp hx]
      exact hd
  logged := by
    rw [List.map_append]
    exact h.logged.append (List.Sublist.refl _)
  stored := hstore
  standing c hc := by
    by_cases hcd : c = d
    · subst hcd
      rw [State.goto_self, countP_call_self (show (Action.apply c).call = c from rfl)]
      refine ⟨?_, by simp, rfl⟩
      rw [List.length_append, List.length_singleton]
      omega
    · rw [State.goto_ne _ _ _ hcd, countP_call_ne (Ne.symm hcd)]
      exact (h.standing c hc).append hcd
  others c k cmd hc hp := by
    have hcd : c ≠ d := fun he => hc (he ▸ hd)
    rw [State.goto_ne _ _ _ hcd] at hp
    exact h.others c k cmd hc hp

theorem Contended.length_lt (h : Contended team j f r₀ as s order) (hc : c ∈ team)
    (hmem : c ∉ order.map Prod.fst) : order.length < team.card := by
  have hsub : (order.map Prod.fst).toFinset ⊆ team.erase c := by
    intro x hx
    obtain ⟨y, hy, rfl⟩ := List.mem_map.mp (List.mem_toFinset.mp hx)
    exact Finset.mem_erase.mpr ⟨fun he => hmem (he ▸ List.mem_map_of_mem hy), h.members y hy⟩
  have hcard := Finset.card_le_card hsub
  rw [List.toFinset_card_of_nodup h.nodup, List.length_map, Finset.card_erase_of_mem hc] at hcard
  have hpos := Finset.card_pos.mpr ⟨c, hc⟩
  omega

section Step

variable (hprog : Contend prog team j f) (h : Contended team j f r₀ as s order)
include hprog h

theorem Contended.start (hst : step prog s (.start d now) = some (t, e)) :
    Contended team j f r₀ (as ++ [Action.start d now]) t order := by
  obtain ⟨hpc, ⟨rec, key, hcall, rfl⟩ | ⟨k, mutate, hcall, rfl⟩⟩ := step_start hst
  · refine h.goto rfl rfl ?_ ?_
    · intro hd
      simp [hprog.contender d hd] at hcall
    · intro hd k cmd he
      simp only [Pc.proposed.injEq] at he
      rw [← he.2]
      exact hprog.submit d rec key hd hcall
  · refine h.goto rfl rfl ?_ (by simp)
    intro hd
    have hs := h.standing d hd
    rw [hpc] at hs
    exact ⟨by rw [hs.1], Nat.zero_le _, hs.2⟩

theorem Contended.read (hid : r₀.id = j) (hst : step prog s (.read d now) = some (t, e)) :
    Contended team j f r₀ (as ++ [Action.read d now]) t order := by
  obtain ⟨k, i, mutate, hpc, hcall, rfl⟩ := step_read hst
  by_cases hd : d ∈ team
  · obtain ⟨rfl, rfl⟩ := Call.transition.inj ((hprog.contender d hd).symm.trans hcall)
    refine h.goto rfl rfl (fun _ => ?_) (fun hn => absurd hd hn)
    have hs := h.standing d hd
    rw [hpc] at hs
    obtain ⟨hsteps, hk, hmem⟩ := hs
    simp only [afterRead, getJob, h.stored]
    refine ⟨by omega, hmem, replay f r₀ order, now, order.length, rfl, ?_, replay_version, hk, le_rfl,
      fun _ => rfl⟩
    rw [replay_id fun x hx => hprog.id x.1 (h.members x hx), hid]
  · refine h.goto rfl rfl (fun hd' => absurd hd' hd) (fun _ k' cmd he => ?_)
    unfold afterRead at he
    split at he
    · simp at he
    · rename_i rec hget
      cases hm : mutate rec with
      | error err => cases err <;> simp [hm] at he
      | ok cur =>
        simp only [hm, Pc.proposed.injEq] at he
        rw [← he.2]
        exact hprog.transition d i mutate rec cur hd hcall hm

theorem Contended.apply (hn : team.card ≤ maxCASRetries)
    (hst : step prog s (.apply d) = some (t, e)) :
    ∃ order', Contended team j f r₀ (as ++ [Action.apply d]) t order' := by
  obtain ⟨k, cmd, hpc, rfl⟩ := step_apply hst
  by_cases hd : d ∈ team
  · have hs := h.standing d hd
    rw [hpc] at hs
    obtain ⟨hsteps, hmem, rec, now, m, rfl, hid, hver, hk, hm, hrec⟩ := hs
    have hget : s.store.jobs.get (f d rec).id = some (replay f r₀ order) := by
      rw [hprog.id d hd, hid, h.stored]
    have hlt := h.length_lt hd hmem
    rw [hprog.contender d hd]
    by_cases hv : (replay f r₀ order).version = rec.version
    · -- nobody has committed since the read: the call commits on the record it read
      rw [replay_version, hver] at hv
      obtain rfl := hrec (by omega)
      rw [apply_cas_commit hget rfl]
      have hafter : afterApply (.transition j fun r => .ok (f d r)) k {} =
          .returned (.transitioned (.ok true)) := rfl
      rw [hafter]
      refine ⟨order ++ [(d, now)], h.commit hd hmem (by omega) ?_⟩
      rw [replay_append, Lib.Bucket.get_insert, if_pos (by rw [hprog.id d hd, hid])]
    · rw [apply_cas_conflict hget hv]
      rw [replay_version, hver] at hv
      have hmore : k + 1 < maxCASRetries := by omega
      have hafter : afterApply (.transition j fun r => .ok (f d r)) k { conflict := true } =
          .read (k + 1) := by
        simp [afterApply, hmore]
      rw [hafter]
      refine ⟨order, h.goto rfl rfl (fun _ => ⟨?_, by omega, hmem⟩) (by simp)⟩
      omega
  · refine ⟨order, h.goto rfl ?_ (fun hd' => absurd hd' hd) ?_⟩
    · rw [JobFSM.apply_jobs, if_neg fun hw => h.others d k cmd hd hpc hw.2]
    · intro _ k' cmd' he
      unfold afterApply at he
      split at he
      · simp at he
      · simp at he
      · simp at he
      · split at he
        · split at he <;> simp at he
        · simp at he

end Step

theorem contended_of_run {store : BoltStore} {es : List Empty} (hprog : Contend prog team j f)
    (hn : team.card ≤ maxCASRetries) (hget : store.jobs.get j = some r₀) (hid : r₀.id = j)
    (hrun : (machine prog).Run Lib.Machine.Always (init store) as es s) :
    ∃ order, Contended team j f r₀ as s order := by
  induction hrun with
  | refl => exact ⟨[], .init hget⟩
  | @tail as es t a u e _ _ hstep ih =>
    obtain ⟨order, h⟩ := ih
    cases a with
    | start d now => exact ⟨order, h.start hprog hstep⟩
    | read d now => exact ⟨order, h.read hprog hid hstep⟩
    | apply d => exact h.apply hprog hn hstep

theorem exists_step (hcall : prog c = .transition j fun r => .ok (f c r)) (hres : result s c = none) :
    ∃ a, a.call = c ∧ (step prog s a).isSome = true := by
  cases hpc : s.pc c with
  | idle => exact ⟨.start c 0, rfl, by simp [step, hpc, hcall]⟩
  | read k => exact ⟨.read c 0, rfl, by simp [step, hpc, hcall]⟩
  | proposed k cmd => exact ⟨.apply c, rfl, by simp [step, hpc]⟩
  | returned out => simp [result, hpc] at hres

section Standings

variable (h : Contended team j f r₀ as s order) (hc : c ∈ team)
include h hc

theorem Contended.result_some {out : Outcome} (hres : result s c = some out) :
    out = .transitioned (.ok true) ∧ c ∈ order.map Prod.fst := by
  have hs := h.standing c hc
  cases hpc : s.pc c with
  | returned out' =>
    rw [hpc] at hs
    simp only [result, hpc, Option.some.injEq] at hres
    exact ⟨hres ▸ hs.2.2, hs.2.1⟩
  | _ => simp [result, hpc] at hres

theorem Contended.steps_le : as.countP (fun a => a.call = c) ≤ 2 * team.card + 1 := by
  have hs := h.standing c hc
  cases hpc : s.pc c with
  | idle =>
    rw [hpc] at hs
    obtain ⟨hsteps, hmem⟩ := hs
    have hlt := h.length_lt hc hmem
    omega
  | read k =>
    rw [hpc] at hs
    obtain ⟨hsteps, hk, hmem⟩ := hs
    have hlt := h.length_lt hc hmem
    omega
  | proposed k cmd =>
    rw [hpc] at hs
    obtain ⟨hsteps, hmem, -, -, m, -, -, -, hk, hm, -⟩ := hs
    have hlt := h.length_lt hc hmem
    omega
  | returned out =>
    rw [hpc] at hs
    obtain ⟨hsteps, -, -⟩ := hs
    have hle : (order.map Prod.fst).toFinset.card ≤ team.card := by
      refine Finset.card_le_card fun x hx => ?_
      obtain ⟨y, hy, rfl⟩ := List.mem_map.mp (List.mem_toFinset.mp hx)
      exact h.members y hy
    rw [List.toFinset_card_of_nodup h.nodup, List.length_map] at hle
    omega

end Standings

theorem Contended.perm (h : Contended team j f r₀ as s order)
    (hall : ∀ c ∈ team, (result s c).isSome = true) : (order.map Prod.fst).Perm team.toList := by
  refine (List.perm_ext_iff_of_nodup h.nodup team.nodup_toList).mpr fun c => ?_
  rw [Finset.mem_toList]
  constructor
  · intro hc
    obtain ⟨x, hx, rfl⟩ := List.mem_map.mp hc
    exact h.members x hx
  · intro hc
    obtain ⟨out, hout⟩ := Option.isSome_iff_exists.mp (hall c hc)
    exact (h.result_some hc hout).2

/-- At most `maxCASRetries` concurrent transitions of one job all commit: each comes back after a
bounded number of its own steps, with `true`, and once all are back the record is what the mutators
make of it one after another, each once and in log order. -/
theorem transitions_all_commit {store : BoltStore} {es : List Empty} (hprog : Contend prog team j f)
    (hn : team.card ≤ maxCASRetries) (hget : store.getJob j = some r₀) (hid : r₀.id = j)
    (hrun : (machine prog).Run Lib.Machine.Always (init store) as es s) :
    (∀ c ∈ team, as.countP (fun a => a.call = c) ≤ 2 * team.card + 1 ∧
      (result s c = some (.transitioned (.ok true)) ∨
        result s c = none ∧ ∃ a, a.call = c ∧ (step prog s a).isSome = true)) ∧
    ((∀ c ∈ team, (result s c).isSome = true) → ∃ order : List (Nat × Nat),
      (order.map Prod.fst).Perm team.toList ∧
      (order.map fun x => Action.apply x.1).Sublist as ∧
      s.store.getJob j = some (replay f r₀ order) ∧
      (replay f r₀ order).version = r₀.version + team.card ∧
      ((∀ c ∈ team, Blind fun r => .ok (f c r)) →
        (replay f r₀ order).core = (order.foldl (fun r x => f x.1 r) r₀).core)) := by
  obtain ⟨order, h⟩ := contended_of_run hprog hn hget hid hrun
  refine ⟨fun c hc => ⟨h.steps_le hc, ?_⟩, fun hall => ?_⟩
  · cases hres : result s c with
    | none => exact .inr ⟨rfl, exists_step (hprog.contender c hc) hres⟩
    | some out => exact .inl (by rw [(h.result_some hc hres).1])
  · have hperm := h.perm hall
    have hlen : order.length = team.card := by
      rw [← List.length_map Prod.fst, hperm.length_eq, Finset.length_toList]
    refine ⟨order, hperm, h.logged, h.stored, by rw [replay_version, hlen], fun hblind => ?_⟩
    exact replay_core fun x hx => hblind x.1 (h.members x hx)

def sampleRace (c : Nat) : Call :=
  if c ∈ Finset.range 3 then .transition "j" fun r => .ok { r with retryCount := r.retryCount + (c + 1) }
  else .submit { id := "k", status := .pending } ""

theorem sampleRace_contend : Contend sampleRace (Finset.range 3) "j" fun c r =>
    { r with retryCount := r.retryCount + (c + 1) } where
  contender c hc := if_pos hc
  id _ _ _ := rfl
  submit c rec key hc hcall := by
    simp only [sampleRace, if_neg hc, Call.submit.injEq] at hcall
    simp [← hcall.1]
  transition c k mutate r r' hc hcall := by
    rw [sampleRace, if_neg hc] at hcall
    cases hcall

def sampleRecord : JobRecord := { id := "j", status := .pending, version := 1 }

def sampleRounds : List Action :=
  [.start 0 1, .start 1 1, .start 2 1, .read 0 2, .read 1 2, .read 2 2, .apply 1, .apply 0, .read 0 3,
    .apply 2, .read 2 4, .apply 0, .apply 2, .read 2 5, .apply 2]

def sampleRaced : State × List Empty :=
  ((machine sampleRace).exec (fun _ _ => true)
    (init (BoltStore.empty.putJobRaw sampleRecord).1) sampleRounds).get (by decide)

theorem transitions_all_commit_sample :
    (∀ c ∈ Finset.range 3, result sampleRaced.1 c = some (.transitioned (.ok true))) ∧
      ∃ r, sampleRaced.1.store.getJob "j" = some r ∧ r.version = 4 ∧ r.retryCount = 6 := by
  have hrun : (machine sampleRace).Run Lib.Machine.Always (init (BoltStore.empty.putJobRaw sampleRecord).1)
      sampleRounds sampleRaced.2 sampleRaced.1 :=
    (Lib.Machine.run_of_exec_get (by decide)).mono fun _ _ _ => trivial
  have hget₀ : (BoltStore.empty.putJobRaw sampleRecord).1.getJob "j" = some sampleRecord := by decide
  obtain ⟨hback, hdone⟩ :=
    transitions_all_commit sampleRace_contend (by decide) hget₀ rfl hrun
  have hall : ∀ c ∈ Finset.range 3, (result sampleRaced.1 c).isSome = true := by decide
  obtain ⟨order, -, -, hget, hver, -⟩ := hdone hall
  refine ⟨fun c hc => ?_, _, hget, hver, ?_⟩
  · refine (hback c hc).2.resolve_right fun hn => ?_
    simpa [hn.1] using hall c hc
  · have hcount : sampleRaced.1.store.getJob "j" = some { sampleRecord with
        retryCount := 6, version := 4, createdAt := some 2, updatedAt := some 5 } := by decide
    rw [hget, Option.some.injEq] at hcount
    rw [hcount]

/-- The compare-and-swap goes to the id that the mutator leaves in the record. -/
def sampleRename (_ : Nat) : Call := .transition "j" fun r => .ok { r with id := "k" }

def sampleRenamed : State × List Empty :=
  ((machine sampleRename).exec (fun _ _ => true) (init (BoltStore.empty.putJobRaw sampleRecord).1)
    [.start 0 1, .read 0 2, .apply 0]).get (by decide)

theorem transition_renaming_fails :
    (machine sampleRename).Run Lib.Machine.Always (init (BoltStore.empty.putJobRaw sampleRecord).1)
        [.start 0 1, .read 0 2, .apply 0] sampleRenamed.2 sampleRenamed.1 ∧
      result sampleRenamed.1 0 = some (.transitioned (.error (errNotFound "k"))) :=
  ⟨(Lib.Machine.run_of_exec_get (by decide)).mono fun _ _ _ => trivial, by decide⟩

end Minimodal.RaftStore
