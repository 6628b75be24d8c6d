import Minimodal.Raft.Refine

namespace Minimodal.RaftStore

def putCommand (rec : JobRecord) (cur : Option JobRecord) (now : Nat) : FsmCommand where
  op := .put
  record := { rec.stamp now with version := (cur.map fun r => r.version + 1).getD 1 }

inductive PutPc
  | idle
  | proposed (cur : Option JobRecord) (cmd : FsmCommand)
  | returned (result : Except Err Unit)

namespace Writers

structure State where
  calls : RaftStore.State
  puts : Nat → PutPc

def State.getJob (s : State) (k : String) : Option JobRecord := s.calls.store.getJob k

inductive Action
  | call (a : RaftStore.Action)
  | putRead (p now : Nat)
  | putApply (p : Nat)

inductive Event
  | wrote (jobID : String)
  deriving DecidableEq

def entry (s : State) : Action → Option FsmCommand
  | .call (.apply c) =>
    match s.calls.pc c with
    | .proposed _ cmd => some cmd
    | _ => none
  | .putApply p =>
    match s.puts p with
    | .proposed _ cmd => some cmd
    | _ => none
  | _ => none

def written (s : State) (a : Action) : List Event :=
  match entry s a with
  | some cmd => if JobFSM.writes s.calls.store cmd then [.wrote cmd.record.id] else []
  | none => []

def step (prog : Nat → Call) (recs : Nat → JobRecord) (s : State) (a : Action) :
    Option (State × List Event) :=
  match a with
  | .call b =>
    (RaftStore.step prog s.calls b).map fun (calls, _) => ({ s with calls }, written s a)
  | .putRead p now =>
    match s.puts p with
    | .idle =>
      let cur := s.getJob (recs p).id
      some ({ s with puts := Function.update s.puts p (.proposed cur (putCommand (recs p) cur now)) },
        written s a)
    | _ => none
  | .putApply p =>
    match s.puts p with
    | .proposed _ cmd =>
      let (store, resp) := JobFSM.apply s.calls.store cmd
      let result := match resp.err with
        | some e => .error e
        | none => .ok ()
      some (⟨{ s.calls with store }, Function.update s.puts p (.returned result)⟩, written s a)
    | _ => none

def machine (prog : Nat → Call) (recs : Nat → JobRecord) : Lib.Machine State Action Event :=
  ⟨step prog recs⟩

def init (store : BoltStore) : State := ⟨RaftStore.init store, fun _ => .idle⟩

def fresh (s : State) (a : Action) : Bool :=
  (entry s a).all fun cmd => cmd.op ≠ .submit || (s.getJob cmd.record.id).isNone

/-- What a `PutJob` read is still there when its entry is applied. -/
def current (s : State) : Action → Bool
  | .putApply p =>
    match s.puts p with
    | .proposed cur cmd => s.getJob cmd.record.id = cur
    | _ => true
  | _ => true

variable {prog : Nat → Call} {recs : Nat → JobRecord} {s t : State} {a : Action} {e : List Event}
  {c : Nat} {j k : String}

theorem calls_of_step {b : RaftStore.Action} (h : step prog recs s (.call b) = some (t, e)) :
    ∃ calls e', RaftStore.step prog s.calls b = some (calls, e') ∧ t = { s with calls } ∧
      e = written s (.call b) := by
  simp only [step, Option.map_eq_some_iff, Prod.exists, Prod.mk.injEq] at h
  obtain ⟨calls, e', hst, rfl, rfl⟩ := h
  exact ⟨calls, e', hst, rfl, rfl⟩

theorem step_putRead {p now : Nat} (h : step prog recs s (.putRead p now) = some (t, e)) :
    t = { s with
      puts := Function.update s.puts p
        (.proposed (s.getJob (recs p).id) (putCommand (recs p) (s.getJob (recs p).id) now)) } ∧
    e = written s (.putRead p now) := by
  simp only [step] at h
  split at h
  · simp only [Option.some.injEq, Prod.mk.injEq] at h
    exact ⟨h.1.symm, h.2.symm⟩
  · simp at h

theorem step_putApply {p : Nat} (h : step prog recs s (.putApply p) = some (t, e)) :
    ∃ cur cmd result, s.puts p = .proposed cur cmd ∧
      t = ⟨{ s.calls with store := (JobFSM.apply s.calls.store cmd).1 },
        Function.update s.puts p (.returned result)⟩ ∧
      e = written s (.putApply p) := by
  simp only [step] at h
  split at h
  · rename_i cur cmd hpc
    simp only [Option.some.injEq, Prod.mk.injEq] at h
    exact ⟨cur, cmd, _, hpc, h.1.symm, h.2.symm⟩
  · simp at h

theorem entry_call {b : RaftStore.Action} {cmd : FsmCommand} :
    entry s (.call b) = some cmd ↔
      ∃ c attempt, b = .apply c ∧ s.calls.pc c = .proposed attempt cmd := by
  cases b with
  | apply c =>
    simp only [entry]
    split <;> simp_all
  | _ => simp [entry]

theorem entry_put {p : Nat} {cmd : FsmCommand} :
    entry s (.putApply p) = some cmd ↔ ∃ cur, s.puts p = .proposed cur cmd := by
  simp only [entry]
  split <;> simp_all

theorem store_of_step (h : step prog recs s a = some (t, e)) :
    e = written s a ∧
      t.calls.store = match entry s a with
        | some cmd => (JobFSM.apply s.calls.store cmd).1
        | none => s.calls.store := by
  cases a with
  | call b =>
    obtain ⟨calls, e', hstep, rfl, rfl⟩ := calls_of_step h
    refine ⟨rfl, ?_⟩
    cases b with
    | start c now =>
      obtain ⟨-, ⟨rec, key, -, rfl⟩ | ⟨jobID, mutate, -, rfl⟩⟩ := step_start hstep <;> rfl
    | read c now =>
      obtain ⟨attempt, jobID, mutate, -, -, rfl⟩ := step_read hstep
      rfl
    | apply c =>
      obtain ⟨attempt, cmd, hpc, rfl⟩ := step_apply hstep
      simp [entry, hpc]
  | putRead p now =>
    obtain ⟨rfl, rfl⟩ := step_putRead h
    exact ⟨rfl, rfl⟩
  | putApply p =>
    obtain ⟨cur, cmd, result, hpc, rfl, rfl⟩ := step_putApply h
    simp [entry, hpc]

structure Shaped (prog : Nat → Call) (recs : Nat → JobRecord) (s : State) : Prop where
  call : ∀ c attempt cmd, s.calls.pc c = .proposed attempt cmd →
    cmd.op = .submit ∨ ∃ rec cur now, cmd = casCommand rec cur now
  put : ∀ p cur cmd, s.puts p = .proposed cur cmd → ∃ now, cmd = putCommand (recs p) cur now

theorem Shaped.goto (h : Shaped prog recs s) {store : BoltStore} {pc : Pc}
    (hpc : ∀ attempt cmd, pc = .proposed attempt cmd →
      cmd.op = .submit ∨ ∃ rec cur now, cmd = casCommand rec cur now) :
    Shaped prog recs { s with calls := s.calls.goto store c pc } where
  call d attempt cmd hd := by
    by_cases hdc : d = c
    · subst hdc
      rw [RaftStore.State.goto_self] at hd
      exact hpc attempt cmd hd
    · rw [RaftStore.State.goto_ne _ _ _ hdc] at hd
      exact h.call d attempt cmd hd
  put := h.put

theorem Shaped.update (h : Shaped prog recs s) {calls : RaftStore.State} {p : Nat} {pc : PutPc}
    (hcalls : calls.pc = s.calls.pc)
    (hpc : ∀ cur cmd, pc = .proposed cur cmd → ∃ now, cmd = putCommand (recs p) cur now) :
    Shaped prog recs ⟨calls, Function.update s.puts p pc⟩ where
  call d attempt cmd hd := by
    rw [hcalls] at hd
    exact h.call d attempt cmd hd
  put q cur cmd hq := by
    by_cases hqp : q = p
    · subst hqp
      simp only [Function.update_self] at hq
      exact hpc cur cmd hq
    · simp only [Function.update_of_ne hqp] at hq
      exact h.put q cur cmd hq

theorem afterRead_cases (store : BoltStore) (j : String) (mutate : JobRecord → Except Err JobRecord)
    (attempt now : Nat) :
    (∃ out, afterRead store j mutate attempt now = .returned out) ∨
      ∃ rec cur, store.getJob j = some rec ∧
        afterRead store j mutate attempt now = .proposed attempt (casCommand rec cur now) := by
  cases hget : store.getJob j with
  | none => exact .inl (by simp [afterRead, hget])
  | some rec =>
    cases hm : mutate rec with
    | ok cur => exact .inr ⟨rec, cur, rfl, by simp only [afterRead, hget, hm]⟩
    | error err => cases err <;> exact .inl (by simp [afterRead, hget, hm])

theorem afterApply_ne_proposed {call : Call} {attempt attempt' : Nat} {resp : FsmResponse}
    {cmd : FsmCommand} : afterApply call attempt resp ≠ .proposed attempt' cmd := by
  unfold afterApply
  repeat' split
  all_goals simp

theorem shaped_of_step (h : Shaped prog recs s) (hst : step prog recs s a = some (t, e)) :
    Shaped prog recs t := by
  cases a with
  | call b =>
    obtain ⟨calls, e', hstep, rfl, -⟩ := calls_of_step hst
    cases b with
    | start c now =>
      obtain ⟨-, ⟨rec, key, -, rfl⟩ | ⟨jobID, mutate, -, rfl⟩⟩ := step_start hstep
      · refine h.goto fun attempt cmd hpc => .inl ?_
        simp only [Pc.proposed.injEq] at hpc
        rw [← hpc.2]
        rfl
      · exact h.goto (by simp)
    | read c now =>
      obtain ⟨attempt, jobID, mutate, -, -, rfl⟩ := step_read hstep
      refine h.goto fun attempt' cmd hpc => .inr ?_
      obtain ⟨out, hout⟩ | ⟨rec, cur, -, hprop⟩ :=
        afterRead_cases s.calls.store jobID mutate attempt now
      · simp [hout] at hpc
      · simp only [hprop, Pc.proposed.injEq] at hpc
        exact ⟨rec, cur, now, hpc.2.symm⟩
    | apply c =>
      obtain ⟨attempt, cmd, -, rfl⟩ := step_apply hstep
      exact h.goto fun _ _ hpc => absurd hpc afterApply_ne_proposed
  | putRead p now =>
    obtain ⟨rfl, -⟩ := step_putRead hst
    refine h.update rfl fun cur cmd hpc => ⟨now, ?_⟩
    simp only [PutPc.proposed.injEq] at hpc
    rw [← hpc.2, ← hpc.1]
  | putApply p =>
    obtain ⟨cur, cmd, result, -, rfl, -⟩ := step_putApply hst
    exact h.update rfl (by simp)

theorem shaped_of_run {ok : State → Action → Prop} {store : BoltStore} {as : List Action}
    {es : List Event} (h : (machine prog recs).Run ok (init store) as es s) : Shaped prog recs s :=
  h.invariant ⟨by simp [init, RaftStore.init], by simp [init]⟩ fun _ _ _ _ hs _ hst => shaped_of_step hs hst

theorem version_of_writes_cas {store : BoltStore} {rec cur held : JobRecord} {now : Nat}
    (hw : JobFSM.writes store (casCommand rec cur now) = true)
    (hget : store.jobs.get (casCommand rec cur now).record.id = some held) :
    held.version = rec.version := by
  simp only [JobFSM.writes, casCommand_op, hget] at hw
  exact of_decide_eq_true hw

theorem Shaped.version_lt (h : Shaped prog recs s) (hfresh : fresh s a = true) (hcur : current s a = true)
    {cmd : FsmCommand} (hentry : entry s a = some cmd)
    (hw : JobFSM.writes s.calls.store cmd = true) {old : JobRecord}
    (hget : s.getJob cmd.record.id = some old) : old.version < cmd.record.version := by
  cases a with
  | call b =>
    obtain ⟨c, attempt, -, hpc⟩ := entry_call.mp hentry
    obtain hop | ⟨rec, cur, now, rfl⟩ := h.call c attempt cmd hpc
    · -- a submission would have found the id taken
      simp [fresh, hentry, hop, hget] at hfresh
    · simp [casCommand, version_of_writes_cas hw hget]
  | putRead p now => simp [entry] at hentry
  | putApply p =>
    obtain ⟨cur, hpc⟩ := entry_put.mp hentry
    obtain ⟨now, rfl⟩ := h.put p cur cmd hpc
    simp only [current, hpc, hget, decide_eq_true_eq] at hcur
    simp [putCommand, ← hcur]

theorem Shaped.grows (h : Shaped prog recs s) (hfresh : fresh s a = true) (hcur : current s a = true)
    (hst : step prog recs s a = some (t, e)) {old : JobRecord} (hget : s.getJob k = some old) :
    (.wrote k ∉ e ∧ t.getJob k = some old) ∨
      ∃ new, .wrote k ∈ e ∧ t.getJob k = some new ∧ old.version < new.version := by
  obtain ⟨rfl, hstore⟩ := store_of_step hst
  have hget' : s.calls.store.jobs.get k = some old := hget
  simp only [State.getJob, BoltStore.getJob, hstore, written]
  cases hentry : entry s a with
  | none => exact .inl ⟨by simp, hget'⟩
  | some cmd =>
    rw [JobFSM.apply_jobs]
    by_cases hw : JobFSM.writes s.calls.store cmd = true
    · by_cases hk : cmd.record.id = k
      · subst hk
        refine .inr ⟨cmd.record, by simp [hw], by simp [hw], ?_⟩
        exact h.version_lt hfresh hcur hentry hw hget
      · exact .inl ⟨by simp [hw, Ne.symm hk], by simp [hk, hget']⟩
    · exact .inl ⟨by simp [hw], by simp [hw, hget']⟩

/-- Call `c` waits for the command it made of the record it read, and what has been written since
shows in the stored version; or its command has been applied. -/
def Waits (c : Nat) (j : String) (es : List Event) (s : State) : Prop :=
  (∃ attempt rec cur now held, s.calls.pc c = .proposed attempt (casCommand rec cur now) ∧
      s.getJob j = some held ∧ rec.version ≤ held.version ∧
      (.wrote j ∈ es → rec.version < held.version)) ∨
    (∃ attempt, s.calls.pc c = .read attempt) ∨ ∃ out, s.calls.pc c = .returned out

theorem afterApply_waits (call : Call) (attempt : Nat) (resp : FsmResponse) :
    (∃ attempt', afterApply call attempt resp = .read attempt') ∨
      ∃ out, afterApply call attempt resp = .returned out := by
  unfold afterApply
  repeat' split
  all_goals simp

theorem pc_of_step (hst : step prog recs s a = some (t, e)) :
    t.calls.pc c = s.calls.pc c ∨ (∃ now, a = .call (.start c now) ∧ s.calls.pc c = .idle) ∨
      (∃ now, a = .call (.read c now)) ∨
      (∃ attempt, t.calls.pc c = .read attempt) ∨ ∃ out, t.calls.pc c = .returned out := by
  cases a with
  | call b =>
    obtain ⟨calls, e', hstep, rfl, -⟩ := calls_of_step hst
    cases b with
    | start d now =>
      obtain ⟨hidle, hcases⟩ := step_start hstep
      by_cases hc : c = d
      · subst hc
        exact .inr (.inl ⟨now, rfl, hidle⟩)
      · left
        obtain ⟨rec, key, -, rfl⟩ | ⟨jobID, mutate, -, rfl⟩ := hcases <;>
          exact RaftStore.State.goto_ne _ _ _ hc
    | read d now =>
      obtain ⟨attempt, jobID, mutate, -, -, rfl⟩ := step_read hstep
      by_cases hc : c = d
      · subst hc
        exact .inr (.inr (.inl ⟨now, rfl⟩))
      · exact .inl (RaftStore.State.goto_ne _ _ _ hc)
    | apply d =>
      obtain ⟨attempt, cmd, -, rfl⟩ := step_apply hstep
      by_cases hc : c = d
      · subst hc
        simp only [RaftStore.State.goto_self]
        exact .inr (.inr (.inr (afterApply_waits _ _ _)))
      · exact .inl (RaftStore.State.goto_ne _ _ _ hc)
  | putRead p now =>
    obtain ⟨rfl, -⟩ := step_putRead hst
    exact .inl rfl
  | putApply p =>
    obtain ⟨cur, cmd, result, -, rfl, -⟩ := step_putApply hst
    exact .inl rfl

/-- The version of a new record, or the one after a version that is stored. -/
def Succeeds (s : State) (cmd : FsmCommand) : Prop :=
  cmd.record.version = 1 ∨ ∃ k r, s.getJob k = some r ∧ cmd.record.version = r.version + 1

theorem proposed_of_step (hst : step prog recs s a = some (t, e)) {attempt : Nat}
    {cmd : FsmCommand} (hprop : t.calls.pc c = .proposed attempt cmd) :
    s.calls.pc c = .proposed attempt cmd ∨ Succeeds s cmd := by
  obtain hpc | ⟨now, rfl, -⟩ | ⟨now, rfl⟩ | ⟨_, hpc⟩ | ⟨_, hpc⟩ := pc_of_step (c := c) hst
  · exact .inl (hpc ▸ hprop)
  · obtain ⟨calls, e', hstep, rfl, -⟩ := calls_of_step hst
    obtain ⟨-, ⟨rec, key, -, rfl⟩ | ⟨jobID, mutate, -, rfl⟩⟩ := step_start hstep
    · simp only [RaftStore.State.goto_self, Pc.proposed.injEq] at hprop
      rw [← hprop.2]
      exact .inr (.inl rfl)
    · simp at hprop
  · obtain ⟨calls, e', hstep, rfl, -⟩ := calls_of_step hst
    obtain ⟨attempt', j, mutate, -, -, rfl⟩ := step_read hstep
    simp only [RaftStore.State.goto_self] at hprop
    obtain ⟨out, hout⟩ | ⟨rec, cur, hget, hread⟩ :=
      afterRead_cases s.calls.store j mutate attempt' now
    · simp [hout] at hprop
    · simp only [hread, Pc.proposed.injEq] at hprop
      rw [← hprop.2]
      exact .inr (.inr ⟨j, rec, hget, rfl⟩)
  · simp [hpc] at hprop
  · simp [hpc] at hprop

theorem put_of_step (hst : step prog recs s a = some (t, e)) {p : Nat} {cur : Option JobRecord}
    {cmd : FsmCommand} (hprop : t.puts p = .proposed cur cmd) :
    s.puts p = .proposed cur cmd ∨ Succeeds s cmd := by
  cases a with
  | call b =>
    obtain ⟨calls, e', -, rfl, -⟩ := calls_of_step hst
    exact .inl hprop
  | putRead q now =>
    obtain ⟨rfl, -⟩ := step_putRead hst
    by_cases hp : p = q
    · subst hp
      simp only [Function.update_self, PutPc.proposed.injEq] at hprop
      rw [← hprop.2]
      cases hget : s.getJob (recs p).id with
      | none => exact .inr (.inl (by simp [putCommand]))
      | some r => exact .inr (.inr ⟨_, r, hget, by simp [putCommand]⟩)
    · simp only [Function.update_of_ne hp] at hprop
      exact .inl hprop
  | putApply q =>
    obtain ⟨_, _, result, -, rfl, -⟩ := step_putApply hst
    by_cases hp : p = q
    · subst hp
      simp at hprop
    · simp only [Function.update_of_ne hp] at hprop
      exact .inl hprop

theorem entry_of_step (hst : step prog recs s a = some (t, e)) {b : Action} {cmd : FsmCommand}
    (hentry : entry t b = some cmd) : entry s b = some cmd ∨ Succeeds s cmd := by
  cases b with
  | putRead => simp [entry] at hentry
  | call b =>
    obtain ⟨c, attempt, rfl, hprop⟩ := entry_call.mp hentry
    exact (proposed_of_step hst hprop).imp_left fun h => entry_call.mpr ⟨c, attempt, rfl, h⟩
  | putApply p =>
    obtain ⟨cur, hprop⟩ := entry_put.mp hentry
    exact (put_of_step hst hprop).imp_left fun h => entry_put.mpr ⟨cur, h⟩

structure Numbered (n : Nat) (s : State) : Prop where
  stored : ∀ k r, s.getJob k = some r → 0 ≤ r.version ∧ r.version ≤ n
  -- an entry is applied with the version it was made with, however late
  waiting : ∀ b cmd, entry s b = some cmd → 0 ≤ cmd.record.version ∧ cmd.record.version ≤ n

theorem Numbered.step {n : Nat} (h : Numbered n s) (hst : step prog recs s a = some (t, e)) :
    Numbered (n + 1) t where
  stored k r hget := by
    obtain ⟨-, hstore⟩ := store_of_step hst
    have hbound : 0 ≤ r.version ∧ r.version ≤ n := by
      simp only [State.getJob, BoltStore.getJob, hstore] at hget
      cases hentry : entry s a with
      | none =>
        rw [hentry] at hget
        exact h.stored k r hget
      | some cmd =>
        rw [hentry, JobFSM.apply_jobs] at hget
        split at hget
        · cases hget
          exact h.waiting a cmd hentry
        · exact h.stored k r hget
    omega
  waiting b cmd hentry := by
    obtain hold | hone | ⟨k, r, hget, hver⟩ := entry_of_step hst hentry
    · have := h.waiting b cmd hold
      omega
    · omega
    · have := h.stored k r hget
      omega

/-- A version grows by at most one with each step, so the `int64` of the code does not wrap around
in any run that could take place. -/
theorem version_le_of_run {ok : State → Action → Prop} {store : BoltStore} {as : List Action}
    {es : List Event} (h : (machine prog recs).Run ok (init store) as es s) {n : Nat}
    (hstore : ∀ k r, store.getJob k = some r → 0 ≤ r.version ∧ r.version ≤ n) {r : JobRecord}
    (hget : s.getJob k = some r) : 0 ≤ r.version ∧ r.version ≤ n + as.length := by
  have hnum : Numbered (n + as.length) s := by
    refine h.invariant_history (P := fun as _ s => Numbered (n + as.length) s) ⟨hstore, ?_⟩ ?_
    · intro b cmd hentry
      cases b with
      | call => simp [entry_call, init, RaftStore.init] at hentry
      | _ => simp [entry, init] at hentry
    · intro as es t a u e _ hnum _ hst
      rw [List.length_append]
      exact hnum.step hst
  exact_mod_cast hnum.stored k r hget

theorem waits_of_step {es : List Event} (h : Waits c j es s) (hs : Shaped prog recs s)
    (hfresh : fresh s a = true) (hcur : current s a = true) (hread : ∀ now, a ≠ .call (.read c now))
    (hst : step prog recs s a = some (t, e)) : Waits c j (es ++ e) t := by
  obtain hpc | ⟨now, -, hidle⟩ | ⟨now, ha⟩ | hmoved := pc_of_step (c := c) hst
  · -- another call moves: if it writes the record, the stored version has passed the one read
    obtain ⟨attempt, rec, cur, now, held, hprop, hget, hle, hlt⟩ | hmoved := h
    · left
      obtain ⟨hw, hget'⟩ | ⟨new, hw, hget', hnew⟩ := hs.grows hfresh hcur hst hget
      · refine ⟨attempt, rec, cur, now, held, hpc ▸ hprop, hget', hle, fun hmem => hlt ?_⟩
        exact (List.mem_append.mp hmem).resolve_right hw
      · exact ⟨attempt, rec, cur, now, new, hpc ▸ hprop, hget', by omega, fun _ => by omega⟩
    · exact .inr (hpc ▸ hmoved)
  · obtain ⟨attempt, rec, cur, now, held, hp, -⟩ | ⟨attempt, hp⟩ | ⟨out, hp⟩ := h <;>
      simp [hidle] at hp
  · exact absurd ha (hread now)
  · exact .inr hmoved

theorem waits_of_read {mutate : JobRecord → Except Err JobRecord} {now : Nat}
    (hcall : prog c = .transition j mutate)
    (hst : step prog recs s (.call (.read c now)) = some (t, e)) : Waits c j [] t := by
  obtain ⟨calls, e', hstep, rfl, -⟩ := calls_of_step hst
  obtain ⟨attempt, j', mutate', -, hcall', rfl⟩ := step_read hstep
  rw [hcall, Call.transition.injEq] at hcall'
  obtain ⟨rfl, rfl⟩ := hcall'
  obtain ⟨out, hout⟩ | ⟨rec, cur, hget, hprop⟩ := afterRead_cases s.calls.store j mutate attempt now
  · exact .inr (.inr ⟨out, by simp [hout]⟩)
  · exact .inl ⟨attempt, rec, cur, now, rec, by simp [hprop], hget, le_refl _, by simp⟩

theorem waits_of_run {as : List Action} {es : List Event} (hs : Shaped prog recs s)
    (h : Waits c j [] s)
    (hrun : (machine prog recs).Run (fun s a => fresh s a = true ∧ current s a = true) s as es t)
    (hnone : ∀ now, .call (.read c now) ∉ as) : Waits c j es t := by
  have hboth : Shaped prog recs t ∧ Waits c j es t := by
    refine hrun.mem.invariant_trace (P := fun es t => Shaped prog recs t ∧ Waits c j es t)
      ⟨hs, h⟩ fun es t a u e ⟨ht, hw⟩ ⟨⟨hfresh, hcur⟩, hmem⟩ hst => ?_
    refine ⟨shaped_of_step ht hst, waits_of_step hw ht hfresh hcur ?_ hst⟩
    rintro now rfl
    exact hnone now hmem
  exact hboth.2

theorem Waits.not_wrote {es : List Event} (h : Waits c j es s)
    (hst : step prog recs s (.call (.apply c)) = some (t, e)) (hmem : .wrote j ∈ e) :
    .wrote j ∉ es := by
  obtain ⟨rfl, -⟩ := store_of_step hst
  obtain ⟨calls, e', hstep, -, -⟩ := calls_of_step hst
  obtain ⟨attempt, cmd, hpc, -⟩ := step_apply hstep
  obtain ⟨attempt', rec, cur, now, held, hprop, hget, -, hlt⟩ | ⟨attempt', hprop⟩ | ⟨out, hprop⟩ := h
  · simp only [hpc, Pc.proposed.injEq] at hprop
    obtain ⟨rfl, rfl⟩ := hprop
    simp only [written, entry, hpc] at hmem
    split at hmem
    · rename_i hw
      simp only [List.mem_singleton, Event.wrote.injEq] at hmem
      have hver := version_of_writes_cas hw (hmem ▸ hget)
      intro hes
      have hgt := hlt hes
      omega
    · simp at hmem
  · simp [hpc] at hprop
  · simp [hpc] at hprop

/-- If a `PutJob` finds what it read whenever its entry is applied, every entry that writes an
existing record raises its version, and a `Transition` that comes back with `true` has overwritten
nothing that was written since its last read. -/
theorem versions_increase {store : BoltStore} {as : List Action} {es : List Event}
    (hrun : (machine prog recs).Run (fun s a => fresh s a = true ∧ current s a = true) (init store) as es s) :
    (∀ a t e, fresh s a = true → current s a = true → step prog recs s a = some (t, e) →
      ∀ k old, s.getJob k = some old →
        (.wrote k ∉ e ∧ t.getJob k = some old) ∨
          ∃ new, .wrote k ∈ e ∧ t.getJob k = some new ∧ old.version < new.version) ∧
    ∀ c j mutate now s₁ e₁ bs fs s₂ t e₂, prog c = .transition j mutate →
      step prog recs s (.call (.read c now)) = some (s₁, e₁) →
      (machine prog recs).Run (fun s a => fresh s a = true ∧ current s a = true) s₁ bs fs s₂ →
      (∀ now', .call (.read c now') ∉ bs) →
      step prog recs s₂ (.call (.apply c)) = some (t, e₂) →
      t.calls.pc c = .returned (.transitioned (.ok true)) → .wrote j ∈ e₂ → .wrote j ∉ fs := by
  have hs := shaped_of_run hrun
  constructor
  · intro a t e hfresh hcur hst k old hget
    exact hs.grows hfresh hcur hst hget
  · intro c j mutate now s₁ e₁ bs fs s₂ t e₂ hcall hread hrun' hnone happly _ hmem
    have hs₁ : Shaped prog recs s₁ := shaped_of_step hs hread
    exact (waits_of_run hs₁ (waits_of_read hcall hread) hrun' hnone).not_wrote happly hmem

def sampleStore : BoltStore :=
  (BoltStore.empty.putJobRaw { id := "j", status := .pending, version := 1 }).1

def sampleProg : Nat → Call
  | 0 => .transition "j" fun r => .ok { r with retryCount := r.retryCount + 1 }
  | _ => .submit { id := "k", status := .pending } ""

def samplePut (p : Nat) : JobRecord := { id := "j", status := .pending, retryCount := p }

def samplePrepared : State × List Event :=
  ((machine sampleProg samplePut).exec (fun s a => fresh s a && current s a) (init sampleStore)
    [.call (.start 0 1), .putRead 0 1]).get (by decide)

def sampleRead : State × List Event :=
  ((machine sampleProg samplePut).step samplePrepared.1 (.call (.read 0 2))).get (by decide)

def sampleSubmitted : State × List Event :=
  ((machine sampleProg samplePut).exec (fun s a => fresh s a && current s a) sampleRead.1
    [.call (.start 1 3), .call (.apply 1)]).get (by decide)

def samplePutApplied : State × List Event :=
  ((machine sampleProg samplePut).step samplePrepared.1 (.putApply 0)).get (by decide)

def sampleCommitted : State × List Event :=
  ((machine sampleProg samplePut).step sampleSubmitted.1 (.call (.apply 0))).get (by decide)

theorem versions_increase_sample :
    (∃ new, samplePutApplied.1.getJob "j" = some new ∧ 1 < new.version) ∧
      sampleCommitted.1.calls.pc 0 = .returned (.transitioned (.ok true)) ∧
      .wrote "j" ∉ sampleSubmitted.2 := by
  have hrun : (machine sampleProg samplePut).Run (fun s a => fresh s a = true ∧ current s a = true)
      (init sampleStore) [.call (.start 0 1), .putRead 0 1] samplePrepared.2 samplePrepared.1 :=
    (Lib.Machine.run_of_exec_get (by decide)).mono fun _ _ => Bool.and_eq_true_iff.mp
  have hrun' : (machine sampleProg samplePut).Run (fun s a => fresh s a = true ∧ current s a = true)
      sampleRead.1 [.call (.start 1 3), .call (.apply 1)] sampleSubmitted.2 sampleSubmitted.1 :=
    (Lib.Machine.run_of_exec_get (by decide)).mono fun _ _ => Bool.and_eq_true_iff.mp
  obtain ⟨hgrows, hkept⟩ := versions_increase hrun
  refine ⟨?_, rfl, ?_⟩
  · obtain ⟨hw, -⟩ | ⟨new, -, hget, hlt⟩ :=
      hgrows (.putApply 0) samplePutApplied.1 samplePutApplied.2 (by decide) (by decide) rfl "j"
        { id := "j", status := .pending, version := 1 } (by decide)
    · exact absurd hw (by decide)
    · exact ⟨new, hget, hlt⟩
  · exact hkept 0 "j" _ 2 sampleRead.1 sampleRead.2 _ _ _ sampleCommitted.1 sampleCommitted.2 rfl rfl
      hrun' (by simp) rfl rfl (by decide)

/-- Two `PutJob` calls read version 1 and both write version 2; a transition that read the first of
them overwrites the second. -/
def sampleStale : State × List Event :=
  ((machine sampleProg samplePut).exec fresh (init sampleStore)
    [.putRead 0 1, .putRead 1 1, .putApply 0, .call (.start 0 2), .call (.read 0 2)]).get (by decide)

def sampleRepeated : State × List Event :=
  ((machine sampleProg samplePut).step sampleStale.1 (.putApply 1)).get (by decide)

def sampleLost : State × List Event :=
  ((machine sampleProg samplePut).step sampleRepeated.1 (.call (.apply 0))).get (by decide)

theorem putJob_repeats_version :
    (∃ as, (machine sampleProg samplePut).Run (fun s a => fresh s a = true) (init sampleStore)
      (as ++ [.call (.read 0 2)]) sampleStale.2 sampleStale.1) ∧
    step sampleProg samplePut sampleStale.1 (.putApply 1) = some sampleRepeated ∧
    sampleRepeated.2 = [.wrote "j"] ∧
    (sampleStale.1.getJob "j").map JobRecord.version = some 2 ∧
    (sampleRepeated.1.getJob "j").map JobRecord.version = some 2 ∧
    step sampleProg samplePut sampleRepeated.1 (.call (.apply 0)) = some sampleLost ∧
    sampleLost.2 = [.wrote "j"] ∧
    sampleLost.1.calls.pc 0 = .returned (.transitioned (.ok true)) :=
  ⟨⟨[.putRead 0 1, .putRead 1 1, .putApply 0, .call (.start 0 2)],
      Lib.Machine.run_of_exec_get (by decide)⟩,
    (Option.some_get (by decide)).symm, by decide, by decide, by decide,
    (Option.some_get (by decide)).symm, by decide, rfl⟩

end Writers

end Minimodal.RaftStore
