import Minimodal.Lib.Machine
import Minimodal.Store.Fsm

namespace Minimodal.RaftStore

def maxCASRetries : Nat := 16

def errGaveUp (jobID : String) : Err :=
  .errorf ("transition " ++ jobID ++ ": gave up after " ++ toString maxCASRetries ++
    " CAS conflicts")

def submitCommand (rec : JobRecord) (key : String) (now : Nat) : FsmCommand where
  op := .submit
  record := { ({ rec with idempotencyKey := key }.stamp now) with version := 1 }
  idempotencyKey := key

/-- The command one round of `Transition` proposes: `rec` was read, `cur` is what the
mutator made of it. -/
def casCommand (rec cur : JobRecord) (now : Nat) : FsmCommand where
  op := .cas
  record := { cur.stamp now with version := rec.version + 1 }
  expectedVersion := rec.version

@[simp] theorem casCommand_op (rec cur : JobRecord) (now : Nat) :
    (casCommand rec cur now).op = .cas := rfl

@[simp] theorem casCommand_expectedVersion (rec cur : JobRecord) (now : Nat) :
    (casCommand rec cur now).expectedVersion = rec.version := rfl

inductive Call
  | submit (rec : JobRecord) (key : String)
  | transition (jobID : String) (mutate : JobRecord → Except Err JobRecord)

inductive Outcome
  | submitted (result : Except Err (String × Bool))
  | transitioned (result : Except Err Bool)
  | gaveUp (err : Err)
  deriving DecidableEq

/-- Where a call stands on a node that stays leader: before a local read, waiting
for its log entry to be applied, or back at its caller. -/
inductive Pc
  | idle
  | read (attempt : Nat)
  | proposed (attempt : Nat) (cmd : FsmCommand)
  | returned (out : Outcome)

structure State where
  store : BoltStore
  pc : Nat → Pc

inductive Action
  | start (call : Nat) (now : Nat)
  | read (call : Nat) (now : Nat)
  | apply (call : Nat)

def afterRead (s : BoltStore) (jobID : String) (mutate : JobRecord → Except Err JobRecord)
    (attempt now : Nat) : Pc :=
  match s.getJob jobID with
  | none => .returned (.transitioned (.error (BoltStore.errNotFound jobID)))
  | some rec =>
    match mutate rec with
    | .error .errSkipTransition => .returned (.transitioned (.ok false))
    | .error e => .returned (.transitioned (.error e))
    | .ok cur => .proposed attempt (casCommand rec cur now)

def afterApply (call : Call) (attempt : Nat) (resp : FsmResponse) : Pc :=
  match call, resp.err with
  | .submit _ _, some e => .returned (.submitted (.error e))
  | .submit _ _, none => .returned (.submitted (.ok (resp.jobID, resp.created)))
  | .transition _ _, some e => .returned (.transitioned (.error e))
  | .transition jobID _, none =>
    if resp.conflict then
      if attempt + 1 < maxCASRetries then .read (attempt + 1)
      else .returned (.gaveUp (errGaveUp jobID))
    else .returned (.transitioned (.ok true))

def State.goto (s : State) (store : BoltStore) (c : Nat) (pc : Pc) : State :=
  ⟨store, Function.update s.pc c pc⟩

@[simp] theorem State.goto_store (s : State) (store : BoltStore) (c : Nat) (pc : Pc) :
    (s.goto store c pc).store = store := rfl

@[simp] theorem State.goto_self (s : State) (store : BoltStore) (c : Nat) (pc : Pc) :
    (s.goto store c pc).pc c = pc := by
  simp [goto]

theorem State.goto_ne (s : State) (store : BoltStore) (pc : Pc) {c d : Nat} (h : d ≠ c) :
    (s.goto store c pc).pc d = s.pc d := by
  simp [goto, h]

def step (prog : Nat → Call) (s : State) : Action → Option (State × List Empty)
  | .start c now =>
    match s.pc c, prog c with
    | .idle, .submit rec key => some (s.goto s.store c (.proposed 0 (submitCommand rec key now)), [])
    | .idle, .transition _ _ => some (s.goto s.store c (.read 0), [])
    | _, _ => none
  | .read c now =>
    match s.pc c, prog c with
    | .read attempt, .transition jobID mutate =>
      some (s.goto s.store c (afterRead s.store jobID mutate attempt now), [])
    | _, _ => none
  | .apply c =>
    match s.pc c with
    | .proposed attempt cmd =>
      let (store, resp) := JobFSM.apply s.store cmd
      some (s.goto store c (afterApply (prog c) attempt resp), [])
    | _ => none

variable {prog : Nat → Call} {s t : State} {e : List Empty} {c now : Nat}

theorem step_start (h : step prog s (.start c now) = some (t, e)) :
    s.pc c = .idle ∧
      ((∃ rec key, prog c = .submit rec key ∧
          t = s.goto s.store c (.proposed 0 (submitCommand rec key now))) ∨
        ∃ jobID mutate, prog c = .transition jobID mutate ∧ t = s.goto s.store c (.read 0)) := by
  simp only [step] at h
  split at h
  · rename_i rec key hpc hprog
    simp only [Option.some.injEq, Prod.mk.injEq] at h
    exact ⟨hpc, .inl ⟨rec, key, hprog, h.1.symm⟩⟩
  · rename_i jobID mutate hpc hprog
    simp only [Option.some.injEq, Prod.mk.injEq] at h
    exact ⟨hpc, .inr ⟨jobID, mutate, hprog, h.1.symm⟩⟩
  · simp at h

theorem step_read (h : step prog s (.read c now) = some (t, e)) :
    ∃ attempt jobID mutate, s.pc c = .read attempt ∧ prog c = .transition jobID mutate ∧
      t = s.goto s.store c (afterRead s.store jobID mutate attempt now) := by
  simp only [step] at h
  split at h
  · rename_i attempt jobID mutate hpc hprog
    simp only [Option.some.injEq, Prod.mk.injEq] at h
    exact ⟨attempt, jobID, mutate, hpc, hprog, h.1.symm⟩
  · simp at h

theorem step_apply (h : step prog s (.apply c) = some (t, e)) :
    ∃ attempt cmd, s.pc c = .proposed attempt cmd ∧
      t = s.goto (JobFSM.apply s.store cmd).1 c
        (afterApply (prog c) attempt (JobFSM.apply s.store cmd).2) := by
  simp only [step] at h
  split at h
  · rename_i attempt cmd hpc
    simp only [Option.some.injEq, Prod.mk.injEq] at h
    exact ⟨attempt, cmd, hpc, h.1.symm⟩
  · simp at h

/-- Concurrent calls of a stable leader's store; `apply` steps come in log order. -/
def machine (prog : Nat → Call) : Lib.Machine State Action Empty := ⟨step prog⟩

def init (store : BoltStore) : State := ⟨store, fun _ => .idle⟩

end Minimodal.RaftStore
