import Minimodal.Lib.Bucket

namespace Minimodal

/-- Go's error values: the sentinels the code compares against, and what
`fmt.Errorf` builds, with or without `%w`. -/
inductive Err
  | errSkipTransition
  | errNoWorkersAvailable
  | errAllWorkersExhausted
  | errJobAlreadyTerminal
  | errNotLeader
  | errorf (msg : String)
  | wrapf (msg : String) (cause : Err)
  deriving DecidableEq, Repr

def Err.error : Err → String
  | .errSkipTransition => "skip transition"
  | .errNoWorkersAvailable => "no alive workers available"
  | .errAllWorkersExhausted => "all alive workers refused or unreachable"
  | .errJobAlreadyTerminal => "job already in terminal state"
  | .errNotLeader => "not the raft leader"
  | .errorf msg => msg
  | .wrapf msg _ => msg

def Err.is : Err → Err → Bool
  | .wrapf msg cause, target => decide (Err.wrapf msg cause = target) || cause.is target
  | e, target => decide (e = target)

inductive JobStatus
  | pending
  | running
  | done
  | failed
  deriving DecidableEq, Repr

abbrev Bytes := List UInt8

/-- A zero `time.Time` is `none`; a clock reading is never zero. -/
abbrev Time := Option Nat

structure JobRecord where
  id : String
  status : JobStatus
  workerID : String := ""
  functionName : String := ""
  functionBytes : Bytes := []
  argsBytes : Bytes := []
  resultBytes : Bytes := []
  coldStartMs : Int := 0
  executionMs : Int := 0
  idempotencyKey : String := ""
  createdAt : Time := none
  updatedAt : Time := none
  retryCount : Int := 0
  error : String := ""
  version : Int := 0
  deriving DecidableEq, Repr

namespace JobRecord

def terminal (r : JobRecord) : Bool := r.status = .done || r.status = .failed

def unfinished (r : JobRecord) : Bool := r.status = .pending || r.status = .running

/-- The leader or the transaction stamps a record just before it is written. -/
def stamp (r : JobRecord) (now : Nat) : JobRecord :=
  { r with updatedAt := some now, createdAt := r.createdAt.or (some now) }

/-- A record without its bookkeeping: the version and the two timestamps. -/
def core (r : JobRecord) : JobRecord :=
  { r with version := 0, createdAt := none, updatedAt := none }

theorem unfinished_iff (r : JobRecord) : r.unfinished = true ↔ r.terminal = false := by
  cases h : r.status <;> simp [unfinished, terminal, h]

theorem terminal_iff (r : JobRecord) :
    r.terminal = true ↔ r.status = .done ∨ r.status = .failed := by
  simp [terminal]

@[simp] theorem core_stamp (r : JobRecord) (now : Nat) : (r.stamp now).core = r.core := rfl

@[simp] theorem core_core (r : JobRecord) : r.core.core = r.core := rfl

@[simp] theorem stamp_id (r : JobRecord) (now : Nat) : (r.stamp now).id = r.id := rfl
@[simp] theorem stamp_status (r : JobRecord) (now : Nat) : (r.stamp now).status = r.status := rfl
@[simp] theorem stamp_workerID (r : JobRecord) (now : Nat) :
    (r.stamp now).workerID = r.workerID := rfl
@[simp] theorem stamp_functionName (r : JobRecord) (now : Nat) :
    (r.stamp now).functionName = r.functionName := rfl
@[simp] theorem stamp_functionBytes (r : JobRecord) (now : Nat) :
    (r.stamp now).functionBytes = r.functionBytes := rfl
@[simp] theorem stamp_argsBytes (r : JobRecord) (now : Nat) :
    (r.stamp now).argsBytes = r.argsBytes := rfl
@[simp] theorem stamp_idempotencyKey (r : JobRecord) (now : Nat) :
    (r.stamp now).idempotencyKey = r.idempotencyKey := rfl
@[simp] theorem stamp_version (r : JobRecord) (now : Nat) :
    (r.stamp now).version = r.version := rfl
@[simp] theorem stamp_terminal (r : JobRecord) (now : Nat) :
    (r.stamp now).terminal = r.terminal := rfl
@[simp] theorem stamp_unfinished (r : JobRecord) (now : Nat) :
    (r.stamp now).unfinished = r.unfinished := rfl

theorem stamp_createdAt (r : JobRecord) (now : Nat) :
    (r.stamp now).createdAt = r.createdAt.or (some now) := rfl

end JobRecord

end Minimodal
