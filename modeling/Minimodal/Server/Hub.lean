import Minimodal.Store.Record

namespace Minimodal

/-- Lines are bytes: truncation cuts them at a byte offset. -/
structure LogLine where
  line : Bytes
  isStderr : Bool
  tsUnixMs : Int
  deriving DecidableEq, Repr

structure JobResult where
  status : JobStatus
  resultBytes : Bytes
  error : String
  coldStartMs : Int
  totalDurationMs : Int
  retryCount : Int
  workerID : String
  deriving DecidableEq, Repr

inductive JobEvent
  | status (jobID : String) (st : JobStatus)
  | log (jobID : String) (line : LogLine)
  | result (jobID : String) (result : JobResult)
  deriving DecidableEq, Repr

def JobEvent.isResult : JobEvent → Bool
  | .result _ _ => true
  | _ => false

structure LogSub where
  ch : List JobEvent := []
  dropped : Nat := 0
  deriving DecidableEq, Repr

structure JobLogState where
  lines : List LogLine := []
  dropped : Nat := 0
  subs : List (Nat × LogSub) := []
  terminal : Option JobEvent := none
  deriving DecidableEq, Repr

structure LogHub where
  jobs : Std.ExtTreeMap String JobLogState := ∅
  maxLines : Nat := 10000

def subChannelBuffer : Nat := 1024

def maxLineBytes : Nat := 8192

def truncationMark : Bytes := "…[truncated]".toUTF8.toList

namespace LogSub

/-- The non-blocking send: a full mailbox loses the event. -/
def send (ev : JobEvent) (sub : LogSub) : LogSub :=
  if sub.ch.length < subChannelBuffer then { sub with ch := sub.ch ++ [ev] }
  else { sub with dropped := sub.dropped + 1 }

end LogSub

namespace JobLogState

def fanOut (st : JobLogState) (ev : JobEvent) : JobLogState :=
  { st with subs := st.subs.map fun sub => (sub.1, sub.2.send ev) }

end JobLogState

namespace LogHub

def new : LogHub := {}

def get (h : LogHub) (jobID : String) : JobLogState := h.jobs.getD jobID {}

def truncate (line : LogLine) : LogLine :=
  if line.line.length > maxLineBytes then
    { line with line := line.line.take maxLineBytes ++ truncationMark }
  else line

def appendLine (maxLines : Nat) (jobID : String) (st : JobLogState) (line : LogLine) :
    JobLogState :=
  let line := truncate line
  let st :=
    if st.lines.length ≥ maxLines then { st with dropped := st.dropped + 1 }
    else { st with lines := st.lines ++ [line] }
  st.fanOut (.log jobID line)

def append (h : LogHub) (jobID : String) (lines : List LogLine) : LogHub :=
  if lines.isEmpty then h
  else
    let st := h.get jobID
    if st.terminal.isSome then { h with jobs := h.jobs.insert jobID st }
    else { h with jobs := h.jobs.insert jobID (lines.foldl (appendLine h.maxLines jobID) st) }

def subscribe (h : LogHub) (jobID : String) (sub : Nat) :
    LogHub × List JobEvent × Option JobEvent :=
  let st := h.get jobID
  ({ h with jobs := h.jobs.insert jobID { st with subs := (sub, {}) :: st.subs } },
    st.lines.map (.log jobID), st.terminal)

def unsubscribe (h : LogHub) (jobID : String) (sub : Nat) : LogHub :=
  match h.jobs[jobID]? with
  | none => h
  | some st =>
    let st := { st with subs := st.subs.filter fun x => x.1 != sub }
    if st.terminal.isSome && st.subs.isEmpty then { h with jobs := h.jobs.erase jobID }
    else { h with jobs := h.jobs.insert jobID st }

def receive (h : LogHub) (jobID : String) (sub : Nat) : LogHub × Option JobEvent :=
  let st := h.get jobID
  match st.subs.lookup sub with
  | some { ch := ev :: rest, dropped } =>
    let subs := st.subs.map fun x => if x.1 = sub then (sub, { ch := rest, dropped }) else x
    ({ h with jobs := h.jobs.insert jobID { st with subs } }, some ev)
  | _ => (h, none)

def finish (h : LogHub) (jobID : String) (result : JobEvent) : LogHub :=
  match h.jobs[jobID]? with
  | none => h
  | some st =>
    if st.terminal.isSome then h
    else
      let st := { st with terminal := some result }.fanOut result
      if st.subs.isEmpty then { h with jobs := h.jobs.erase jobID }
      else { h with jobs := h.jobs.insert jobID st }

end LogHub

end Minimodal
