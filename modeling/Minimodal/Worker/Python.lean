import Minimodal.Lib.Effect
import Minimodal.Server.Mutators

namespace Minimodal

namespace Worker

/-- A character of a Python `str`, which may hold lone surrogates. -/
inductive CodePoint
  | scalar (c : Char)
  | surrogate (n : Fin 2048)
  deriving DecidableEq, Repr

abbrev Text := List CodePoint

def text (s : String) : Text := s.toList.map .scalar

def CodePoint.encode : CodePoint → Option Char
  | .scalar c => some c
  | .surrogate _ => none

namespace Text

def encodable (t : Text) : Bool := t.all fun c => c.encode.isSome

def encode (t : Text) : Option String :=
  if t.encodable then some (String.ofList (t.filterMap CodePoint.encode)) else none

def isLineBreak : CodePoint → Bool
  | .scalar c => c.val ∈ [0x0a, 0x0b, 0x0c, 0x0d, 0x1c, 0x1d, 0x1e, 0x85, 0x2028, 0x2029]
  | .surrogate _ => false

/-- `str.splitlines`, with the line read so far. -/
def splitlinesFrom (line : Text) : Text → List Text
  | [] => if line = [] then [] else [line]
  | .scalar '\r' :: .scalar '\n' :: rest => line :: splitlinesFrom [] rest
  | c :: rest =>
    if isLineBreak c then line :: splitlinesFrom [] rest else splitlinesFrom (line ++ [c]) rest

def splitlines (t : Text) : List Text := splitlinesFrom [] t

@[simp] theorem encodable_nil : encodable [] = true := rfl

@[simp] theorem encodable_append (t u : Text) : (t ++ u).encodable = (t.encodable && u.encodable) := by
  simp [encodable]

@[simp] theorem encodable_cons (c : CodePoint) (t : Text) :
    encodable (c :: t) = (c.encode.isSome && encodable t) := rfl

@[simp] theorem encodable_text (s : String) : (text s).encodable = true := by
  simp [encodable, text, CodePoint.encode]

theorem encode_isSome (t : Text) : t.encode.isSome = t.encodable := by
  cases h : t.encodable <;> simp [encode, h]

theorem isLineBreak_encode {c : CodePoint} (h : isLineBreak c = true) : c.encode.isSome = true := by
  cases c with
  | scalar c => rfl
  | surrogate n => simp [isLineBreak] at h

theorem splitlinesFrom_encodable (line t : Text) :
    (splitlinesFrom line t).all encodable = (line.encodable && t.encodable) := by
  fun_induction splitlinesFrom line t with
  | case1 => rfl
  | case2 line h => simp
  | case3 line rest ih => simp [ih, CodePoint.encode]
  | case4 line c rest hne hbreak ih => simp [ih, isLineBreak_encode hbreak]
  | case5 line c rest hne hbreak ih => simp [ih, Bool.and_assoc]

theorem splitlines_encodable (t : Text) : t.splitlines.all encodable = t.encodable := by
  simp [splitlines, splitlinesFrom_encodable]

end Text

/-- The classes of exception that some `except` clause tells apart. A `BaseException` that is no
`Exception` ends the interpreter with its exit code. -/
inductive Kind
  | rpcError
  | connection
  | valueError
  | other
  | base (exitCode : Int)
  deriving DecidableEq, Repr

structure Raised where
  kind : Kind
  str : Text
  deriving DecidableEq, Repr

inductive Stop
  | raised (e : Raised)
  | exited (code : Int)
  deriving DecidableEq, Repr

namespace Stop

def kind : Stop → Option Kind
  | .raised e => some e.kind
  | .exited _ => none

def isRaised (stop : Stop) : Bool := stop.kind.isSome

def isException (stop : Stop) : Bool :=
  match stop.kind with
  | none | some (.base _) => false
  | _ => true

def str : Stop → Text
  | .raised e => e.str
  | .exited _ => []

def exitCode : Stop → Int
  | .raised ⟨.base code, _⟩ => code
  | .raised _ => 1
  | .exited code => code

end Stop

/-- A user function: what it writes, which may raise, and how it ends. A value comes with what
`cloudpickle.dumps` makes of it; what that writes to file descriptor 1 is a `writeFd` before. -/
inductive UserFn
  | returns (value : Except Stop Bytes)
  | raises (e : Raised)
  | exits (code : Int)
  | write (s : Text) (isStderr : Bool) (k : Option Stop → UserFn)
  | writeFd (data : Bytes) (k : UserFn)

/-- Runs the function; `write` is the stream in `sys.stdout` and `sys.stderr`, `writeFd` the
file descriptor under it. -/
def UserFn.call {σ : Type} (write : Text → Bool → Lib.Effect Stop σ Unit)
    (writeFd : Bytes → Lib.Effect Stop σ Unit) : UserFn → Lib.Effect Stop σ (Except Stop Bytes)
  | .returns value => pure value
  | .raises e => .stop (.raised e)
  | .exits code => .stop (.exited code)
  | .write s isStderr k =>
    Lib.Effect.attempt Stop.isRaised (write s isStderr) >>= fun r => (k r).call write writeFd
  | .writeFd data k => writeFd data >>= fun _ => k.call write writeFd

/-- The dicts that travel between the worker and its children. -/
structure Dict where
  fn : Option Bytes := none
  args : Option Bytes := none
  ok : Option Bool := none
  resultBytes : Option Bytes := none
  error : Option Text := none
  executionMs : Option Int := none
  stdout : Option Text := none
  stderr : Option Text := none
  deriving DecidableEq, Repr

structure Pickle where
  dumps : Dict → Bytes
  loads : Bytes → Except Stop Dict
  loads_dumps : ∀ d, loads (dumps d) = .ok d
  dumps_ne_nil : ∀ d, dumps d ≠ []

/-- The readings of `time.monotonic` during one task, in milliseconds. -/
structure Clock where
  start : Int
  called : Int
  returned : Int
  failed : Int
  ended : Int

inductive Strategy
  | inproc
  | naive
  | fork
  deriving DecidableEq, Repr

/-- What one task meets: the user's code, the libraries, the other processes. -/
structure Env where
  workerID : String
  -- `deserialize_callable` and `deserialize_args`, applied
  loads : Bytes → Bytes → Except Stop UserFn
  -- what they write to file descriptor 1
  loadFd : Bytes → Bytes → Bytes
  pickle : Pickle
  formatExc : Stop → Text
  -- the message of a `UnicodeEncodeError`
  encodeError : Text → String
  clock : Clock
  time : Int
  -- what a write to the inherited streams raises
  stdio : Text → Bool → Option Raised
  -- the `OSError` that `subprocess.Popen` raises
  popen : Option Text
  -- what an interpreter writes to file descriptor 1 as it ends: text that is still in the buffer
  -- of `sys.stdout`, `atexit` handlers
  atExit : Bytes
  -- whether a process that the user's code leaves behind holds the pipes of the subprocess until
  -- `communicate` times out
  pipesHeld : Bool
  -- the raw stderr of the subprocess, decoded with `errors="replace"`
  stderrData : String
  -- the text of `acquire_timeout_s`
  acquireTimeout : String
  -- the text of a failed `connect`
  connectError : Text
  -- whether the spawner forks a new child
  respawn : Option Nat
  -- the `RpcError` that `ReportTaskResult` raises
  orch : ReportTaskResultRequest → Option Text

namespace Env

variable (env : Env)

def unicodeEncodeError (t : Text) : Stop := .raised ⟨.valueError, text (env.encodeError t)⟩

def string (t : Text) : Except Stop String :=
  match t.encode with
  | some s => .ok s
  | none => .error (env.unicodeEncodeError t)

theorem string_ok {t : Text} (h : t.encodable = true) : ∃ s, env.string t = .ok s := by
  obtain ⟨s, hs⟩ := Option.isSome_iff_exists.mp ((t.encode_isSome).trans h)
  exact ⟨s, by simp [string, hs]⟩

theorem string_error {t : Text} (h : t.encodable = false) :
    env.string t = .error (env.unicodeEncodeError t) := by
  have hs : t.encode = none := by simp [Text.encode, h]
  simp [string, hs]

def logLine (line : Text) (isStderr : Bool) : Except Stop LogLine := do
  let line ← env.string line
  return { line := line.toUTF8.data.toList, isStderr, tsUnixMs := env.time }

theorem logLine_ok {line : Text} (h : line.encodable = true) (isStderr : Bool) :
    ∃ item, env.logLine line isStderr = .ok item := by
  obtain ⟨s, hs⟩ := env.string_ok h
  exact ⟨_, by simp only [logLine, hs]; rfl⟩

theorem logLine_error {line : Text} (h : line.encodable = false) (isStderr : Bool) :
    env.logLine line isStderr = .error (env.unicodeEncodeError line) := by
  simp only [logLine, env.string_error h]
  rfl

end Env

theorem UserFn.call_preserves {σ τ : Type} {f : σ → τ} {write : Text → Bool → Lib.Effect Stop σ Unit}
    {writeFd : Bytes → Lib.Effect Stop σ Unit}
    (hwrite : ∀ s isStderr, Lib.Effect.Preserves f (write s isStderr))
    (hfd : ∀ data, Lib.Effect.Preserves f (writeFd data)) (fn : UserFn) :
    Lib.Effect.Preserves f (fn.call write writeFd) := by
  induction fn with
  | returns value => exact .pure value
  | raises e => exact .stop _
  | exits code => exact .stop _
  | write s isStderr k ih => exact (hwrite s isStderr).attempt.bind ih
  | writeFd data k ih => exact (hfd data).bind fun _ => ih

end Worker

end Minimodal
