import Minimodal.Lib.Machine
import Minimodal.Worker.Report

namespace Minimodal

namespace Worker

open Lib (Effect)

/-- What can be in `sys.stdout` and `sys.stderr`: a stream that writes to no router, a router, or a
stream that hands what is written on to a router. -/
inductive TextStream
  | plain
  | router (isStderr : Bool)
  | wrapper (isStderr : Bool)
  deriving DecidableEq

/-- How many writes nest before the interpreter gives up; what is on the stack below is not
counted. -/
def recursionLimit : Nat := 1000

def recursionError : Stop := .raised ⟨.other, text "maximum recursion depth exceeded"⟩

/-- What gets through the `except ValueError` of a router around the write, if there is one. -/
def uncaught (within : Bool) (stop : Stop) : Option Stop :=
  if within && decide (stop.kind = some .valueError) then none else some stop

section Rest

variable (env : Env) (request : ExecuteTaskRequest)

def plainWrite (within : Bool) (s : Text) (isStderr : Bool) : Option Stop :=
  (env.stdio s isStderr).bind fun e => uncaught within (.raised e)

/-- `_run_task` of the `inproc` strategy around the call of the user's function. -/
def afterCall (x : Effect Stop State (Except Stop Bytes)) : Effect Stop State Unit :=
  Effect.ensure Stop.isRaised
    (.rescue Stop.isException
      (do
        let result ← .rescue Stop.isException
          (do
            let value ← x
            let resultBytes ← .ofExcept (serializeResult value)
            pure
              { success := true
                resultBytes
                coldStartMs := env.clock.called - env.clock.start
                executionMs := env.clock.returned - env.clock.called })
          fun e =>
            pure
              { success := false
                error := env.formatExc e
                coldStartMs := env.clock.failed - env.clock.start }
        reportResult env request result)
      (reportInternalError env request))
    dec

/-- Where a thread is in `_run_task` with `_execute_streaming`; what comes after the call of the
user's function touches nothing that tasks share and is one step. `write` has come to `stream`, with
`frames` left on the stack, `within` a router or not. -/
inductive TaskPc
  | install
  | load
  | setOut (fn : UserFn)
  | setErr (fn : UserFn)
  | call (fn : UserFn)
  | write (stream : TextStream) (frames : Nat) (within : Bool) (s : Text) (isStderr : Bool)
    (k : Option Stop → UserFn)
  | clearOut (outcome : Except Stop (Except Stop Bytes))
  | clearErr (outcome : Except Stop (Except Stop Bytes))
  | finish (outcome : Except Stop (Except Stop Bytes))

def TaskPc.resume : TaskPc → Effect Stop State Unit
  | .install | .load =>
    afterCall env request
      (userCode env request.functionBytes request.argsBytes (routerWrite env) fun _ => pure ())
  | .setOut fn | .setErr fn | .call fn =>
    afterCall env request (fn.call (routerWrite env) fun _ => pure ())
  | .write .plain _ _ s isStderr k =>
    afterCall env request
      ((k (plainWrite env true s isStderr)).call (routerWrite env) fun _ => pure ())
  | .write _ _ _ s isStderr k =>
    afterCall env request
      ((UserFn.write s isStderr k).call (routerWrite env) fun _ => pure ())
  | .clearOut outcome | .clearErr outcome | .finish outcome =>
    afterCall env request (.ofExcept outcome)

def TaskPc.Direct : TaskPc → Prop
  | .write .plain frames within _ _ _ => within = true ∧ 1 ≤ frames
  | .write stream frames within _ isStderr _ =>
    stream = .router isStderr ∧ within = false ∧ 2 ≤ frames
  | _ => True

theorem runTask_inproc (s : State) (h : s.streamer = {}) :
    (runTask env .inproc request).exec s = (TaskPc.install.resume env request).exec s := by
  obtain ⟨streamer⟩ := s
  subst h
  rfl

variable {env request} {x y : Effect Stop State (Except Stop Bytes)} {s t : State}

theorem afterCall_congr (h : x.exec s = y.exec t) :
    (afterCall env request x).exec s = (afterCall env request y).exec t := by
  simp only [afterCall, Effect.exec_ensure, Effect.exec_rescue, Effect.exec_bind, h]

theorem write_ok {text : Text} {isStderr : Bool} (k : Option Stop → UserFn)
    (h : (sink env text isStderr).exec s = (.ok (), t)) :
    ((UserFn.write text isStderr k).call (routerWrite env) fun _ => pure ()).exec s =
      ((k (plainWrite env true text isStderr)).call (routerWrite env) fun _ => pure ()).exec t := by
  have hwrite : (routerWrite env text isStderr).exec s = _ := Effect.exec_bind_ok h
  rw [UserFn.call, plainWrite]
  cases hstdio : env.stdio text isStderr with
  | none =>
    rw [hstdio] at hwrite
    exact Effect.exec_bind_ok (Effect.exec_attempt_ok hwrite)
  | some e =>
    rw [hstdio] at hwrite
    by_cases hkind : e.kind = .valueError
    · simp only [hkind, if_true] at hwrite
      simp only [Option.bind_some, uncaught, Stop.kind, hkind, decide_true, Bool.and_self, if_true]
      exact Effect.exec_bind_ok (Effect.exec_attempt_ok hwrite)
    · simp only [hkind, if_false] at hwrite
      simp only [Option.bind_some, uncaught, Stop.kind, Option.some.injEq, hkind, decide_false,
        Bool.and_false, Bool.false_eq_true, if_false]
      exact Effect.exec_bind_ok (Effect.exec_attempt_error hwrite rfl)

theorem write_error {text : Text} {isStderr : Bool} {e : Stop} (k : Option Stop → UserFn)
    (h : (sink env text isStderr).exec s = (.error e, t)) :
    ((UserFn.write text isStderr k).call (routerWrite env) fun _ => pure ()).exec s =
      if e.isRaised then ((k (some e)).call (routerWrite env) fun _ => pure ()).exec t
      else (.error e, t) := by
  have hwrite : (routerWrite env text isStderr).exec s = _ := Effect.exec_bind_error h
  rw [UserFn.call]
  cases hraised : e.isRaised with
  | true => exact Effect.exec_bind_ok (Effect.exec_attempt_error hwrite hraised)
  | false => exact Effect.exec_bind_error (Effect.exec_attempt_skip hwrite hraised)

end Rest

/-- An accepted task; `state` is its streamer, its report and its share of the counter. -/
structure Task where
  env : Env
  request : ExecuteTaskRequest
  state : State := { active := 1 }
  done : Bool := false

/-- How the task ends if the process runs nothing else. -/
def Task.alone (task : Task) : Except Stop Unit × State :=
  (runTask task.env .inproc task.request).exec { active := 1 }

inductive TaskThread
  | idle
  | running (task : Nat) (pc : TaskPc)

/-- The interpreter of a worker that runs tasks on the threads of its pool. `sys` is what
`sys.stdout` and `sys.stderr` hold, `routers` whether there are `_routers`, `fallback` is the
`_fallback` of each, and `sinks` are their sinks by thread, each one the `sink` of a task's
streamer. -/
structure Interpreter where
  sys : Bool → TextStream := fun _ => .plain
  routers : Bool := false
  fallback : Bool → TextStream := fun _ => .plain
  sinks : Nat → Bool → Option Nat := fun _ _ => none
  threads : Nat → TaskThread := fun _ => .idle
  tasks : Nat → Option Task := fun _ => none
  next : Nat := 0
  exited : Bool := false

namespace Interpreter

/-- `replace` assigns `sys.stdout` or `sys.stderr`, `print` is a write of a thread that runs no
task. -/
inductive Action
  | take (thread : Nat) (env : Env) (request : ExecuteTaskRequest)
  | step (thread : Nat)
  | replace (isStderr : Bool) (stream : TextStream)
  | print (thread : Nat) (s : Text) (isStderr : Bool)

variable (p : Interpreter)

def goto (n k : Nat) (pc : TaskPc) : Interpreter :=
  { p with threads := Function.update p.threads n (.running k pc) }

def setSink (n : Nat) (isStderr : Bool) (sink : Option Nat) : Interpreter :=
  { p with sinks := Function.update p.sinks n (Function.update (p.sinks n) isStderr sink) }

def setTask (k : Nat) (task : Task) : Interpreter :=
  { p with tasks := Function.update p.tasks k (some task) }

/-- `install_routers`; a stream that is in the place of a router gets below it. -/
def install : Interpreter :=
  { p with
    routers := true
    fallback := fun isStderr =>
      if p.sys isStderr = .router isStderr then p.fallback isStderr else p.sys isStderr
    sys := .router }

def route (n : Nat) (s : Text) (isStderr : Bool) : Interpreter × Except Stop Unit :=
  match (p.sinks n isStderr).bind fun k => (p.tasks k).map fun task => (k, task) with
  | none => (p, .ok ())
  | some (k, task) =>
    let (r, state) := (sink task.env s isStderr).exec task.state
    (p.setTask k { task with state }, r)

def passes : Nat → TextStream → List Bool
  | 0, _ | _, .plain => []
  | frames + 1, .wrapper isStderr => passes frames (.router isStderr)
  | frames + 1, .router isStderr => isStderr :: passes frames (p.fallback isStderr)

def exits {α : Type} : Except Stop α → Bool
  | .ok _ => false
  | .error stop => !stop.isRaised

def stepTask (n k : Nat) (task : Task) : TaskPc → Interpreter
  | .install => p.install.goto n k .load
  | .load =>
    match task.env.loads task.request.functionBytes task.request.argsBytes with
    | .ok fn => p.goto n k (.setOut fn)
    | .error stop => { p with exited := !stop.isRaised }.goto n k (.finish (.error stop))
  | .setOut fn => (p.setSink n false (some k)).goto n k (.setErr fn)
  | .setErr fn => (p.setSink n true (some k)).goto n k (.call fn)
  | .call (.returns value) => p.goto n k (.clearOut (.ok value))
  | .call (.raises e) => p.goto n k (.clearOut (.error (.raised e)))
  | .call (.exits _) => { p with exited := true }
  | .call (.writeFd _ fn) => p.goto n k (.call fn)
  | .call (.write s isStderr fn) =>
    p.goto n k (.write (p.sys isStderr) recursionLimit false s isStderr fn)
  | .write _ 0 _ _ _ fn => p.goto n k (.call (fn (some recursionError)))
  | .write .plain (_ + 1) within s isStderr fn =>
    p.goto n k (.call (fn (plainWrite task.env within s isStderr)))
  | .write (.wrapper b) (frames + 1) within s isStderr fn =>
    p.goto n k (.write (.router b) frames within s isStderr fn)
  | .write (.router b) (frames + 1) within s isStderr fn =>
    match p.route n s b with
    | (p, .ok ()) => p.goto n k (.write (p.fallback b) frames true s isStderr fn)
    | (p, .error stop) =>
      if stop.isRaised then p.goto n k (.call (fn (uncaught within stop)))
      else { p with exited := true }.goto n k (.clearOut (.error stop))
  | .clearOut outcome => (p.setSink n false none).goto n k (.clearErr outcome)
  | .clearErr outcome => (p.setSink n true none).goto n k (.finish outcome)
  | .finish outcome =>
    let (r, state) := (afterCall task.env task.request (.ofExcept outcome)).exec task.state
    { p.setTask k { task with state, done := true } with
      threads := Function.update p.threads n .idle, exited := exits r }

def step : Action → Option Interpreter
  | .take n env request =>
    match p.threads n with
    | .idle =>
      if p.exited then none
      else some { p.setTask p.next { env, request } with
        threads := Function.update p.threads n (.running p.next .install), next := p.next + 1 }
    | .running _ _ => none
  | .step n =>
    match p.threads n with
    | .idle => none
    | .running k pc => if p.exited then none else (p.tasks k).map fun task => p.stepTask n k task pc
  | .replace isStderr stream =>
    if stream = .plain ∨ p.routers then some { p with sys := Function.update p.sys isStderr stream }
    else none
  | .print n s isStderr =>
    match p.threads n with
    | .idle =>
      some ((p.passes recursionLimit (p.sys isStderr)).foldl (fun p b => (p.route n s b).1) p)
    | .running _ _ => none

def machine : Lib.Machine Interpreter Action Empty where
  step p a := (p.step a).map (·, [])

end Interpreter

def TaskThread.sinks : TaskThread → Bool → Option Nat
  | .running k (.setErr _), false => some k
  | .running k (.call _), _ | .running k (.write _ _ _ _ _ _), _ | .running k (.clearOut _), _ => some k
  | .running k (.clearErr _), true => some k
  | _, _ => none

def TaskThread.inside : TaskThread → Bool
  | .idle | .running _ .install | .running _ (.finish _) => false
  | _ => true

def TaskThread.Holds (task : Task) : TaskThread → Prop
  | .idle => task.done = true ∧ task.state = task.alone.2
  | .running _ pc => task.done = false ∧ pc.Direct ∧
      (pc.resume task.env task.request).exec task.state = task.alone

def TaskThread.task : TaskThread → Option Nat
  | .idle => none
  | .running k _ => some k

namespace Interpreter

def Plain (p : Interpreter) : Prop :=
  ∀ isStderr, p.fallback isStderr = .plain ∧
    (p.sys isStderr = .plain ∨ p.sys isStderr = .router isStderr)

structure Separate (p : Interpreter) : Prop where
  plain : p.Plain
  sinks : ∀ n, p.sinks n = (p.threads n).sinks
  live : ∀ n, (p.threads n).inside = true → p.sys = .router
  fresh : ∀ k task, p.tasks k = some task → k < p.next
  unique : ∀ n n' k, (p.threads n).task = some k → (p.threads n').task = some k → n = n'
  running : ∀ n k, (p.threads n).task = some k →
    ∃ task, p.tasks k = some task ∧ (p.threads n).Holds task
  done : ∀ k task, p.tasks k = some task → task.done = true → TaskThread.idle.Holds task

/-- Thread `n`, which runs task `k`, gets to `thread` and leaves the task as `task`. -/
structure Advances (p : Interpreter) (n k : Nat) (thread : TaskThread) (task : Task)
    (q : Interpreter) : Prop where
  threads : q.threads = Function.update p.threads n thread
  tasks : q.tasks = Function.update p.tasks k (some task)
  sinks : q.sinks = Function.update p.sinks n thread.sinks
  plain : p.Plain → q.Plain
  live : p.sys = .router → q.sys = .router
  inside : thread.inside = true → q.sys = .router
  next : q.next = p.next

variable {p q : Interpreter} {n k : Nat} {thread : TaskThread} {task task' : Task}

theorem Plain.install (h : p.Plain) : p.install.Plain := by
  intro isStderr
  refine ⟨?_, .inr rfl⟩
  obtain ⟨hfallback, hsys | hsys⟩ := h isStderr
  · simp [Interpreter.install, hsys]
  · simp [Interpreter.install, hsys, hfallback]

theorem Separate.advance (h : p.Separate) (hn : (p.threads n).task = some k)
    (hadv : p.Advances n k thread task q) (hthread : ∀ k', thread.task = some k' → k' = k)
    (hholds : thread.Holds task) : q.Separate := by
  have hother : ∀ n' k', n' ≠ n → (p.threads n').task = some k' → k' ≠ k := by
    rintro n' k' hne hn' rfl
    exact hne (h.unique n' n k' hn' hn)
  refine ⟨hadv.plain h.plain, fun n' => ?_, fun n' hin => ?_, fun k' task' hk' => ?_,
    fun n₁ n₂ k' h₁ h₂ => ?_, fun n' k' hn' => ?_, fun k' task' hk' hdone => ?_⟩
  · rw [hadv.sinks, hadv.threads]
    by_cases hne : n' = n
    · subst hne
      simp
    · simpa [hne] using h.sinks n'
  · rw [hadv.threads] at hin
    by_cases hne : n' = n
    · subst hne
      exact hadv.inside (by simpa using hin)
    · exact hadv.live (h.live n' (by simpa [hne] using hin))
  · rw [hadv.next]
    rw [hadv.tasks] at hk'
    obtain ⟨task₀, hk, -⟩ := h.running n k hn
    by_cases hne : k' = k
    · exact hne ▸ h.fresh k task₀ hk
    · exact h.fresh k' task' (by simpa [hne] using hk')
  · rw [hadv.threads] at h₁ h₂
    by_cases hn₁ : n₁ = n <;> by_cases hn₂ : n₂ = n
    · exact hn₁.trans hn₂.symm
    · simp only [hn₁, Function.update_self, Function.update_of_ne hn₂] at h₁ h₂
      exact absurd (hthread k' h₁) (hother n₂ k' hn₂ h₂)
    · simp only [hn₂, Function.update_self, Function.update_of_ne hn₁] at h₁ h₂
      exact absurd (hthread k' h₂) (hother n₁ k' hn₁ h₁)
    · simp only [Function.update_of_ne hn₁, Function.update_of_ne hn₂] at h₁ h₂
      exact h.unique n₁ n₂ k' h₁ h₂
  · rw [hadv.threads] at hn' ⊢
    rw [hadv.tasks]
    by_cases hne : n' = n
    · simp only [hne, Function.update_self] at hn' ⊢
      obtain rfl := hthread k' hn'
      exact ⟨task, by simp, hholds⟩
    · simp only [Function.update_of_ne hne] at hn' ⊢
      rw [Function.update_of_ne (hother n' k' hne hn')]
      exact h.running n' k' hn'
  · rw [hadv.tasks] at hk'
    by_cases hne : k' = k
    · simp only [hne, Function.update_self, Option.some.injEq] at hk'
      subst hk'
      cases thread with
      | idle => exact hholds
      | running => simp [hholds.1] at hdone
    · exact h.done k' task' (by simpa [hne] using hk') hdone

theorem advances_goto {pc : TaskPc} (ht : p.tasks k = some task)
    (hsinks : p.sinks n = (TaskThread.running k pc).sinks)
    (hlive : p.sys = .router) :
    p.Advances n k (.running k pc) task (p.goto n k pc) where
  threads := rfl
  tasks := by rw [← ht, Function.update_eq_self]; rfl
  sinks := by rw [← hsinks, Function.update_eq_self]; rfl
  plain := id
  live := id
  inside _ := hlive
  next := rfl

theorem advances_setSink {pc : TaskPc} {isStderr : Bool} {sink : Option Nat}
    (ht : p.tasks k = some task)
    (hsinks : Function.update (p.sinks n) isStderr sink = (TaskThread.running k pc).sinks)
    (hlive : p.sys = .router) :
    p.Advances n k (.running k pc) task ((p.setSink n isStderr sink).goto n k pc) where
  threads := rfl
  tasks := by rw [← ht, Function.update_eq_self]; rfl
  sinks := by rw [← hsinks]; rfl
  plain := id
  live := id
  inside _ := hlive
  next := rfl

theorem Advances.exit (h : p.Advances n k thread task q) (exited : Bool) :
    p.Advances n k thread task { q with exited } :=
  ⟨h.threads, h.tasks, h.sinks, h.plain, h.live, h.inside, h.next⟩

theorem route_eq {s : Text} {isStderr : Bool} {r : Except Stop Unit} {state : State}
    (ht : p.tasks k = some task) (hsink : p.sinks n isStderr = some k)
    (h : (sink task.env s isStderr).exec task.state = (r, state)) :
    p.route n s isStderr = (p.setTask k { task with state }, r) := by
  simp [route, hsink, ht, h]

theorem Advances.setTask {pc : TaskPc}
    (h : (p.setTask k task').Advances n k (.running k pc) task' q) :
    p.Advances n k (.running k pc) task' q where
  threads := h.threads
  tasks := by simpa [Interpreter.setTask] using h.tasks
  sinks := h.sinks
  plain := h.plain
  live := h.live
  inside := h.inside
  next := h.next

theorem Separate.go {pc pc' : TaskPc} (h : p.Separate) (hn : p.threads n = .running k pc)
    (ht : p.tasks k = some task) (hadv : p.Advances n k (.running k pc') task' q)
    (henv : task'.env = task.env) (hrequest : task'.request = task.request)
    (hdone : task'.done = task.done) (hdirect : pc'.Direct)
    (hexec : (pc'.resume task.env task.request).exec task'.state =
      (pc.resume task.env task.request).exec task.state) : q.Separate := by
  have hk : (p.threads n).task = some k := by rw [hn]; rfl
  obtain ⟨_, ht', hholds⟩ := h.running n k hk
  obtain rfl := Option.some.inj (ht.symm.trans ht')
  rw [hn] at hholds
  refine h.advance hk hadv (fun k' hk' => (Option.some.inj hk').symm) ⟨hdone.trans hholds.1, hdirect, ?_⟩
  rw [henv, hrequest, hexec, hholds.2.2, Task.alone, Task.alone, henv, hrequest]

theorem Separate.write {stream : TextStream} {frames : Nat} {within : Bool} {s : Text}
    {isStderr : Bool} {fn : Option Stop → UserFn} (h : p.Separate)
    (hn : p.threads n = .running k (.write stream frames within s isStderr fn))
    (ht : p.tasks k = some task) :
    (p.stepTask n k task (.write stream frames within s isStderr fn)).Separate := by
  have hsinks := h.sinks n
  have hlive := h.live n
  obtain ⟨_, ht', hholds⟩ := h.running n k (by rw [hn]; rfl)
  obtain rfl := Option.some.inj (ht.symm.trans ht')
  rw [hn] at hsinks hlive hholds
  have hdirect := hholds.2.1
  cases stream with
  | plain =>
    obtain ⟨rfl, hframes⟩ := hdirect
    obtain ⟨frames, rfl⟩ := Nat.exists_eq_add_of_le' hframes
    exact h.go hn ht (advances_goto ht hsinks (hlive rfl)) rfl rfl rfl trivial rfl
  | wrapper => cases hdirect.1
  | router b =>
    obtain ⟨hb, rfl, hframes⟩ := hdirect
    obtain rfl : b = isStderr := TextStream.router.inj hb
    obtain ⟨frames, rfl⟩ := Nat.exists_eq_add_of_le' hframes
    have hsink : p.sinks n b = some k := congrFun hsinks b
    obtain ⟨r, state, hexec⟩ : ∃ r state, (sink task.env s b).exec task.state = (r, state) :=
      ⟨_, _, rfl⟩
    have hgoto : ∀ pc', (TaskThread.running k pc').sinks = p.sinks n →
        p.Advances n k (.running k pc') { task with state }
          ((p.setTask k { task with state }).goto n k pc') := fun pc' hpc =>
      .setTask (advances_goto (by simp [Interpreter.setTask]) hpc.symm (hlive rfl))
    simp only [Interpreter.stepTask, route_eq ht hsink hexec]
    cases r with
    | ok =>
      have hbelow : (p.setTask k { task with state }).fallback b = .plain := (h.plain b).1
      simp only [hbelow]
      exact h.go hn ht (hgoto (.write .plain (frames + 1) true s b fn) hsinks.symm) rfl rfl rfl
        ⟨rfl, Nat.le_add_left _ _⟩ (afterCall_congr (write_ok fn hexec).symm)
    | error stop =>
      have herror := write_error fn hexec
      simp only
      split
      · rename_i hraised
        rw [if_pos hraised] at herror
        exact h.go hn ht (hgoto (.call (fn (some stop))) hsinks.symm) rfl rfl rfl trivial
          (afterCall_congr herror.symm)
      · rename_i hraised
        rw [if_neg hraised] at herror
        exact h.go hn ht ((hgoto (.clearOut (.error stop)) hsinks.symm).exit true) rfl rfl rfl
          trivial (afterCall_congr herror.symm)

theorem Separate.stepTask {pc : TaskPc} (h : p.Separate) (hn : p.threads n = .running k pc)
    (ht : p.tasks k = some task) : (p.stepTask n k task pc).Separate := by
  have hsinks := h.sinks n
  have hlive := h.live n
  rw [hn] at hsinks hlive
  cases pc with
  | install =>
    refine h.go hn ht ⟨rfl, ?_, ?_, Plain.install, fun _ => rfl, fun _ => rfl, rfl⟩ rfl rfl rfl
      trivial rfl
    · rw [← ht, Function.update_eq_self]
      rfl
    · have hnone : p.sinks n = (TaskThread.running k .load).sinks := hsinks
      rw [← hnone, Function.update_eq_self]
      rfl
  | load =>
    simp only [Interpreter.stepTask]
    split
    · rename_i fn hload
      refine h.go hn ht (advances_goto ht hsinks (hlive rfl)) rfl rfl rfl trivial
        (afterCall_congr ?_)
      rw [userCode, hload]
      rfl
    · rename_i stop hload
      have hadv : p.Advances n k (.running k (.finish (.error stop))) task (p.goto n k _) :=
        advances_goto ht hsinks (hlive rfl)
      refine h.go hn ht (hadv.exit (!stop.isRaised)) rfl rfl rfl trivial (afterCall_congr ?_)
      rw [userCode, hload]
      rfl
  | call fn =>
    cases fn with
    | returns | raises | writeFd =>
      exact h.go hn ht (advances_goto ht hsinks (hlive rfl)) rfl rfl rfl trivial rfl
    | exits code => exact ⟨h.plain, h.sinks, h.live, h.fresh, h.unique, h.running, h.done⟩
    | write s isStderr fn =>
      simp only [Interpreter.stepTask, hlive rfl]
      exact h.go hn ht (advances_goto ht hsinks (hlive rfl)) rfl rfl rfl
        ⟨rfl, rfl, by decide⟩ rfl
  | write => exact h.write hn ht
  | setOut | setErr | clearOut | clearErr =>
    refine h.go hn ht (advances_setSink ht ?_ (hlive rfl)) rfl rfl rfl trivial rfl
    rw [hsinks]
    funext isStderr
    cases isStderr <;> rfl
  | finish outcome =>
    have hk : (p.threads n).task = some k := by rw [hn]; rfl
    obtain ⟨_, ht', hholds⟩ := h.running n k hk
    obtain rfl := Option.some.inj (ht.symm.trans ht')
    rw [hn] at hholds
    have hnone : p.sinks n = TaskThread.idle.sinks := hsinks
    have hadv : p.Advances n k .idle _ (p.stepTask n k task (.finish outcome)) :=
      ⟨rfl, rfl, by rw [← hnone, Function.update_eq_self]; rfl, id, id,
        fun hin => (by cases hin), rfl⟩
    refine h.advance hk hadv (fun _ hk' => ?_) ⟨rfl, congrArg Prod.snd hholds.2.2⟩
    cases hk'

theorem Separate.take {env : Env} {request : ExecuteTaskRequest} (h : p.Separate)
    (hn : p.threads n = .idle) :
    Separate { p.setTask p.next { env, request } with
      threads := Function.update p.threads n (.running p.next .install), next := p.next + 1 } := by
  have hold : ∀ n' k, (p.threads n').task = some k → k ≠ p.next := by
    rintro n' k hk rfl
    obtain ⟨task, ht, -⟩ := h.running n' _ hk
    exact lt_irrefl _ (h.fresh _ task ht)
  refine ⟨h.plain, fun n' => ?_, fun n' hin => ?_, fun k task hk => ?_, fun n₁ n₂ k h₁ h₂ => ?_,
    fun n' k hk => ?_, fun k task hk hdone => ?_⟩
  · have hsinks := h.sinks n'
    by_cases hne : n' = n
    · subst hne
      rw [hn] at hsinks
      simp only [setTask, Function.update_self]
      exact hsinks
    · simpa [hne, setTask] using hsinks
  · by_cases hne : n' = n
    · simp [hne, TaskThread.inside] at hin
    · exact h.live n' (by simpa [hne] using hin)
  · by_cases hne : k = p.next
    · simp [hne]
    · exact Nat.lt_succ_of_lt (h.fresh k task (by simpa [setTask, hne] using hk))
  · by_cases hn₁ : n₁ = n <;> by_cases hn₂ : n₂ = n
    · exact hn₁.trans hn₂.symm
    · simp only [hn₁, Function.update_self, Function.update_of_ne hn₂] at h₁ h₂
      exact absurd (Option.some.inj h₁).symm (hold n₂ k h₂)
    · simp only [hn₂, Function.update_self, Function.update_of_ne hn₁] at h₁ h₂
      exact absurd (Option.some.inj h₂).symm (hold n₁ k h₁)
    · simp only [Function.update_of_ne hn₁, Function.update_of_ne hn₂] at h₁ h₂
      exact h.unique n₁ n₂ k h₁ h₂
  · by_cases hne : n' = n
    · simp only [hne, Function.update_self] at hk ⊢
      obtain rfl := Option.some.inj hk
      refine ⟨{ env, request }, by simp [setTask], rfl, trivial, ?_⟩
      exact (runTask_inproc env request { active := 1 } rfl).symm
    · simp only [Function.update_of_ne hne] at hk ⊢
      obtain ⟨task, ht, hholds⟩ := h.running n' k hk
      exact ⟨task, by simpa [setTask, hold n' k hk] using ht, hholds⟩
  · by_cases hne : k = p.next
    · simp only [setTask, hne, Function.update_self, Option.some.injEq] at hk
      simp [← hk] at hdone
    · exact h.done k task (by simpa [setTask, hne] using hk) hdone

/-- A stream is assigned only while no thread is between `install_routers` and the end of a user's
function, and then one that writes to no router, or the router. -/
def attached (p : Interpreter) : Action → Prop
  | .replace isStderr stream => (stream = .plain ∨ stream = .router isStderr) ∧
      ∀ n, (p.threads n).inside = false
  | _ => True

theorem Plain.replace {isStderr : Bool} {stream : TextStream} (h : p.Plain)
    (hstream : stream = .plain ∨ stream = .router isStderr) :
    Plain { p with sys := Function.update p.sys isStderr stream } := by
  intro b
  refine ⟨(h b).1, ?_⟩
  by_cases hb : b = isStderr
  · subst hb
    simpa using hstream
  · simpa [hb] using (h b).2

theorem Separate.step {a : Action} (h : p.Separate) (ha : p.attached a)
    (hst : p.step a = some q) : q.Separate := by
  cases a with
  | take n env request =>
    simp only [Interpreter.step] at hst
    split at hst
    · split at hst <;> cases hst
      exact h.take ‹_›
    · cases hst
  | step n =>
    simp only [Interpreter.step] at hst
    split at hst
    · cases hst
    · split at hst
      · cases hst
      · simp only [Option.map_eq_some_iff] at hst
        obtain ⟨task, ht, rfl⟩ := hst
        exact h.stepTask ‹_› ht
  | replace isStderr stream =>
    simp only [Interpreter.step] at hst
    split at hst <;> cases hst
    exact ⟨h.plain.replace ha.1, h.sinks, fun n hin => by simp [ha.2 n] at hin, h.fresh, h.unique,
      h.running, h.done⟩
  | print n s isStderr =>
    simp only [Interpreter.step] at hst
    split at hst
    · rename_i hn
      cases hst
      have hsinks := h.sinks n
      rw [hn] at hsinks
      have hroute : ∀ b, (p.route n s b).1 = p := by
        simp [route, hsinks, TaskThread.sinks]
      rwa [List.foldl_fixed' hroute]
    · cases hst

def sampleHalves : UserFn :=
  .write (text "o") false fun _ => .write (text "h\n") false fun _ => .returns (.ok [8])

def sampleShared : Interpreter × List Empty :=
  (machine.exec (fun _ a => match a with | .replace _ _ => false | _ => true) {}
    ([.take 0 (sampleEnv sampleFn) sampleRequest, .take 1 (sampleEnv sampleHalves) sampleRequest] ++
      (List.replicate 10 ([.step 0, .step 1, .print 2 (text "log\n") true] : List Action)).flatten ++
      [.step 1, .step 1, .step 1, .step 1])).get rfl

end Interpreter

end Worker

end Minimodal
