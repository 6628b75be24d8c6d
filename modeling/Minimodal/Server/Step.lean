import Minimodal.Server.Effects

namespace Minimodal.Server

/-- The memory is the same for everything but watchers, counters and connections. -/
structure Mem.Quiet (m m' : Mem) : Prop where
  store : m'.store = m.store
  pool : m'.pool = m.pool
  pendingQueue : m'.pendingQueue = m.pendingQueue
  results : ∀ k, m'.results.find k = m.results.find k
  shuttingDown : m'.shuttingDown = m.shuttingDown
  ctxDone : m'.ctxDone = m.ctxDone

theorem Mem.Quiet.refl (m : Mem) : m.Quiet m := ⟨rfl, rfl, rfl, fun _ => rfl, rfl, rfl⟩

/-- Handler points that neither hold a job nor are about to write the store, the queue
or the result cache. -/
def Handler.Quiet : Handler → Bool
  | .submit _ _ | .enqueue _ _ _ | .recordInvocation _ _ | .invoked _ _ _ => false
  | .putResult _ | .appendTail _ | .report _ => false
  | _ => true

def Event.Quiet : Event → Bool
  | .refused _ _ | .acknowledged _ _ | .jobStatus _ _ | .watched _ _ => true
  | _ => false

inductive Handler.Steps (m : Mem) (ch : Choice) (call : Nat) :
    Handler → Mem → Handler → List Event → Prop
  | created {req rec store jobID} : ch.fault = none →
      m.store.submitWithIdempotency rec req.idempotencyKey ch.now = (store, .ok (jobID, true)) →
      Steps m ch call (.submit req rec) { m with store } (.enqueue req jobID .check)
        [.submitted rec req.idempotencyKey (.ok (jobID, true))]
  | existing {req rec store jobID} : ch.fault = none →
      m.store.submitWithIdempotency rec req.idempotencyKey ch.now = (store, .ok (jobID, false)) →
      Steps m ch call (.submit req rec) { m with store } (.invoked req jobID false)
        [.submitted rec req.idempotencyKey (.ok (jobID, false))]
  | submitError {req rec e status} : Steps m ch call (.submit req rec) m (.refuse status)
      [.submitted rec req.idempotencyKey (.error e)]
  | check {req jobID} : m.shuttingDown = false →
      Steps m ch call (.enqueue req jobID .check) m (.enqueue req jobID .send) []
  | checkSkip {req jobID} : m.shuttingDown = true →
      Steps m ch call (.enqueue req jobID .check) m (.recordInvocation req jobID) []
  | send {req jobID} : m.pendingQueue.length < pendingQueueSize →
      Steps m ch call (.enqueue req jobID .send)
        { m with pendingQueue := m.pendingQueue ++ [jobID] } (.recordInvocation req jobID) []
  | recordInvocation {req jobID metrics} :
      Steps m ch call (.recordInvocation req jobID) { m with metrics } (.invoked req jobID true) []
  | invoked {req jobID created} : Steps m ch call (.invoked req jobID created) m .idle
      [.invoked call req jobID created]
  | putResult {req} : Steps m ch call (.putResult req)
      { m with results := m.results.put req.jobID (resultEntry req) } (.appendTail req) []
  | appendTail {req logHub} :
      Steps m ch call (.appendTail req) { m with logHub } (.report req) []
  | report {req m' c b} : Transits m ch req.jobID (.report req) m' c (.ok b) →
      Steps m ch call (.report req) m' (.notify req .load)
        [.transitioned req.jobID (.report req) (.ok b)]
  | reportError {req m' c e status} : Transits m ch req.jobID (.report req) m' c (.error e) →
      Steps m ch call (.report req) m' (.refuse status)
        [.transitioned req.jobID (.report req) (.error e)]
  | quiet {h m' h' es} : h.Quiet = true → h'.Quiet = true → m.Quiet m' →
      (∀ ev ∈ es, ev.Quiet = true) → Steps m ch call h m' h' es

section Handlers

variable {cfg : Config} {m m' : Mem} {ch : Choice} {es : List Event} {call : Nat}

theorem Handler.sendAll_quiet (jobID : String) (evs : List JobEvent) (k : WatchNext) :
    (sendAll jobID evs k).Quiet = true := by
  unfold sendAll
  split <;> rfl

def Op.Quiet : Op → Bool
  | .transition _ _ | .submitWithIdempotency _ _ | .send _ | .receive | .tick => false
  | .putResult _ _ | .executeTask _ _ _ | .answer _ _ => false
  | .reply ev => ev.Quiet
  | _ => true

theorem perform_quiet {op : Op} {r : op.Res} (hq : op.Quiet = true)
    (h : perform cfg m ch op = some (m', r, es)) : m.Quiet m' ∧ ∀ ev ∈ es, ev.Quiet = true := by
  cases performs_of_perform h with
  | transition | transitionFault | submit | submitFault | send | receiveDone | receive | tickDone
  | tick | putResult | executeDone | execute | answer => simp [Op.Quiet] at hq
  | getResult => exact ⟨⟨rfl, rfl, rfl, by simp, rfl, rfl⟩, by simp⟩
  | reply => exact ⟨.refl _, by simpa [Op.Quiet] using hq⟩
  | _ => exact ⟨⟨rfl, rfl, rfl, fun _ => rfl, rfl, rfl⟩, by simp [Event.Quiet]⟩

theorem Handler.code_quiet {h : Handler} {stmt : Code Handler} (hq : h.Quiet = true)
    (hcode : Handler.code call h = some stmt) :
    stmt.op.Quiet = true ∧ ∀ r, (stmt.next r).Quiet = true := by
  cases h with
  | idle => simp [code] at hcode
  | submit | enqueue | recordInvocation | invoked | putResult | appendTail | report =>
    simp [Handler.Quiet] at hq
  | notify req pc =>
    simp only [code, Option.some.injEq] at hcode
    subst hcode
    exact ⟨by cases pc <;> rfl, fun r => NotifyPc.next_ind (fun _ => rfl) rfl pc r⟩
  | count req =>
    simp only [code] at hcode
    split at hcode <;>
    · simp only [Option.some.injEq] at hcode
      subst hcode
      exact ⟨rfl, fun _ => rfl⟩
  | _ =>
    simp only [code, Option.some.injEq] at hcode
    subst hcode
    refine ⟨rfl, fun r => ?_⟩
    simp only
    repeat' split
    all_goals
      first
        | rfl
        | exact sendAll_quiet _ _ _

theorem Handler.steps {h : Handler} {stmt : Code Handler} {r : stmt.op.Res}
    (hcode : Handler.code call h = some stmt) (hp : perform cfg m ch stmt.op = some (m', r, es)) :
    Handler.Steps m ch call h m' (stmt.next r) es := by
  cases h with
  | idle => simp [code] at hcode
  | submit req rec =>
    simp only [code, Option.some.injEq] at hcode
    subst hcode
    cases performs_of_perform hp with
    | submitFault => exact .submitError
    | submit hf hsub =>
      rcases r with e | ⟨jobID, _ | _⟩
      · obtain rfl := BoltStore.submitTx_error hsub
        exact .submitError
      · exact .existing hf hsub
      · exact .created hf hsub
  | enqueue req jobID pc =>
    simp only [code, Option.some.injEq] at hcode
    subst hcode
    cases pc with
    | check =>
      cases performs_of_perform hp
      cases hdown : m.shuttingDown with
      | true => exact .checkSkip hdown
      | false => exact .check hdown
    | send =>
      cases performs_of_perform hp with
      | send hlen => exact .send hlen
  | recordInvocation req jobID =>
    simp only [code, Option.some.injEq] at hcode
    subst hcode
    cases performs_of_perform hp
    exact .recordInvocation
  | invoked req jobID created =>
    simp only [code, Option.some.injEq] at hcode
    subst hcode
    cases performs_of_perform hp
    exact .invoked
  | putResult req =>
    simp only [code, Option.some.injEq] at hcode
    subst hcode
    cases performs_of_perform hp
    exact .putResult
  | appendTail req =>
    simp only [code, Option.some.injEq] at hcode
    subst hcode
    cases performs_of_perform hp
    exact .appendTail
  | report req =>
    simp only [code, Option.some.injEq] at hcode
    subst hcode
    obtain ⟨ht, rfl⟩ := transits_of_perform hp
    rcases r with ⟨c, e | b⟩
    · exact .reportError ht
    · exact .report ht
  | _ =>
    obtain ⟨hop, hnext⟩ := code_quiet rfl hcode
    obtain ⟨hmem, hes⟩ := perform_quiet hop hp
    exact .quiet rfl (hnext r) hmem hes

end Handlers

def Handler.Entry : Handler → Prop
  | .refuse _ | .putResult _ | .loadStatus _ | .loadWatch _ | .recvChunk => True
  | _ => False

inductive Stepped (cfg : Config) (s : State) : Action → State → List Event → Prop
  | start : s.main = .down → Stepped cfg s .start { s.lose with main := .list } []
  | crash : Stepped cfg s .crash s.lose [.crashed]
  | beginShutdown : s.main = .serving →
      Stepped cfg s .beginShutdown { s with mem.shuttingDown := true } []
  | cancel : s.mem.shuttingDown = true →
      Stepped cfg s .cancel { s with mem.ctxDone := true } []
  | close : s.mem.ctxDone = true → Stepped cfg s .close { s with mem.channels := none } []
  | main {ch stmt mem r es} : Main.code s.main = some stmt →
      perform cfg s.mem ch stmt.op = some (mem, r, es) →
      Stepped cfg s (.main ch) { s with mem, main := stmt.next r } es
  | drainer {ch stmt mem r es} : s.main = .serving → Drainer.code cfg s.drainer = some stmt →
      perform cfg s.mem ch stmt.op = some (mem, r, es) →
      Stepped cfg s (.drainer ch) { s with mem, drainer := stmt.next r } es
  | detector {ch stmt mem r es} : s.main = .serving → Detector.code cfg s.detector = some stmt →
      perform cfg s.mem ch stmt.op = some (mem, r, es) →
      Stepped cfg s (.detector ch) { s with mem, detector := stmt.next r } es
  | call {call ch stmt mem r es} : Handler.code call (s.calls call) = some stmt →
      perform cfg s.mem ch stmt.op = some (mem, r, es) →
      Stepped cfg s (.call call ch) ({ s with mem }.setCall call (stmt.next r)) es
  | invokeFunction {call req uuid now} : s.main = .serving → s.calls call = .idle →
      uuid ∉ s.uuids →
      Stepped cfg s (.invokeFunction call req uuid now)
        ({ s with uuids := uuid :: s.uuids }.setCall call (.invokeFunction cfg req uuid now)) []
  | accept {a call h} : s.main = .serving → s.calls call = .idle → h.Entry →
      Stepped cfg s a (s.setCall call h) []
  | registerWorker {req now} : s.main = .serving →
      Stepped cfg s (.registerWorker req now)
        { s with mem.pool := (registerWorker cfg s.mem.pool req now).1 }
        [.registered (registerWorker cfg s.mem.pool req now).2]
  | heartbeat {req now} : s.main = .serving →
      Stepped cfg s (.heartbeat req now)
        { s with mem.pool := (heartbeat s.mem.pool req now).1 }
        [.heartbeat (heartbeat s.mem.pool req now).2]

variable {cfg : Config} {s t : State} {a : Action} {es : List Event}

theorem accept_some {call : Nat} {h : Handler} (hst : s.accept call h = some (t, es)) :
    s.main = .serving ∧ s.calls call = .idle ∧ t = s.setCall call h ∧ es = [] := by
  unfold State.accept at hst
  split at hst
  · rename_i hg
    simp only [Option.some.injEq, Prod.mk.injEq] at hst
    exact ⟨hg.1, hg.2, hst.1.symm, hst.2.symm⟩
  · simp at hst

theorem Handler.requireJobID_entry {jobID : String} {h : Handler} (hh : h.Entry) :
    (requireJobID jobID h).Entry := by
  unfold requireJobID
  split
  · exact trivial
  · exact hh

theorem Stepped.of_accept {call : Nat} {h : Handler} (hst : s.accept call h = some (t, es))
    (hh : h.Entry) : Stepped cfg s a t es := by
  obtain ⟨hmain, hidle, rfl, rfl⟩ := accept_some hst
  exact .accept hmain hidle hh

theorem step_drainer {ch : Choice} (h : step cfg s (.drainer ch) = some (t, es)) :
    ∃ stmt mem, ∃ r : stmt.op.Res, s.main = .serving ∧ Drainer.code cfg s.drainer = some stmt ∧
      perform cfg s.mem ch stmt.op = some (mem, r, es) ∧
      t = { s with mem, drainer := stmt.next r } := by
  simp only [step, Option.ite_none_right_eq_some, Option.map_eq_some_iff, Prod.mk.injEq,
    Prod.exists] at h
  obtain ⟨hmain, mem, pc, _, hst, rfl, rfl⟩ := h
  obtain ⟨stmt, r, hcode, hperform, rfl⟩ := Lib.Thread.step_some hst
  exact ⟨stmt, mem, r, hmain, hcode, hperform, rfl⟩

theorem step_main {ch : Choice} (h : step cfg s (.main ch) = some (t, es)) :
    ∃ stmt mem, ∃ r : stmt.op.Res, Main.code s.main = some stmt ∧
      perform cfg s.mem ch stmt.op = some (mem, r, es) ∧ t = { s with mem, main := stmt.next r } := by
  simp only [step, Option.map_eq_some_iff, Prod.mk.injEq, Prod.exists] at h
  obtain ⟨mem, pc, _, hst, rfl, rfl⟩ := h
  obtain ⟨stmt, r, hcode, hperform, rfl⟩ := Lib.Thread.step_some hst
  exact ⟨stmt, mem, r, hcode, hperform, rfl⟩

theorem step_detector {ch : Choice} (h : step cfg s (.detector ch) = some (t, es)) :
    ∃ stmt mem, ∃ r : stmt.op.Res, s.main = .serving ∧ Detector.code cfg s.detector = some stmt ∧
      perform cfg s.mem ch stmt.op = some (mem, r, es) ∧
      t = { s with mem, detector := stmt.next r } := by
  simp only [step, Option.ite_none_right_eq_some, Option.map_eq_some_iff, Prod.mk.injEq,
    Prod.exists] at h
  obtain ⟨hmain, mem, pc, _, hst, rfl, rfl⟩ := h
  obtain ⟨stmt, r, hcode, hperform, rfl⟩ := Lib.Thread.step_some hst
  exact ⟨stmt, mem, r, hmain, hcode, hperform, rfl⟩

theorem step_call {c : Nat} {ch : Choice} (h : step cfg s (.call c ch) = some (t, es)) :
    ∃ stmt mem, ∃ r : stmt.op.Res, Handler.code c (s.calls c) = some stmt ∧
      perform cfg s.mem ch stmt.op = some (mem, r, es) ∧
      t = { s with mem }.setCall c (stmt.next r) := by
  simp only [step, Option.map_eq_some_iff, Prod.mk.injEq, Prod.exists] at h
  obtain ⟨mem, pc, _, hst, rfl, rfl⟩ := h
  obtain ⟨stmt, r, hcode, hperform, rfl⟩ := Lib.Thread.step_some hst
  exact ⟨stmt, mem, r, hcode, hperform, rfl⟩

theorem stepped_of_step (h : step cfg s a = some (t, es)) : Stepped cfg s a t es := by
  cases a with
  | start =>
    simp only [step, Option.ite_none_right_eq_some, Option.some.injEq, Prod.mk.injEq] at h
    obtain ⟨hd, rfl, rfl⟩ := h
    exact .start hd
  | crash =>
    simp only [step, Option.some.injEq, Prod.mk.injEq] at h
    obtain ⟨rfl, rfl⟩ := h
    exact .crash
  | beginShutdown =>
    simp only [step, Option.ite_none_right_eq_some, Option.some.injEq, Prod.mk.injEq] at h
    obtain ⟨hd, rfl, rfl⟩ := h
    exact .beginShutdown hd
  | cancel =>
    simp only [step, Option.ite_none_right_eq_some, Option.some.injEq, Prod.mk.injEq] at h
    obtain ⟨hd, rfl, rfl⟩ := h
    exact .cancel hd
  | close =>
    simp only [step, Option.ite_none_right_eq_some, Option.some.injEq, Prod.mk.injEq] at h
    obtain ⟨hd, rfl, rfl⟩ := h
    exact .close hd
  | main ch =>
    obtain ⟨stmt, mem, r, hcode, hperform, rfl⟩ := step_main h
    exact .main hcode hperform
  | drainer ch =>
    obtain ⟨stmt, mem, r, hmain, hcode, hperform, rfl⟩ := step_drainer h
    exact .drainer hmain hcode hperform
  | detector ch =>
    obtain ⟨stmt, mem, r, hmain, hcode, hperform, rfl⟩ := step_detector h
    exact .detector hmain hcode hperform
  | call c ch =>
    obtain ⟨stmt, mem, r, hcode, hperform, rfl⟩ := step_call h
    exact .call hcode hperform
  | invokeFunction c req uuid now =>
    simp only [step, Option.ite_none_right_eq_some] at h
    obtain ⟨⟨hnew, -⟩, hst⟩ := h
    obtain ⟨hmain, hidle, rfl, rfl⟩ := accept_some hst
    exact .invokeFunction hmain hidle hnew
  | reportTaskResult c req => exact .of_accept h (Handler.requireJobID_entry trivial)
  | getJobStatus c jobID => exact .of_accept h (Handler.requireJobID_entry trivial)
  | watchJob c jobID => exact .of_accept h (Handler.requireJobID_entry trivial)
  | streamTaskLogs c => exact .of_accept h trivial
  | registerWorker req now =>
    simp only [step, Option.ite_none_right_eq_some, Option.some.injEq, Prod.mk.injEq] at h
    obtain ⟨hmain, rfl, rfl⟩ := h
    exact .registerWorker hmain
  | heartbeat req now =>
    simp only [step, Option.ite_none_right_eq_some, Option.some.injEq, Prod.mk.injEq] at h
    obtain ⟨hmain, rfl, rfl⟩ := h
    exact .heartbeat hmain

@[simp] theorem setCall_mem (s : State) (call : Nat) (h : Handler) :
    (s.setCall call h).mem = s.mem := rfl

@[simp] theorem setCall_uuids (s : State) (call : Nat) (h : Handler) :
    (s.setCall call h).uuids = s.uuids := rfl

@[simp] theorem setCall_main (s : State) (call : Nat) (h : Handler) :
    (s.setCall call h).main = s.main := rfl

@[simp] theorem setCall_drainer (s : State) (call : Nat) (h : Handler) :
    (s.setCall call h).drainer = s.drainer := rfl

@[simp] theorem setCall_detector (s : State) (call : Nat) (h : Handler) :
    (s.setCall call h).detector = s.detector := rfl

theorem setCall_calls (s : State) (call c : Nat) (h : Handler) :
    (s.setCall call h).calls c = if c = call then h else s.calls c := by
  simp [State.setCall, Function.update_apply]

@[simp] theorem lose_store (s : State) : s.lose.mem.store = s.mem.store := rfl

@[simp] theorem lose_uuids (s : State) : s.lose.uuids = s.uuids := rfl

end Minimodal.Server
