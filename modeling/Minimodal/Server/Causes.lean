import Minimodal.Server.Attempts
import Minimodal.Server.Attribution

namespace Minimodal.Server

variable {cfg : Config} {s t : State} {a : Action} {as : List Action} {es fs : List Event}
  {m m' : Mem} {ch : Choice} {j : String}

def Action.opens (cfg : Config) : Action → Option (Nat × Handler)
  | .invokeFunction c req uuid now => some (c, .invokeFunction cfg req uuid now)
  | .reportTaskResult c req => some (c, .reportTaskResult req)
  | .getJobStatus c jobID => some (c, .getJobStatus jobID)
  | .watchJob c jobID => some (c, .watchJob jobID)
  | .streamTaskLogs c => some (c, .recvChunk)
  | _ => none

inductive CallsStep (cfg : Config) (s : State) (a : Action) (t : State) (fs : List Event) : Prop
  | opens {c h} : a.opens cfg = some (c, h) → s.calls c = .idle →
      t.calls = Function.update s.calls c h → t.mem = s.mem → fs = [] → CallsStep cfg s a t fs
  | call {c ch mem} {stmt : Code Handler} {r : stmt.op.Res} : a = .call c ch →
      Handler.code c (s.calls c) = some stmt → perform cfg s.mem ch stmt.op = some (mem, r, fs) →
      t = { s with mem }.setCall c (stmt.next r) → CallsStep cfg s a t fs
  | kept : a.opens cfg = none → t.calls = s.calls → CallsStep cfg s a t fs
  | lost : a.opens cfg = none → (∀ c, t.calls c = .idle) → CallsStep cfg s a t fs

theorem CallsStep.of_accept {c : Nat} {h : Handler} (hst : s.accept c h = some (t, fs))
    (ha : a.opens cfg = some (c, h)) : CallsStep cfg s a t fs := by
  obtain ⟨-, hidle, rfl, rfl⟩ := accept_some hst
  exact .opens ha hidle rfl rfl rfl

theorem callsStep_of_step (hst : step cfg s a = some (t, fs)) : CallsStep cfg s a t fs := by
  cases a with
  | start =>
    simp only [step, Option.ite_none_right_eq_some, Option.some.injEq, Prod.mk.injEq] at hst
    obtain ⟨-, rfl, -⟩ := hst
    exact .lost rfl fun _ => rfl
  | crash =>
    simp only [step, Option.some.injEq, Prod.mk.injEq] at hst
    obtain ⟨rfl, -⟩ := hst
    exact .lost rfl fun _ => rfl
  | beginShutdown | cancel | close | registerWorker | heartbeat =>
    simp only [step, Option.ite_none_right_eq_some, Option.some.injEq, Prod.mk.injEq] at hst
    obtain ⟨-, rfl, -⟩ := hst
    exact .kept rfl rfl
  | main ch =>
    obtain ⟨stmt, mem, r, -, -, rfl⟩ := step_main hst
    exact .kept rfl rfl
  | drainer ch =>
    obtain ⟨stmt, mem, r, -, -, -, rfl⟩ := step_drainer hst
    exact .kept rfl rfl
  | detector ch =>
    obtain ⟨stmt, mem, r, -, -, -, rfl⟩ := step_detector hst
    exact .kept rfl rfl
  | call c ch =>
    obtain ⟨stmt, mem, r, hcode, hp, rfl⟩ := step_call hst
    exact .call rfl hcode hp rfl
  | invokeFunction c req uuid now =>
    simp only [step, Option.ite_none_right_eq_some] at hst
    obtain ⟨-, hidle, rfl, rfl⟩ := accept_some hst.2
    exact .opens rfl hidle rfl rfl rfl
  | reportTaskResult | getJobStatus | watchJob | streamTaskLogs => exact .of_accept hst rfl

def Handler.reporting : Handler → Option ReportTaskResultRequest
  | .putResult req | .appendTail req | .report req => some req
  | _ => none

theorem Handler.reporting_of_quiet {h : Handler} (hq : h.Quiet = true) : h.reporting = none := by
  cases h <;> first | rfl | simp [Handler.Quiet] at hq

theorem Handler.Steps.reporting_kept {c : Nat} {h h' : Handler}
    (hst : Handler.Steps m ch c h m' h' es) {req : ReportTaskResultRequest}
    (hr : h'.reporting = some req) : h.reporting = some req := by
  cases hst with
  | putResult | appendTail => exact hr
  | quiet _ hq => simp [reporting_of_quiet hq] at hr
  | _ => cases hr

theorem Action.opens_reporting {c : Nat} {h : Handler} (ha : a.opens cfg = some (c, h))
    {req : ReportTaskResultRequest} (hr : h.reporting = some req) : a = .reportTaskResult c req := by
  cases a with
  | invokeFunction | getJobStatus | watchJob | reportTaskResult =>
    obtain ⟨rfl, rfl⟩ := Prod.mk.inj (Option.some.inj ha)
    simp only [Handler.invokeFunction, Handler.getJobStatus, Handler.watchJob,
      Handler.reportTaskResult, Handler.requireJobID] at hr
    repeat' split at hr
    all_goals cases hr <;> rfl
  | streamTaskLogs =>
    obtain ⟨rfl, rfl⟩ := Prod.mk.inj (Option.some.inj ha)
    cases hr
  | _ => cases ha

structure Sourced (Q : ReportTaskResultRequest → Prop) (es : List Event) (s : State) : Prop where
  calls : ∀ c req, (s.calls c).reporting = some req → Q req
  events : ∀ j req b, .transitioned j (.report req) b ∈ es → Q req ∧ req.jobID = j

def Action.Brings (Q : ReportTaskResultRequest → Prop) (a : Action) : Prop :=
  ∀ c req, a = .reportTaskResult c req → Q req

section Sourced

variable {Q : ReportTaskResultRequest → Prop}

theorem Sourced.step (h : Sourced Q es s) (ha : a.Brings Q) (hst : step cfg s a = some (t, fs)) :
    Sourced Q (es ++ fs) t where
  calls d req hr := by
    cases callsStep_of_step hst with
    | opens hopens _ hcalls =>
      rw [hcalls, Function.update_apply] at hr
      split at hr
      · exact ha _ req (Action.opens_reporting hopens hr)
      · exact h.calls d req hr
    | call _ hcode hp ht =>
      rw [ht, setCall_calls] at hr
      split at hr
      · exact h.calls _ req ((Handler.steps hcode hp).reporting_kept hr)
      · exact h.calls d req hr
    | kept _ hcalls => exact h.calls d req (hcalls ▸ hr)
    | lost _ hidle => simp [hidle, Handler.reporting] at hr
  events j req b hmem := by
    rcases List.mem_append.mp hmem with hmem | hmem
    · exact h.events j req b hmem
    · obtain ⟨c, ch, -, hc, hj⟩ := (stepped_of_step hst).reporting hmem
      exact ⟨h.calls c req (by rw [hc]; rfl), hj⟩

theorem sourced_of_run (h : (machine cfg).Run (fun _ a => a.Brings Q) init as es s) :
    Sourced Q es s :=
  h.invariant_trace (P := Sourced Q) ⟨by simp [init, Handler.reporting], by simp⟩
    fun _ _ _ _ _ hs ha hst => hs.step ha hst

end Sourced

/-- What has finished a job, and what it has left in the record. -/
inductive Ended (cfg : Config) (es : List Event) (j : String) (r : JobRecord) : Prop
  | reported {req} : .transitioned j (.report req) (.ok true) ∈ es →
      r.status = (if req.success then .done else .failed) → r.resultBytes = req.resultBytes →
      r.error = (if req.success then "" else req.error) → Ended cfg es j r
  | undispatched {message} : .transitioned j (.dispatchFailed message) (.ok true) ∈ es →
      r.status = .failed → r.error = message → Ended cfg es j r
  | lost {maxRetries} : .transitioned j (.reap maxRetries) (.ok true) ∈ es → r.status = .failed →
      r.error = "exceeded max retries after worker death(s)" → maxRetries < r.retryCount →
      Ended cfg es j r

theorem Ended.append {r : JobRecord} (h : Ended cfg es j r) : Ended cfg (es ++ fs) j r := by
  cases h with
  | reported hev hs hb he => exact .reported (List.mem_append_left _ hev) hs hb he
  | undispatched hev hs he => exact .undispatched (List.mem_append_left _ hev) hs he
  | lost hev hs he hk => exact .lost (List.mem_append_left _ hev) hs he hk

theorem Ended.same {r r' : JobRecord} (h : Ended cfg es j r) (hsame : r.Same r') :
    Ended cfg es j r' := by
  have hr : { r' with updatedAt := r.updatedAt } = r := hsame
  rw [← hr] at h
  cases h with
  | reported hev hs hb he => exact .reported hev hs hb he
  | undispatched hev hs he => exact .undispatched hev hs he
  | lost hev hs he hk => exact .lost hev hs he hk

def Explained (cfg : Config) (es : List Event) (j : String) (found : Option JobRecord) : Prop :=
  ∀ r, found = some r → r.terminal = true → Ended cfg es j r

theorem Written.explained {old new : Option JobRecord} (h : Written j old new fs)
    (hdated : ∀ r, old = some r → r.Dated) (hold : Explained cfg es j old) :
    Explained cfg (es ++ fs) j new := by
  intro q hq ht
  cases h with
  | none => exact (hold q hq ht).append
  | @transition mutate r r' c now hr hm hrun =>
    obtain rfl := Option.some.inj hq
    have hev : .transitioned j mutate (.ok true) ∈
        es ++ [.transitioned j mutate (.ok true)] := by simp
    cases hterm : r.terminal with
    | true =>
      -- nothing moves it any more
      have hsame : r.Same (r'.stamp now) :=
        ((Mutator.evolves hm hrun).stamp (hdated r hr) now).frozen hterm
      exact (hold r hr hterm).append.same hsame
    | false =>
      cases Mutator.rewrites_of_run hrun with
      | missingPayload => exact absurd rfl hm
      | markRunning | revert | requeue | recover => simp [JobRecord.terminal] at ht
      | keep => simp [hterm] at ht
      | dispatchFailed => exact .undispatched hev rfl rfl
      | giveUp _ hk => exact .lost hev rfl rfl hk
      | report => exact .reported hev rfl rfl rfl
  | create hnone hnb =>
    obtain rfl := Option.some.inj hq
    simp [JobRecord.terminal, hnb.status] at ht

theorem explained_of_run (h : (machine cfg).Run Lib.Machine.Always init as es s) :
    Inv s ∧ ∀ j, Explained cfg es j (s.mem.store.jobs.get j) := by
  refine h.invariant_trace (P := fun es s => Inv s ∧ ∀ j, Explained cfg es j (s.mem.store.jobs.get j))
    ⟨.init, fun j r hr => by simp [init] at hr⟩ ?_
  rintro es s a t fs ⟨hi, he⟩ - hst
  have hst := stepped_of_step hst
  refine ⟨(hi.step hst).1, fun j => ?_⟩
  exact ((hst.writes hi).written j).explained (fun r hr => (hi.sound j r hr).dated) (he j)

/-- The error that this step makes `Dispatch` return for `j`. -/
def State.refusal (s : State) (j : String) : Action → Option Err
  | .drainer ch =>
    match s.drainer with
    | .dispatch a pc => if a.jobID = j then pc.refusal j ch else none
    | _ => none
  | _ => none

section Worded

/-- The words in which the drainer fails a job, where `Dispatch` has returned the errors `Q`. -/
def Says (cfg : Config) (Q : String → Err → Prop) (j message : String) : Prop :=
  message = noWorkerMessage cfg.maxAttempts ∨ ∃ e, Q j e ∧ message = dispatchFailedMessage e

def Drainer.Worded (cfg : Config) (Q : String → Err → Prop) : Drainer → Prop
  | .fail a message _ => Says cfg Q a.jobID message
  | _ => True

structure Worded (cfg : Config) (Q : String → Err → Prop) (es : List Event) (s : State) : Prop where
  drainer : s.drainer.Worded cfg Q
  events : ∀ j message b, .transitioned j (.dispatchFailed message) b ∈ es → Says cfg Q j message

variable {Q Q' : String → Err → Prop}

theorem Says.mono {message : String} (h : Says cfg Q j message) (hQ : ∀ j e, Q j e → Q' j e) :
    Says cfg Q' j message := by
  refine h.imp_right ?_
  rintro ⟨e, he, hm⟩
  exact ⟨e, hQ j e he, hm⟩

theorem Worded.mono (h : Worded cfg Q es s) (hQ : ∀ j e, Q j e → Q' j e) : Worded cfg Q' es s where
  drainer := by
    have hd := h.drainer
    cases hdr : s.drainer with
    | fail a message exhausted =>
      rw [hdr] at hd
      exact Says.mono hd hQ
    | _ => trivial
  events j message b hev := (h.events j message b hev).mono hQ

theorem Drainer.Turns.worded {d d' : Drainer} {gauge : Int} (h : Turns cfg m ch d gauge d')
    (hd : d.Ok) (hjob : ∀ j, d.job = some j → m.store.jobs.get j ≠ none)
    (hQ : ∀ a pc e, d = .dispatch a pc → pc.refusal a.jobID ch = some e → Q a.jobID e) :
    d'.Worded cfg Q := by
  have hreturn : ∀ a : Attempt, (return_ a).Worded cfg Q := fun a => return_ind a trivial trivial
  have hretry : ∀ a : Attempt, (retry cfg a).Worded cfg Q := fun a =>
    retry_ind a (.inl rfl) trivial
  cases h with
  | returned | backoffStop | recordFailed => exact hreturn _
  | stall => exact hretry _
  | fruitless =>
    split
    · exact hretry _
    · trivial
  | error hbad =>
    rcases hbad with hrefusal | hnone | rfl
    · exact .inr ⟨_, hQ _ _ _ rfl hrefusal, rfl⟩
    · exact absurd hnone (hjob _ rfl)
    · exact hd.elim
  | notified =>
    split
    · trivial
    · exact hreturn _
  | _ => trivial

theorem Worded.step (h : Worded cfg Q es s) (hi : Inv s) (hq : Queued s)
    (hst : step cfg s a = some (t, fs)) (hQ : ∀ j e, s.refusal j a = some e → Q j e) :
    Worded cfg Q (es ++ fs) t where
  drainer := by
    by_cases ha : ∃ ch, a = .drainer ch
    · obtain ⟨ch, rfl⟩ := ha
      obtain ⟨stmt, mem, res, -, hcode, hp, rfl⟩ := step_drainer hst
      refine (Drainer.turns hcode hp).worded hi.drainer hq.drainer fun a pc e hd he => hQ _ e ?_
      simpa [State.refusal, hd] using he
    · rcases (stepped_of_step hst).spares fun ch he => ha ⟨ch, he⟩ with ⟨hd, -⟩ | ⟨hd, -⟩
      · exact hd ▸ h.drainer
      · exact hd ▸ trivial
  events j message b hev := by
    rcases List.mem_append.mp hev with hev | hev
    · exact h.events j message b hev
    · obtain ⟨attempt, exhausted, hd, rfl⟩ := (stepped_of_step hst).issued hev
      have hworded := h.drainer
      rwa [hd] at hworded

end Worded

theorem queued_of_run (h : (machine cfg).Run Lib.Machine.Always init as es s) : Inv s ∧ Queued s :=
  h.invariant (P := fun s => Inv s ∧ Queued s) ⟨.init, .init⟩ fun _ _ _ _ hs _ hst =>
    ⟨(hs.1.step (stepped_of_step hst)).1, hs.2.step hs.1 (stepped_of_step hst)⟩

theorem worded_of_run (h : (machine cfg).Run Lib.Machine.Always init as es s) :
    Worded cfg (fun j e => (machine cfg).Takes (fun s a => s.refusal j a = some e) init as) es s := by
  refine h.invariant_history (P := fun as => Worded cfg fun j e =>
    (machine cfg).Takes (fun s a => s.refusal j a = some e) init as) ⟨trivial, by simp⟩ ?_
  intro as es s a t fs hrun hworded _ hst
  obtain ⟨hi, hq⟩ := queued_of_run hrun
  exact (hworded.mono fun j e he => he.append [a]).step hi hq hst fun j e he => hrun.takes he

theorem reaped_of_run (h : (machine cfg).Run Lib.Machine.Always init as es s) {maxRetries : Int}
    {b : Except Err Bool} (hev : .transitioned j (.reap maxRetries) b ∈ es) :
    maxRetries = cfg.maxRetries := by
  refine h.invariant_trace
    (P := fun es _ => .transitioned j (.reap maxRetries) b ∈ es → maxRetries = cfg.maxRetries)
    (by simp) ?_ hev
  intro es s a t fs hes _ hst hev
  rcases List.mem_append.mp hev with hev | hev
  · exact hes hev
  · exact (stepped_of_step hst).issued hev

/-- No outcome comes out of thin air: a finished job has been finished by the report of a client
that it then repeats, or it has FAILED because no worker would take it, because the store refused
the dispatch, or because too many of its workers have died. -/
theorem finished_has_cause (cfg : Config) {as : List Action} {es : List Event} {s : State}
    (h : (machine cfg).Run Lib.Machine.Always init as es s) {j : String} {r : JobRecord}
    (hget : s.mem.store.getJob j = some r) (hr : r.status = .done ∨ r.status = .failed) :
    (∃ c req, .reportTaskResult c req ∈ as ∧ req.jobID = j ∧
        .transitioned j (.report req) (.ok true) ∈ es ∧
        r.status = (if req.success then .done else .failed) ∧ r.resultBytes = req.resultBytes ∧
        r.error = if req.success then "" else req.error) ∨
      r.status = .failed ∧
        (r.error = noWorkerMessage cfg.maxAttempts ∨
          (∃ e, (machine cfg).Takes (fun s a => s.refusal j a = some e) init as ∧
            r.error = dispatchFailedMessage e) ∨
          r.error = "exceeded max retries after worker death(s)" ∧
            cfg.maxRetries < r.retryCount) := by
  cases (explained_of_run h).2 j r hget (r.terminal_iff.mpr hr) with
  | reported hev hs hb he =>
    have hsourced := sourced_of_run (Q := fun req => ∃ c, .reportTaskResult c req ∈ as)
      (h.mem.mono fun _ a ha c req hreq => ⟨c, hreq ▸ ha.2⟩)
    obtain ⟨⟨c, hmem⟩, hid⟩ := hsourced.events j _ _ hev
    exact .inl ⟨c, _, hmem, hid, hev, hs, hb, he⟩
  | undispatched hev hs he =>
    subst he
    exact .inr ⟨hs, ((worded_of_run h).events j _ _ hev).imp_right .inl⟩
  | lost hev hs he hk =>
    exact .inr ⟨hs, .inr (.inr ⟨he, reaped_of_run h hev ▸ hk⟩)⟩

theorem finished_has_cause_sample :
    ∃ r, sampleFinished.1.mem.store.getJob "j" = some r ∧ r.status = .done ∧
      ∃ req : ReportTaskResultRequest, req.jobID = "j" ∧ req.success = true ∧
        r.resultBytes = req.resultBytes := by
  have hrun : (machine sampleConfig).Run Lib.Machine.Always init _ sampleFinished.2
      sampleFinished.1 := (Lib.Machine.run_of_exec_get (by decide)).mono fun _ _ _ => trivial
  obtain ⟨r, hget, hdone⟩ : ∃ r, sampleFinished.1.mem.store.getJob "j" = some r ∧
      r.status = .done := ⟨_, rfl, rfl⟩
  refine ⟨r, hget, hdone, ?_⟩
  rcases finished_has_cause sampleConfig hrun hget (.inl hdone) with
    ⟨c, req, -, hid, -, hs, hb, -⟩ | ⟨hs, -⟩
  · refine ⟨req, hid, ?_, hb⟩
    cases hsuccess : req.success with
    | true => rfl
    | false => simp [hsuccess, hdone] at hs
  · simp [hdone] at hs

end Minimodal.Server
