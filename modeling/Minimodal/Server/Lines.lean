import Minimodal.Server.Entries

namespace Minimodal

def BoltStore.finished (s : BoltStore) (j : String) : Bool := (s.jobs.get j).any JobRecord.terminal

theorem BoltStore.finished_iff {s : BoltStore} {j : String} :
    s.finished j = true ↔ ∃ r, s.jobs.get j = some r ∧ r.terminal = true := by
  unfold finished
  cases s.jobs.get j <;> simp

namespace Server

def Handler.appends : Handler → Option (String × List LogLine)
  | .appendTail req => some (req.jobID, req.tailLines)
  | .appendChunk chunk => some (chunk.jobID, chunk.lines)
  | _ => none

/-- The lines handed to the hub of this process, as they are stored: those appended before
the terminal transition of their job and those appended after it. -/
structure Lines where
  before : String → List LogLine := fun _ => []
  after : String → List LogLine := fun _ => []

namespace Lines

def append (x : Lines) (finished : Bool) (j : String) (lines : List LogLine) : Lines :=
  let lines := lines.map LogHub.truncate
  if finished then { x with after := Function.update x.after j (x.after j ++ lines) }
  else { x with before := Function.update x.before j (x.before j ++ lines) }

def observe (x : Lines) (s : State) (a : Action) (_ : List Event) : Lines :=
  match a with
  | .start | .crash => {}
  | .call c _ =>
    match (s.calls c).appends with
    | some (j, lines) => x.append (s.mem.store.finished j) j lines
    | none => x
  | _ => x

end Lines

def logged (cfg : Config) : Lib.Machine (State × Lines) Action Event :=
  (machine cfg).record Lines.observe

inductive HubMove (s : State) : Action → LogHub → Prop
  | same {a} : (∀ c ch, a = .call c ch → (s.calls c).appends = none) → HubMove s a s.mem.logHub
  | append {c ch j lines} : (s.calls c).appends = some (j, lines) →
      HubMove s (.call c ch) (s.mem.logHub.append j lines)
  | finish {a j rec} : (∀ c ch, a = .call c ch → (s.calls c).appends = none) →
      s.mem.store.finished j = true → HubMove s a (s.mem.logHub.finish j (jobResultEvent rec))
  | subscribe {c ch j lastStatus} : s.calls c = .subscribe j lastStatus →
      HubMove s (.call c ch) (s.mem.logHub.subscribe j c).1
  | unsubscribe {c ch j} : s.calls c = .unsubscribe j →
      HubMove s (.call c ch) (s.mem.logHub.unsubscribe j c)
  | receive {c ch j ev logHub} : s.mem.logHub.receive j c = (logHub, some ev) →
      (s.calls c).appends = none → HubMove s (.call c ch) logHub

variable {cfg : Config} {s t : State} {a : Action} {m m' : Mem} {ch : Choice} {es : List Event}
  {j k : String} {c : Nat}

theorem Kept.finished {s s' : BoltStore} (h : Kept s s') (hj : s.finished j = true) :
    s'.finished j = true := by
  obtain ⟨r, hr, ht⟩ := BoltStore.finished_iff.mp hj
  obtain ⟨r', hr', he⟩ := h j r hr
  exact BoltStore.finished_iff.mpr ⟨r', hr', he.terminal ht⟩

section Finishing

def Drainer.finishing : Drainer → Option String
  | .notify a _ (.finish _) => some a.jobID
  | _ => none

def Detector.finishing : Detector → Option String
  | .notify _ jobID (.finish _) _ _ => some jobID
  | _ => none

def Handler.finishing : Handler → Option String
  | .notify req (.finish _) => some req.jobID
  | _ => none

structure Finishing (s : State) : Prop where
  drainer : ∀ j, s.drainer.finishing = some j → s.mem.store.finished j = true
  detector : ∀ j, s.detector.finishing = some j → s.mem.store.finished j = true
  calls : ∀ c j, (s.calls c).finishing = some j → s.mem.store.finished j = true

theorem Drainer.return_finishing (a : Attempt) : (return_ a).finishing = none :=
  return_ind a rfl rfl

theorem Drainer.retry_finishing (a : Attempt) : (retry cfg a).finishing = none :=
  retry_ind a rfl rfl

theorem Drainer.Steps.finishing {d d' : Drainer} (h : Drainer.Steps cfg m ch d m' d' es)
    (hj : d'.finishing = some j) : m.store.finished j = true := by
  cases h with
  | notify hget ht =>
    simp only [Drainer.finishing, Option.some.injEq] at hj
    subst hj
    exact BoltStore.finished_iff.mpr ⟨_, hget, ht⟩
  | loadTerminal | markSkip | accepted | backoffStop | recordFailed =>
    simp [Drainer.return_finishing] at hj
  | stall => simp [Drainer.retry_finishing] at hj
  | pickNone =>
    split at hj
    · simp [Drainer.retry_finishing] at hj
    · simp [Drainer.finishing] at hj
  | notified =>
    split at hj
    · simp [Drainer.finishing] at hj
    · simp [Drainer.return_finishing] at hj
  | _ => simp [Drainer.finishing] at hj

theorem Detector.Steps.finishing {d d' : Detector} (h : Detector.Steps cfg m ch d m' d' es)
    (hj : d'.finishing = some j) : m.store.finished j = true := by
  have hnext : ∀ w jobs dead, (next w jobs dead).finishing = none :=
    fun w jobs dead => next_ind w jobs dead rfl fun _ _ => rfl
  cases h with
  | notify hget ht =>
    simp only [Detector.finishing, Option.some.injEq] at hj
    subst hj
    exact BoltStore.finished_iff.mpr ⟨_, hget, ht⟩
  | list | skip | checkSkip | send | notified => simp [hnext] at hj
  | _ => simp [Detector.finishing] at hj

theorem Handler.sendAll_frame (jobID : String) (evs : List JobEvent) (k : WatchNext) :
    (sendAll jobID evs k).finishing = none ∧ (sendAll jobID evs k).appends = none := by
  cases evs with
  | nil => cases k <;> exact ⟨rfl, rfl⟩
  | cons ev evs => exact ⟨rfl, rfl⟩

theorem Handler.Moves.finishing {h h' : Handler} (hm : Handler.Moves m ch c h m' h' es)
    (hj : h'.finishing = some j) : m.store.finished j = true := by
  cases hm with
  | aloof _ ha =>
    cases h' <;> first | simp [Handler.aloof] at ha; done | simp [Handler.finishing] at hj
  | notify hmove =>
    cases hmove with
    | load hget ht =>
      simp only [Option.elim_some, Handler.finishing, Option.some.injEq] at hj
      subst hj
      exact BoltStore.finished_iff.mpr ⟨_, hget, ht⟩
    | _ => simp [Handler.finishing] at hj
  | sent => simp [(Handler.sendAll_frame ..).1] at hj
  | _ => simp [Handler.finishing] at hj

theorem Finishing.setCall (h : Finishing s) {h' : Handler}
    (hf : ∀ j, h'.finishing = some j → s.mem.store.finished j = true) :
    Finishing (s.setCall c h') := by
  refine ⟨h.drainer, h.detector, fun d j hd => ?_⟩
  rw [setCall_calls] at hd
  split at hd
  · exact hf j hd
  · exact h.calls d j hd

theorem Finishing.kept (h : Finishing s) {mem : Mem} (hk : Kept s.mem.store mem.store) :
    Finishing { s with mem } :=
  ⟨fun j hj => hk.finished (h.drainer j hj), fun j hj => hk.finished (h.detector j hj),
    fun c j hj => hk.finished (h.calls c j hj)⟩

theorem Finishing.step (h : Finishing s) (hi : Inv s) (hst : Stepped cfg s a t es) :
    Finishing t := by
  have hk := (hi.step hst).2
  cases hst with
  | start _ | crash =>
    exact ⟨by simp [State.lose, Drainer.finishing], by simp [State.lose, Detector.finishing],
      by simp [State.lose, Handler.finishing]⟩
  | beginShutdown _ | cancel _ | close _ | registerWorker _ | heartbeat _ => exact h.kept hk
  | main hcode hp =>
    have hmem := h.kept hk
    exact ⟨hmem.drainer, hmem.detector, hmem.calls⟩
  | drainer _ hcode hp =>
    have hmem := h.kept hk
    exact ⟨fun j hj => hk.finished ((Drainer.steps hcode hp).finishing hj), hmem.detector,
      hmem.calls⟩
  | detector _ hcode hp =>
    have hmem := h.kept hk
    exact ⟨hmem.drainer, fun j hj => hk.finished ((Detector.steps hcode hp).finishing hj),
      hmem.calls⟩
  | call hcode hp =>
    exact (h.kept hk).setCall fun j hj => hk.finished ((Handler.moves hcode hp).finishing hj)
  | @invokeFunction c req uuid now _ _ _ =>
    have hids : Finishing { s with uuids := uuid :: s.uuids } := ⟨h.drainer, h.detector, h.calls⟩
    refine hids.setCall fun j hj => ?_
    unfold Handler.invokeFunction at hj
    simp only at hj
    repeat' split at hj
    all_goals simp [Handler.finishing] at hj
  | @accept _ _ h' _ _ hh =>
    refine h.setCall fun j hj => ?_
    cases h' <;> first | exact hh.elim | simp [Handler.finishing] at hj

end Finishing

theorem NotifyPc.Moves.hubMove {jobID : String} {pc : NotifyPc} {next : Option NotifyPc}
    (h : NotifyPc.Moves s.mem ch jobID pc m' next)
    (ha : ∀ c ch, a = .call c ch → (s.calls c).appends = none)
    (hf : ∀ rec, pc = .finish rec → s.mem.store.finished jobID = true) :
    HubMove s a m'.logHub := by
  cases h with
  | load | skip => exact .same ha
  | finish => exact .finish ha (hf _ rfl)

theorem Handler.aloof_appends {h : Handler} (ha : h.aloof = true) : h.appends = none := by
  cases h <;> first | rfl | simp [Handler.aloof] at ha

theorem hubMove_of_step (hf : Finishing s) (hstart : a ≠ .start) (hcrash : a ≠ .crash)
    (h : step cfg s a = some (t, es)) : HubMove s a t.mem.logHub := by
  cases a with
  | start => exact absurd rfl hstart
  | crash => exact absurd rfl hcrash
  | beginShutdown | cancel | close | registerWorker | heartbeat =>
    simp only [step, Option.ite_none_right_eq_some, Option.some.injEq, Prod.mk.injEq] at h
    obtain ⟨-, rfl, -⟩ := h
    exact .same (by simp)
  | reportTaskResult | getJobStatus | watchJob | streamTaskLogs =>
    obtain ⟨-, -, rfl, -⟩ := accept_some h
    exact .same (by simp)
  | invokeFunction =>
    simp only [step, Option.ite_none_right_eq_some] at h
    obtain ⟨-, -, rfl, -⟩ := accept_some h.2
    exact .same (by simp)
  | main ch =>
    obtain ⟨stmt, mem, r, hcode, hp, rfl⟩ := step_main h
    simp only [Main.hub hcode hp]
    exact .same (by simp)
  | drainer ch =>
    obtain ⟨stmt, mem, r, -, hcode, hp, rfl⟩ := step_drainer h
    rcases Drainer.hub hcode hp with ⟨a, exhausted, pc, next, hd, hmove, -⟩ | ⟨-, hhub⟩
    · refine hmove.hubMove (by simp) ?_
      rintro rec rfl
      exact hf.drainer _ (by simp [hd, Drainer.finishing])
    · simp only [hhub]
      exact .same (by simp)
  | detector ch =>
    obtain ⟨stmt, mem, r, -, hcode, hp, rfl⟩ := step_detector h
    rcases Detector.hub hcode hp with ⟨w, jobID, pc, jobs, dead, next, hd, hmove, -⟩ | ⟨-, hhub⟩
    · refine hmove.hubMove (by simp) ?_
      rintro rec rfl
      exact hf.detector _ (by simp [hd, Detector.finishing])
    · simp only [hhub]
      exact .same (by simp)
  | call c ch =>
    obtain ⟨stmt, mem, r, hcode, hp, rfl⟩ := step_call h
    have hmoves := Handler.moves hcode hp
    have hfin := hf.calls c
    have hsame : (s.calls c).appends = none →
        ∀ d ch', Action.call c ch = .call d ch' → (s.calls d).appends = none := by
      rintro hnone d ch' ⟨⟩
      exact hnone
    generalize stmt.next r = h' at hmoves
    generalize hc : s.calls c = h₀ at hmoves hsame hfin
    simp only [setCall_mem]
    cases hmoves with
    | aloof ha _ hhub =>
      rw [hhub]
      exact .same (hsame (Handler.aloof_appends ha))
    | putResult hhub | recordColdStart hhub | count hhub =>
      rw [hhub]
      exact .same (hsame rfl)
    | report ht | reportError ht =>
      rw [ht.mem]
      exact .same (hsame rfl)
    | appendTail => exact .append (by rw [hc]; rfl)
    | appendChunk => exact .append (by rw [hc]; rfl)
    | notify hmove =>
      refine hmove.hubMove (hsame rfl) ?_
      rintro rec rfl
      exact hfin _ rfl
    | subscribe => exact .subscribe hc
    | unsubscribe => exact .unsubscribe hc
    | waitEvent hrecv | drainEvent hrecv => exact .receive hrecv (by rw [hc]; rfl)
    | _ => exact .same (hsame rfl)

end Server

namespace JobLogState

variable {st : JobLogState} {maxLines : Nat} {j : String}

@[simp] theorem fanOut_lines (st : JobLogState) (ev : JobEvent) : (st.fanOut ev).lines = st.lines := rfl

@[simp] theorem fanOut_dropped (st : JobLogState) (ev : JobEvent) :
    (st.fanOut ev).dropped = st.dropped := rfl

theorem take_lines (ht : st.terminal = none) (lines : List LogLine)
    (hd : (st.take maxLines j lines).dropped = 0) :
    st.dropped = 0 ∧ (st.take maxLines j lines).lines = st.lines ++ lines.map LogHub.truncate := by
  have hline : ∀ (st : JobLogState) line, (LogHub.appendLine maxLines j st line).dropped = 0 →
      st.dropped = 0 ∧
        (LogHub.appendLine maxLines j st line).lines = st.lines ++ [LogHub.truncate line] := by
    intro st line hd
    unfold LogHub.appendLine at hd ⊢
    simp only [fanOut_dropped, fanOut_lines] at hd ⊢
    split
    · rename_i hfull
      simp [hfull] at hd
    · rename_i hroom
      simp only [hroom, if_false] at hd
      exact ⟨hd, rfl⟩
  simp only [take, ht, Option.isSome_none, Bool.false_eq_true, if_false] at hd ⊢
  induction lines generalizing st with
  | nil => exact ⟨hd, by simp⟩
  | cons line lines ih =>
    obtain ⟨hd', hlines⟩ := ih ((appendLine_terminal ..).trans ht) hd
    obtain ⟨hst, hfirst⟩ := hline st line hd'
    refine ⟨hst, ?_⟩
    rw [List.foldl_cons, hlines, hfirst, List.map_cons, List.append_assoc]
    rfl

end JobLogState

namespace LogHub

variable {h : LogHub} {j k : String} {sub : Nat}

theorem get_append (lines : List LogLine) :
    (h.append j lines).get k =
      if j = k ∧ lines ≠ [] then (h.get k).take h.maxLines j lines else h.get k := by
  rw [get_eq, jobs_append]
  split
  · rfl
  · exact (get_eq ..).symm

theorem get_subscribe :
    (h.subscribe j sub).1.get k = if j = k then (h.get k).attach sub else h.get k := by
  rw [get_eq, jobs_subscribe]
  split
  · rfl
  · exact (get_eq ..).symm

theorem get_receive {h' : LogHub} {ev : JobEvent} (hr : h.receive j sub = (h', some ev)) :
    h'.get k = if j = k then (h.get k).advance sub else h.get k := by
  rw [get_eq, (receive_some hr).2]
  split
  · rfl
  · exact (get_eq ..).symm

theorem get_finish_ne {result : JobEvent} (hk : j ≠ k) : (h.finish j result).get k = h.get k := by
  rw [get_eq, jobs_finish, if_neg hk, get_eq]

theorem get_unsubscribe_ne (hk : j ≠ k) : (h.unsubscribe j sub).get k = h.get k := by
  rw [get_eq, jobs_unsubscribe, if_neg hk, get_eq]

theorem get_unsubscribe_open (ht : (h.get k).terminal = none) :
    ((h.unsubscribe j sub).get k).terminal = none ∧
      ((h.unsubscribe j sub).get k).lines = (h.get k).lines ∧
      ((h.unsubscribe j sub).get k).dropped = (h.get k).dropped := by
  by_cases hk : j = k
  · rw [get_eq] at ht
    rw [get_eq, jobs_unsubscribe, if_pos hk, get_eq]
    cases hst : h.jobs[k]? with
    | none => exact ⟨rfl, rfl, rfl⟩
    | some st =>
      have ht : st.terminal = none := by simpa [hst] using ht
      simp [JobLogState.detach, ht]
  · rw [get_unsubscribe_ne hk]
    exact ⟨ht, rfl, rfl⟩

theorem terminal_unsubscribe {ev : JobEvent} (ht : ((h.unsubscribe j sub).get k).terminal = some ev) :
    (h.get k).terminal = some ev := by
  by_cases hk : j = k
  · rw [get_eq, jobs_unsubscribe, if_pos hk] at ht
    rw [get_eq]
    cases hst : h.jobs[k]? with
    | none => simp [hst] at ht
    | some st =>
      simp only [hst, Option.bind_some, JobLogState.detach] at ht
      split at ht
      · simp at ht
      · exact ht
  · rwa [get_unsubscribe_ne hk] at ht

theorem terminal_finish {result ev : JobEvent} (ht : ((h.finish j result).get k).terminal = some ev) :
    (h.get k).terminal = some ev ∨ ev = result := by
  by_cases hk : j = k
  · rw [get_eq, jobs_finish, if_pos hk] at ht
    rw [get_eq]
    cases hst : h.jobs[k]? with
    | none => simp [hst] at ht
    | some st =>
      simp only [hst, Option.bind_some, JobLogState.close] at ht
      split at ht
      · exact .inl ht
      · split at ht
        · simp at ht
        · simp only [Option.getD_some, JobLogState.fanOut_terminal, Option.some.injEq] at ht
          exact .inr ht.symm
  · rw [get_finish_ne hk] at ht
    exact .inl ht

end LogHub

namespace Server

variable {cfg : Config} {s t : State} {a : Action} {es : List Event} {x : Lines} {j : String}

/-- What the hub knows of the jobs that have not finished, and that a stored terminal event
is a result. -/
structure Buffered (x : Lines) (s : State) : Prop where
  terminal : ∀ j, s.mem.store.finished j = false → (s.mem.logHub.get j).terminal = none
  lines : ∀ j, s.mem.store.finished j = false → (s.mem.logHub.get j).dropped = 0 →
    (s.mem.logHub.get j).lines = x.before j
  after : ∀ j, s.mem.store.finished j = false → x.after j = []
  result : ∀ j ev, (s.mem.logHub.get j).terminal = some ev → ev.isResult = true

theorem Lines.before_append (x : Lines) (finished : Bool) (k j : String) (lines : List LogLine) :
    (x.append finished k lines).before j =
      if k = j ∧ finished = false then x.before j ++ lines.map LogHub.truncate else x.before j := by
  cases finished
  · by_cases hk : k = j
    · subst hk
      simp [append]
    · simp [append, hk, Ne.symm hk]
  · simp [append]

theorem Lines.after_append (x : Lines) (finished : Bool) (k j : String) (lines : List LogLine) :
    (x.append finished k lines).after j =
      if k = j ∧ finished = true then x.after j ++ lines.map LogHub.truncate else x.after j := by
  cases finished
  · simp [append]
  · by_cases hk : k = j
    · subst hk
      simp [append]
    · simp [append, hk, Ne.symm hk]

theorem Lines.append_other (x : Lines) (finished : Bool) {k j : String} {lines : List LogLine}
    (h : ¬ (k = j ∧ lines ≠ [])) :
    (x.append finished k lines).before j = x.before j ∧
      (x.append finished k lines).after j = x.after j := by
  rw [before_append, after_append]
  by_cases hk : k = j
  · have hnil : lines = [] := not_not.mp fun hne => h ⟨hk, hne⟩
    simp [hnil]
  · simp [hk]

theorem Lines.observe_same {e : List Event} (hstart : a ≠ .start) (hcrash : a ≠ .crash)
    (h : ∀ c ch, a = .call c ch → (s.calls c).appends = none) : x.observe s a e = x := by
  cases a with
  | start => exact absurd rfl hstart
  | crash => exact absurd rfl hcrash
  | call c ch => simp [observe, h c ch rfl]
  | _ => rfl

theorem Lines.observe_append {c : Nat} {ch : Choice} {lines : List LogLine} {e : List Event}
    (h : (s.calls c).appends = some (j, lines)) :
    x.observe s (.call c ch) e = x.append (s.mem.store.finished j) j lines := by
  simp [observe, h]

theorem Kept.unfinished {s s' : BoltStore} (h : Kept s s') (hj : s'.finished j = false) :
    s.finished j = false := by
  cases hs : s.finished j with
  | false => rfl
  | true => simp [h.finished hs] at hj

theorem LogHub.get_new (j : String) : LogHub.new.get j = {} := by
  simp [LogHub.get_eq, LogHub.new]

theorem Buffered.fresh (s : State) : Buffered {} s.lose where
  terminal j _ := by simp [State.lose, LogHub.get_new]
  lines j _ _ := by simp [State.lose, LogHub.get_new]
  after _ _ := rfl
  result j ev h := by simp [State.lose, LogHub.get_new] at h

theorem Buffered.of_hub (h : Buffered x s) (hk : Kept s.mem.store t.mem.store)
    (hopen : ∀ j, t.mem.store.finished j = false → (s.mem.logHub.get j).terminal = none →
      (t.mem.logHub.get j).terminal = none ∧
      (t.mem.logHub.get j).lines = (s.mem.logHub.get j).lines ∧
      (t.mem.logHub.get j).dropped = (s.mem.logHub.get j).dropped)
    (hres : ∀ j ev, (t.mem.logHub.get j).terminal = some ev →
      (s.mem.logHub.get j).terminal = some ev ∨ ev.isResult = true) : Buffered x t where
  terminal j hj := (hopen j hj (h.terminal j (hk.unfinished hj))).1
  lines j hj hd := by
    obtain ⟨-, hlines, hdropped⟩ := hopen j hj (h.terminal j (hk.unfinished hj))
    rw [hlines]
    exact h.lines j (hk.unfinished hj) (hdropped ▸ hd)
  after j hj := h.after j (hk.unfinished hj)
  result j ev hev := (hres j ev hev).elim (h.result j ev) id

theorem JobLogState.advance_lines (st : JobLogState) (sub : Nat) :
    (st.advance sub).lines = st.lines ∧ (st.advance sub).dropped = st.dropped := by
  unfold JobLogState.advance
  split <;> exact ⟨rfl, rfl⟩

theorem Buffered.append (h : Buffered x s) (hk : Kept s.mem.store t.mem.store) {k : String}
    {lines : List LogLine} (hhub : t.mem.logHub = s.mem.logHub.append k lines) :
    Buffered (x.append (s.mem.store.finished k) k lines) t := by
  constructor
  case terminal =>
    intro j hj
    have ht := h.terminal j (hk.unfinished hj)
    rw [hhub, LogHub.get_append]
    split
    · exact (JobLogState.take_frame ..).1.trans ht
    · exact ht
  case lines =>
    intro j hj hd
    have hopen := hk.unfinished hj
    have ht := h.terminal j hopen
    rw [hhub, LogHub.get_append] at hd ⊢
    split at hd
    · rename_i hkj
      obtain ⟨rfl, hne⟩ := hkj
      obtain ⟨hold, hlines⟩ := JobLogState.take_lines ht lines hd
      rw [Lines.before_append, if_pos ⟨rfl, hne⟩, if_pos ⟨rfl, hopen⟩, hlines,
        h.lines k hopen hold]
    · rename_i hkj
      rw [if_neg hkj, h.lines j hopen hd, (x.append_other _ hkj).1]
  case after =>
    intro j hj
    have hopen := hk.unfinished hj
    rw [Lines.after_append, if_neg, h.after j hopen]
    rintro ⟨rfl, hfin⟩
    simp [hopen] at hfin
  case result =>
    intro j ev hev
    rw [hhub, LogHub.get_append] at hev
    split at hev
    · exact h.result j ev ((JobLogState.take_frame ..).1 ▸ hev)
    · exact h.result j ev hev

theorem Buffered.step (h : Buffered x s) (hf : Finishing s) (hi : Inv s)
    (hst : Server.step cfg s a = some (t, es)) : Buffered (x.observe s a es) t := by
  have hk := (hi.step (stepped_of_step hst)).2
  by_cases hstart : a = .start
  · subst hstart
    simp only [Server.step, Option.ite_none_right_eq_some, Option.some.injEq, Prod.mk.injEq] at hst
    obtain ⟨-, rfl, -⟩ := hst
    have hl := Buffered.fresh s
    exact ⟨hl.terminal, hl.lines, hl.after, hl.result⟩
  by_cases hcrash : a = .crash
  · subst hcrash
    simp only [Server.step, Option.some.injEq, Prod.mk.injEq] at hst
    obtain ⟨rfl, -⟩ := hst
    exact Buffered.fresh s
  generalize hhub : t.mem.logHub = logHub
  have hmove := hubMove_of_step hf hstart hcrash hst
  rw [hhub] at hmove
  cases hmove with
  | append happ =>
    rw [Lines.observe_append happ]
    exact h.append hk hhub
  | same happ =>
    rw [Lines.observe_same hstart hcrash happ]
    refine h.of_hub hk ?_ ?_ <;> rw [hhub]
    · exact fun j _ ht => ⟨ht, rfl, rfl⟩
    · exact fun j ev hev => .inl hev
  | @finish _ k rec happ hfin =>
    rw [Lines.observe_same hstart hcrash happ]
    refine h.of_hub hk ?_ ?_ <;> rw [hhub]
    · intro j hj ht
      have hne : k ≠ j := by
        rintro rfl
        simp [hk.finished hfin] at hj
      rw [LogHub.get_finish_ne hne]
      exact ⟨ht, rfl, rfl⟩
    · intro j ev hev
      refine (LogHub.terminal_finish hev).imp_right ?_
      rintro rfl
      rfl
  | @subscribe c ch k lastStatus hc =>
    rw [Lines.observe_same hstart hcrash (by rintro d _ ⟨⟩; simp [hc, Handler.appends])]
    refine h.of_hub hk ?_ ?_ <;> rw [hhub]
    · intro j _ ht
      rw [LogHub.get_subscribe]
      split <;> exact ⟨ht, rfl, rfl⟩
    · intro j ev hev
      rw [LogHub.get_subscribe] at hev
      split at hev <;> exact .inl hev
  | @unsubscribe c ch k hc =>
    rw [Lines.observe_same hstart hcrash (by rintro d _ ⟨⟩; simp [hc, Handler.appends])]
    refine h.of_hub hk ?_ ?_ <;> rw [hhub]
    · exact fun j _ ht => LogHub.get_unsubscribe_open ht
    · exact fun j ev hev => .inl (LogHub.terminal_unsubscribe hev)
  | @receive c ch k ev _ hrecv happ =>
    rw [Lines.observe_same hstart hcrash (by rintro d _ ⟨⟩; exact happ)]
    refine h.of_hub hk ?_ ?_ <;> rw [hhub]
    · intro j _ ht
      rw [LogHub.get_receive hrecv]
      split
      · exact ⟨(JobLogState.advance_frame ..).1.trans ht, JobLogState.advance_lines ..⟩
      · exact ⟨ht, rfl, rfl⟩
    · intro j e he
      rw [LogHub.get_receive hrecv] at he
      split at he
      · rw [(JobLogState.advance_frame ..).1] at he
        exact .inl he
      · exact .inl he

theorem buffered_of_run {as : List Action} {y : State × Lines}
    (h : (logged cfg).Run Lib.Machine.Always (init, {}) as es y) :
    Inv y.1 ∧ Finishing y.1 ∧ Buffered y.2 y.1 := by
  refine h.invariant (P := fun y => Inv y.1 ∧ Finishing y.1 ∧ Buffered y.2 y.1) ?_ ?_
  · exact ⟨.init, ⟨by simp [init, Drainer.finishing], by simp [init, Detector.finishing],
      by simp [init, Handler.finishing]⟩, Buffered.fresh init⟩
  · rintro y a z e ⟨hi, hf, hb⟩ - hst
    obtain ⟨hst, hz⟩ := Lib.Machine.record_step.mp hst
    have hstep := stepped_of_step hst
    rw [hz]
    exact ⟨(hi.step hstep).1, hf.step hi hstep, hb.step hf hi hst⟩

end Server

end Minimodal
