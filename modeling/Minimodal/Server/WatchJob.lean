import Minimodal.Server.Lines

namespace Minimodal.Server

def watchedBy (call : Nat) (es : List Event) : List JobEvent :=
  es.filterMap fun
    | .watched c ev => if c = call then some ev else none
    | _ => none

/-- A stream that goes on: a status event, then logs and status changes. -/
def Opened (j : String) (l : List JobEvent) : Prop :=
  ∃ st mid, l = .status j st :: mid ∧ ∀ ev ∈ mid, ev.isResult = false

def Closed (j : String) (l : List JobEvent) : Prop :=
  ∃ front ev, Opened j front ∧ ev.isResult = true ∧ l = front ++ [ev]

def Action.starts : Action → Option Nat
  | .invokeFunction c _ _ _ | .reportTaskResult c _ | .getJobStatus c _ | .watchJob c _ => some c
  | .streamTaskLogs c => some c
  | _ => none

def Action.choice (call : Nat) : Action → Option Choice
  | .call c ch => if c = call then some ch else none
  | _ => none

/-- Why `WatchJob` turns down a call that came in state `s`; `bs` are the actions since. -/
inductive TurnsDown (s : State) (call : Nat) (j : String) (bs : List Action) : Status → Prop
  | noID : j = "" → TurnsDown s call j bs ⟨.invalidArgument, "job_id required"⟩
  | notFound : s.mem.store.getJob j = none →
      TurnsDown s call j bs ⟨.notFound, "job " ++ j ++ " not found"⟩
  -- the first statement of the call is the read
  | loadFailed {ch msg} : bs.findSome? (Action.choice call) = some ch → ch.fault = some msg →
      TurnsDown s call j bs ⟨.internal, "load job: " ++ msg⟩

/-- The process stays up and the call keeps its number to itself. -/
def undisturbed (call : Nat) (_ : State) (a : Action) : Prop :=
  a.starts ≠ some call ∧ a ≠ .start ∧ a ≠ .crash

section Lists

variable {j : String} {l l' : List JobEvent} {ev : JobEvent}

@[simp] theorem watchedBy_nil (call : Nat) : watchedBy call [] = [] := rfl

@[simp] theorem watchedBy_append (call : Nat) (es fs : List Event) :
    watchedBy call (es ++ fs) = watchedBy call es ++ watchedBy call fs := by
  simp [watchedBy]

theorem watchedBy_eq_nil {call : Nat} {es : List Event}
    (h : ∀ ev ∈ es, ∀ jev, ev ≠ .watched call jev) : watchedBy call es = [] := by
  rw [watchedBy, List.filterMap_eq_nil_iff]
  intro ev hev
  cases ev with
  | watched c jev =>
    have hne : c ≠ call := by
      rintro rfl
      exact h _ hev jev rfl
    simp [hne]
  | _ => rfl

theorem Opened.no_result (h : Opened j l) : ∀ ev ∈ l, ev.isResult = false := by
  obtain ⟨st, mid, rfl, hmid⟩ := h
  intro ev hev
  rcases List.mem_cons.mp hev with rfl | hev
  · rfl
  · exact hmid ev hev

theorem Opened.append (h : Opened j l) (hl : ∀ ev ∈ l', ev.isResult = false) :
    Opened j (l ++ l') := by
  obtain ⟨st, mid, rfl, hmid⟩ := h
  refine ⟨st, mid ++ l', rfl, fun ev hev => ?_⟩
  rcases List.mem_append.mp hev with hev | hev
  · exact hmid ev hev
  · exact hl ev hev

theorem Opened.front (h : Opened j (l ++ l')) : l = [] ∨ Opened j l := by
  obtain ⟨st, mid, hl, hmid⟩ := h
  cases l with
  | nil => exact .inl rfl
  | cons ev l =>
    simp only [List.cons_append, List.cons.injEq] at hl
    obtain ⟨rfl, rfl⟩ := hl
    exact .inr ⟨st, l, rfl, fun ev hev => hmid ev (List.mem_append_left _ hev)⟩

theorem Closed.front (h : Closed j (l ++ ev :: l')) : l = [] ∨ Opened j l := by
  obtain ⟨front, res, hopen, hres, hl⟩ := h
  have hfront : front = l ++ (ev :: l').dropLast := by
    have := congrArg List.dropLast hl
    rwa [List.dropLast_append_of_ne_nil (by simp), List.dropLast_concat, eq_comm] at this
  exact (hfront ▸ hopen).front

theorem Opened.close (h : Opened j l) (hev : ev.isResult = true) : Closed j (l ++ [ev]) :=
  ⟨l, ev, h, hev, rfl⟩

end Lists

variable {cfg : Config} {s t : State} {a : Action} {es : List Event} {call : Nat} {j : String}
  {m m' : Mem} {ch : Choice}

theorem Main.Steps.unwatched {pc pc' : Main} (h : Main.Steps m ch pc m' pc' es) :
    ∀ ev ∈ es, ev.isWatched = false := by
  cases h <;> simp [Event.isWatched]

theorem Drainer.Steps.unwatched {d d' : Drainer} (h : Drainer.Steps cfg m ch d m' d' es) :
    ∀ ev ∈ es, ev.isWatched = false := by
  cases h <;> simp [Event.isWatched]

theorem Detector.Steps.unwatched {d d' : Detector} (h : Detector.Steps cfg m ch d m' d' es) :
    ∀ ev ∈ es, ev.isWatched = false := by
  cases h <;> simp [Event.isWatched]

theorem watchedBy_of_unwatched (h : ∀ ev ∈ es, ev.isWatched = false) : watchedBy call es = [] := by
  refine watchedBy_eq_nil ?_
  rintro ev hev jev rfl
  exact absurd (h _ hev) (by simp [Event.isWatched])

theorem Handler.Moves.watchedBy {c : Nat} {h h' : Handler} (hm : Handler.Moves m ch c h m' h' es)
    (hc : c ≠ call) : watchedBy call es = [] := by
  cases hm with
  | aloof _ _ _ hes => exact watchedBy_of_unwatched hes
  | sent => simp [Server.watchedBy, hc]
  | _ => rfl

theorem moves_of_call (h : step cfg s (.call call ch) = some (t, es)) :
    Handler.Moves s.mem ch call (s.calls call) t.mem (t.calls call) es := by
  obtain ⟨stmt, mem, r, hcode, hp, rfl⟩ := step_call h
  simpa [setCall_calls] using Handler.moves hcode hp

theorem step_of_call (h : step cfg s a = some (t, es)) (hu : undisturbed call s a) :
    (∃ ch, a = .call call ch ∧ Handler.Moves s.mem ch call (s.calls call) t.mem (t.calls call) es) ∨
    (∀ ch, a ≠ .call call ch) ∧ t.calls call = s.calls call ∧ watchedBy call es = [] := by
  obtain ⟨hstarts, hstart, hcrash⟩ := hu
  cases a with
  | start => exact absurd rfl hstart
  | crash => exact absurd rfl hcrash
  | beginShutdown | cancel | close | registerWorker | heartbeat =>
    simp only [step, Option.ite_none_right_eq_some, Option.some.injEq, Prod.mk.injEq] at h
    obtain ⟨-, rfl, rfl⟩ := h
    exact .inr ⟨by simp, rfl, rfl⟩
  | reportTaskResult c | getJobStatus c | watchJob c | streamTaskLogs c =>
    obtain ⟨-, -, rfl, rfl⟩ := accept_some h
    have hne : call ≠ c := fun he => hstarts (by rw [he]; rfl)
    exact .inr ⟨by simp, by rw [setCall_calls, if_neg hne], rfl⟩
  | invokeFunction c =>
    simp only [step, Option.ite_none_right_eq_some] at h
    obtain ⟨-, -, rfl, rfl⟩ := accept_some h.2
    have hne : call ≠ c := fun he => hstarts (by rw [he]; rfl)
    exact .inr ⟨by simp, by rw [setCall_calls, if_neg hne], rfl⟩
  | main ch =>
    obtain ⟨stmt, mem, r, hcode, hp, rfl⟩ := step_main h
    exact .inr ⟨by simp, rfl, watchedBy_of_unwatched (Main.steps hcode hp).unwatched⟩
  | drainer ch =>
    obtain ⟨stmt, mem, r, -, hcode, hp, rfl⟩ := step_drainer h
    exact .inr ⟨by simp, rfl, watchedBy_of_unwatched (Drainer.steps hcode hp).unwatched⟩
  | detector ch =>
    obtain ⟨stmt, mem, r, -, hcode, hp, rfl⟩ := step_detector h
    exact .inr ⟨by simp, rfl, watchedBy_of_unwatched (Detector.steps hcode hp).unwatched⟩
  | call c ch =>
    have hmoves := moves_of_call h
    by_cases hc : c = call
    · subst hc
      exact .inl ⟨ch, rfl, hmoves⟩
    · obtain ⟨stmt, mem, r, -, -, rfl⟩ := step_call h
      exact .inr ⟨by simp [hc], by rw [setCall_calls, if_neg (Ne.symm hc)], hmoves.watchedBy hc⟩

/-- How far the stream of a call has come: `sent` are the events that are out, `stopped` says
that a send has failed or the client has gone, `refused` that the call was turned down. -/
def Handler.Streams (j : String) (stopped refused : Prop) (sent : List JobEvent) : Handler → Prop
  | .refuse _ => sent = []
  | .loadWatch k | .subscribe k _ => k = j ∧ sent = []
  | .sendEvent k ev evs .done => k = j ∧ Closed j (sent ++ ev :: evs)
  | .sendEvent k ev evs _ => k = j ∧ Opened j (sent ++ ev :: evs)
  | .poll k _ | .wait k _ | .drain k _ => k = j ∧ Opened j sent
  | .unsubscribe k => k = j ∧ (Closed j sent ∨ stopped ∧ (sent = [] ∨ Opened j sent))
  | .idle => Closed j sent ∨ stopped ∧ (sent = [] ∨ Opened j sent) ∨ refused ∧ sent = []
  | _ => False

section Stream

variable {stopped refused stopped' refused' : Prop} {sent : List JobEvent} {h h' : Handler}

theorem Handler.Streams.mono (hs : h.Streams j stopped refused sent) (hst : stopped → stopped')
    (href : refused → refused') : h.Streams j stopped' refused' sent := by
  cases h with
  | unsubscribe => exact ⟨hs.1, hs.2.imp_right (.imp_left hst)⟩
  | idle => exact hs.imp_right (.imp (.imp_left hst) (.imp_left href))
  | sendEvent _ _ _ k => cases k <;> exact hs
  | _ => exact hs

theorem Handler.streams_sendAll (evs : List JobEvent) {k : WatchNext}
    (hd : k = .done → Closed j (sent ++ evs)) (ho : k ≠ .done → Opened j (sent ++ evs)) :
    (sendAll j evs k).Streams j stopped refused sent := by
  cases evs with
  | nil =>
    rw [List.append_nil] at hd ho
    cases k with
    | done => exact ⟨rfl, .inl (hd rfl)⟩
    | _ => exact ⟨rfl, ho (by simp)⟩
  | cons ev evs =>
    cases k with
    | done => exact ⟨rfl, hd rfl⟩
    | _ => exact ⟨rfl, ho (by simp)⟩

theorem Handler.Streams.sendEvent {k : String} {ev : JobEvent} {evs : List JobEvent}
    {next : WatchNext} (hs : (Handler.sendEvent k ev evs next).Streams j stopped refused sent) :
    k = j ∧ (next = .done → Closed j (sent ++ ev :: evs)) ∧
      (next ≠ .done → Opened j (sent ++ ev :: evs)) := by
  cases next with
  | done => exact ⟨hs.1, fun _ => hs.2, fun hne => absurd rfl hne⟩
  | _ => exact ⟨hs.1, fun he => by simp at he, fun _ => hs.2⟩

theorem Handler.Streams.step (hs : h.Streams j stopped refused sent)
    (hm : Handler.Moves m ch call h m' h' es)
    (hres : ∀ ev, (m.logHub.get j).terminal = some ev → ev.isResult = true) :
    h'.Streams j (stopped ∨ ch.stop = true)
      (refused ∨ ∃ st, h = .refuse st ∧ .refused call st ∈ es) (sent ++ watchedBy call es) := by
  have hsame : ∀ {h' : Handler}, h'.Streams j stopped refused sent →
      h'.Streams j (stopped ∨ ch.stop = true)
        (refused ∨ ∃ st, h = .refuse st ∧ .refused call st ∈ es) (sent ++ []) :=
    fun hs => (List.append_nil sent).symm ▸ hs.mono .inl .inl
  cases hm with
  | aloof ha _ _ hes hend =>
    cases h <;> first | exact hs.elim | simp [Handler.aloof] at ha; done | simp [Handler.ending] at hend
  | @refuse status =>
    have hnil : sent = [] := hs
    exact .inr (.inr ⟨.inr ⟨status, rfl, List.mem_singleton_self _⟩, by simp [watchedBy, hnil]⟩)
  | loadWatch => exact hsame hs
  | loadFailed | loadMissing => exact hsame hs.2
  | @subscribe k lastStatus =>
    obtain ⟨rfl, rfl⟩ : k = j ∧ sent = [] := hs
    have hopen : Opened k (.status k lastStatus :: (m.logHub.get k).lines.map (.log k)) := by
      refine ⟨lastStatus, _, rfl, fun ev hev => ?_⟩
      obtain ⟨line, -, rfl⟩ := List.mem_map.mp hev
      rfl
    refine Handler.streams_sendAll (.status k lastStatus :: _) ?_ ?_
    · cases ht : (m.logHub.get k).terminal with
      | none => simp
      | some ev => exact fun _ => by simpa using hopen.close (hres ev ht)
    · cases ht : (m.logHub.get k).terminal with
      | none => exact fun _ => by simpa using hopen
      | some ev => simp
  | @sent k ev evs next =>
    obtain ⟨rfl, hd, ho⟩ := hs.sendEvent
    simp only [watchedBy, List.filterMap_cons, if_true, List.filterMap_nil]
    refine Handler.streams_sendAll evs (fun he => ?_) fun hne => ?_
    · simpa using hd he
    · simpa using ho hne
  | @sendError k ev evs next hstop =>
    obtain ⟨rfl, hd, ho⟩ := hs.sendEvent
    refine ⟨rfl, .inr ⟨.inr hstop, ?_⟩⟩
    rw [watchedBy_nil, List.append_nil]
    by_cases hk : next = .done
    · exact (hd hk).front
    · exact (ho hk).front
  | pollTerminal | pollSame | waitTick => exact hsame hs
  | pollStatus =>
    refine hsame ⟨hs.1, hs.2.append ?_⟩
    simp [JobEvent.isResult]
  | waitDone hstop =>
    refine ⟨hs.1, .inr ⟨.inr hstop, .inr ?_⟩⟩
    simpa using hs.2
  | @waitEvent k lastStatus ev | @drainEvent k _ ev =>
    obtain ⟨rfl, hopen⟩ := id hs
    refine hsame (Handler.streams_sendAll [ev] ?_ ?_)
    · cases hev : ev.isResult with
      | true => exact fun _ => hopen.close hev
      | false => simp
    · cases hev : ev.isResult with
      | true => simp
      | false => exact fun _ => hopen.append (by simpa using hev)
  | drained => exact hsame ⟨hs.1, hs.2.close rfl⟩
  | unsubscribe =>
    have hidle : Handler.idle.Streams j stopped refused sent := hs.2.imp_right .inl
    exact hsame hidle
  | _ => exact hs.elim

/-- A call that has its first read before it has made no step, and one that is turned down knows
why. -/
def Handler.Loads (turned : Status → Prop) (fresh : Prop) : Handler → Prop
  | .loadWatch _ => fresh
  | .refuse st => turned st
  | _ => True

theorem Handler.loads_sendAll {turned : Status → Prop} {fresh : Prop} (evs : List JobEvent)
    (k : WatchNext) : (sendAll j evs k).Loads turned fresh := by
  cases evs with
  | nil => cases k <;> trivial
  | cons => trivial

theorem TurnsDown.append {bs : List Action} {st : Status} (h : TurnsDown s call j bs st)
    (cs : List Action) : TurnsDown s call j (bs ++ cs) st := by
  cases h with
  | noID hj => exact .noID hj
  | notFound hget => exact .notFound hget
  | loadFailed hfirst hf => exact .loadFailed (by rw [List.findSome?_append, hfirst]; rfl) hf

theorem Handler.Loads.step {bs : List Action}
    (hl : h.Loads (TurnsDown s call j bs) (bs.findSome? (Action.choice call) = none))
    (hs : h.Streams j stopped refused sent) (hm : Handler.Moves m ch call h m' h' es)
    (hmissing : m.store.getJob j = none → s.mem.store.getJob j = none) :
    h'.Loads (TurnsDown s call j (bs ++ [.call call ch]))
      ((bs ++ [Action.call call ch]).findSome? (Action.choice call) = none) := by
  cases hm with
  | aloof ha _ _ hes hend =>
    cases h <;> first | exact hs.elim | simp [Handler.aloof] at ha; done | simp [Handler.ending] at hend
  | @loadFailed k msg hf =>
    have hfresh : bs.findSome? (Action.choice call) = none := hl
    exact .loadFailed (by simp [List.findSome?_append, hfresh, Action.choice]) hf
  | @loadMissing k hget =>
    obtain ⟨rfl, -⟩ : k = j ∧ _ := hs
    exact .notFound (hmissing hget)
  | @sent k => exact Handler.loads_sendAll ..
  | reportError | notify | recvSkip | recvChunk => exact hs.elim
  | _ => trivial

theorem Handler.Loads.other {bs : List Action}
    (hl : h.Loads (TurnsDown s call j bs) (bs.findSome? (Action.choice call) = none))
    (hne : ∀ ch, a ≠ .call call ch) :
    h.Loads (TurnsDown s call j (bs ++ [a])) ((bs ++ [a]).findSome? (Action.choice call) = none) := by
  cases h with
  | loadWatch k =>
    have hnot : a.choice call = none := by
      cases a with
      | call c ch =>
        have hc : c ≠ call := by
          rintro rfl
          exact hne ch rfl
        simp [Action.choice, hc]
      | _ => rfl
    have hfresh : bs.findSome? (Action.choice call) = none := hl
    simp [Handler.Loads, List.findSome?_append, hfresh, hnot]
  | refuse st => exact TurnsDown.append hl _
  | _ => trivial

end Stream

theorem missing_of_run {ok : State → Action → Prop} {as : List Action} (hi : Inv s)
    (h : (machine cfg).Run ok s as es t) (hnone : t.mem.store.getJob j = none) :
    s.mem.store.getJob j = none := by
  cases hget : s.mem.store.getJob j with
  | none => rfl
  | some r =>
    obtain ⟨r', hr', -⟩ := (hi.kept_of_run h).2 j r hget
    simp [BoltStore.getJob, hr'] at hnone

theorem exists_buffered {as : List Action}
    (h : (machine cfg).Run Lib.Machine.Always init as es s) :
    Inv s ∧ Finishing s ∧ ∃ x, Buffered x s := by
  obtain ⟨x, hx⟩ := Lib.Machine.Run.record (f := Lines.observe) (y := (init, {})) h
  obtain ⟨hi, hf, hb⟩ := buffered_of_run hx
  exact ⟨hi, hf, x, hb⟩

theorem terminal_isResult_of_run {as : List Action}
    (h : (machine cfg).Run Lib.Machine.Always init as es s) {ev : JobEvent}
    (hev : (s.mem.logHub.get j).terminal = some ev) : ev.isResult = true := by
  obtain ⟨-, -, x, hb⟩ := exists_buffered h
  exact hb.result j ev hev

theorem streams_of_run {as bs : List Action} {e fs : List Event} {u : State}
    (hs : (machine cfg).Run Lib.Machine.Always init as es s)
    (hst : (machine cfg).step s (.watchJob call j) = some (t, e))
    (hrun : (machine cfg).Run (undisturbed call) t bs fs u) :
    (u.calls call).Streams j (∃ ch, .call call ch ∈ bs ∧ ch.stop = true)
      (∃ st, .refused call st ∈ fs ∧ TurnsDown s call j bs st) (watchedBy call fs) ∧
    (u.calls call).Loads (TurnsDown s call j bs) (bs.findSome? (Action.choice call) = none) := by
  induction hrun with
  | refl =>
    obtain ⟨-, -, rfl, -⟩ := accept_some hst
    rw [setCall_calls, if_pos rfl]
    unfold Handler.watchJob Handler.requireJobID
    split
    · exact ⟨rfl, .noID ‹_›⟩
    · exact ⟨⟨rfl, rfl⟩, rfl⟩
  | @tail bs fs u a v e' hprev hok hstep ih =>
    obtain ⟨hstreams, hloads⟩ := ih
    have hreach := (hs.tail trivial hst).trans (hprev.mono fun _ _ _ => trivial)
    rw [watchedBy_append]
    rcases step_of_call hstep hok with ⟨ch, rfl, hm⟩ | ⟨hne, hcalls, hnone⟩
    · refine ⟨(hstreams.step hm fun ev hev => terminal_isResult_of_run hreach hev).mono ?_ ?_,
        hloads.step hstreams hm ?_⟩
      · rintro (⟨ch', hmem, hstop⟩ | hstop)
        · exact ⟨ch', List.mem_append_left _ hmem, hstop⟩
        · exact ⟨ch, by simp, hstop⟩
      · rintro (⟨st, hmem, hwhy⟩ | ⟨st, hrefuse, hmem⟩)
        · exact ⟨st, List.mem_append_left _ hmem, hwhy.append _⟩
        · -- the reason was settled when the handler came to refuse, a step before
          rw [hrefuse] at hloads
          exact ⟨st, List.mem_append_right _ hmem, TurnsDown.append hloads _⟩
      · have hsince : (machine cfg).Run Lib.Machine.Always s _ _ u :=
          (Lib.Machine.Run.single trivial hst).trans (hprev.mono fun _ _ _ => trivial)
        exact missing_of_run (inv_of_run hs) hsince
    · rw [hcalls, hnone, List.append_nil]
      refine ⟨hstreams.mono ?_ ?_, hloads.other hne⟩
      · exact fun ⟨ch', hmem, hstop⟩ => ⟨ch', List.mem_append_left _ hmem, hstop⟩
      · exact fun ⟨st, hmem, hwhy⟩ => ⟨st, List.mem_append_left _ hmem, hwhy.append _⟩

end Minimodal.Server
