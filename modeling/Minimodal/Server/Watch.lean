import Minimodal.Server.Durable
import Minimodal.Server.Terminal

namespace Minimodal

section Hub

variable {P Q : JobEvent → Prop}

structure JobLogState.Holds (P : JobEvent → Prop) (st : JobLogState) : Prop where
  terminal : ∀ ev, st.terminal = some ev → P ev
  subs : ∀ sub ∈ st.subs, ∀ ev ∈ sub.2.ch, P ev

def LogHub.Holds (P : JobEvent → Prop) (h : LogHub) : Prop :=
  ∀ (j : String) st, h.jobs[j]? = some st → st.Holds P

theorem LogSub.mem_send {sub : LogSub} {ev e : JobEvent} (h : e ∈ (sub.send ev).ch) :
    e ∈ sub.ch ∨ e = ev := by
  unfold send at h
  split at h
  · simpa using h
  · exact .inl h

namespace JobLogState.Holds

theorem mono (hPQ : ∀ ev, P ev → Q ev) {st : JobLogState} (h : st.Holds P) : st.Holds Q :=
  ⟨fun ev hev => hPQ ev (h.terminal ev hev), fun sub hsub ev hev => hPQ ev (h.subs sub hsub ev hev)⟩

theorem empty : ({} : JobLogState).Holds P := ⟨by simp, by simp⟩

theorem fanOut {st : JobLogState} (h : st.Holds P) {ev : JobEvent} (hev : P ev) :
    (st.fanOut ev).Holds P := by
  refine ⟨h.terminal, ?_⟩
  intro sub hsub e he
  obtain ⟨sub, hsub', rfl⟩ := List.mem_map.mp hsub
  rcases LogSub.mem_send he with he | rfl
  · exact h.subs sub hsub' e he
  · exact hev

theorem appendLine {st : JobLogState} (h : st.Holds P) (hlog : ∀ j line, P (.log j line))
    (maxLines : Nat) (j : String) (line : LogLine) :
    (LogHub.appendLine maxLines j st line).Holds P := by
  unfold LogHub.appendLine
  refine fanOut ?_ (hlog _ _)
  split
  · exact ⟨h.terminal, h.subs⟩
  · exact ⟨h.terminal, h.subs⟩

theorem appendLines {st : JobLogState} (h : st.Holds P) (hlog : ∀ j line, P (.log j line))
    (maxLines : Nat) (j : String) (lines : List LogLine) :
    (lines.foldl (LogHub.appendLine maxLines j) st).Holds P := by
  induction lines generalizing st with
  | nil => exact h
  | cons line lines ih => exact ih (h.appendLine hlog maxLines j line)

end JobLogState.Holds

namespace LogHub.Holds

variable {h : LogHub} {j : String} {st : JobLogState}

theorem mono (hPQ : ∀ ev, P ev → Q ev) (hh : h.Holds P) : h.Holds Q :=
  fun j st hst => (hh j st hst).mono hPQ

theorem new : LogHub.new.Holds P := by
  intro j st hst
  simp [LogHub.new] at hst

theorem get (hh : h.Holds P) (j : String) : (h.get j).Holds P := by
  unfold LogHub.get
  rw [Std.ExtTreeMap.getD_eq_getD_getElem?]
  cases hst : h.jobs[j]? with
  | none => exact .empty
  | some st => exact hh j st hst

theorem insert (hh : h.Holds P) (hst : st.Holds P) :
    LogHub.Holds P { h with jobs := h.jobs.insert j st } := by
  intro k st' hk
  simp only [Std.ExtTreeMap.getElem?_insert] at hk
  split at hk
  · simp only [Option.some.injEq] at hk
    exact hk ▸ hst
  · exact hh k st' hk

theorem erase (hh : h.Holds P) : LogHub.Holds P { h with jobs := h.jobs.erase j } := by
  intro k st' hk
  simp only [Std.ExtTreeMap.getElem?_erase] at hk
  split at hk
  · simp at hk
  · exact hh k st' hk

theorem append (hh : h.Holds P) (hlog : ∀ j line, P (.log j line)) (lines : List LogLine) :
    (h.append j lines).Holds P := by
  unfold LogHub.append
  split
  · exact hh
  · simp only
    split
    · exact hh.insert (hh.get j)
    · exact hh.insert ((hh.get j).appendLines hlog _ _ _)

theorem subscribe (hh : h.Holds P) (hlog : ∀ j line, P (.log j line)) (sub : Nat) :
    (h.subscribe j sub).1.Holds P ∧
      ∀ ev ∈ (h.subscribe j sub).2.1 ++ (h.subscribe j sub).2.2.toList, P ev := by
  have hst := hh.get j
  refine ⟨hh.insert ⟨hst.terminal, ?_⟩, ?_⟩
  · intro x hx
    rcases List.mem_cons.mp hx with rfl | hx
    · simp
    · exact hst.subs x hx
  · intro ev hev
    simp only [LogHub.subscribe, List.mem_append, List.mem_map, Option.mem_toList] at hev
    rcases hev with ⟨line, -, rfl⟩ | hev
    · exact hlog j line
    · exact hst.terminal ev hev

theorem unsubscribe (hh : h.Holds P) (sub : Nat) : (h.unsubscribe j sub).Holds P := by
  unfold LogHub.unsubscribe
  split
  · exact hh
  · rename_i st hst
    have hfilter : JobLogState.Holds P { st with subs := st.subs.filter fun x => x.1 != sub } :=
      ⟨(hh j st hst).terminal, fun x hx => (hh j st hst).subs x (List.mem_of_mem_filter hx)⟩
    simp only
    split
    · exact hh.erase
    · exact hh.insert hfilter

theorem receive (hh : h.Holds P) (sub : Nat) :
    (h.receive j sub).1.Holds P ∧ ∀ ev, (h.receive j sub).2 = some ev → P ev := by
  have hst := hh.get j
  unfold LogHub.receive
  simp only
  split
  · rename_i ev rest dropped hlook
    obtain ⟨l, l', hsubs, -⟩ := List.lookup_eq_some_iff.mp hlook
    have hmem : (sub, ⟨ev :: rest, dropped⟩) ∈ (h.get j).subs := by simp [hsubs]
    refine ⟨hh.insert ⟨hst.terminal, ?_⟩, ?_⟩
    · intro x hx e he
      obtain ⟨y, hy, rfl⟩ := List.mem_map.mp hx
      split at he
      · exact hst.subs _ hmem e (List.mem_cons_of_mem _ he)
      · exact hst.subs y hy e he
    · intro e he
      simp only [Option.some.injEq] at he
      exact hst.subs _ hmem e (by simp [he])
  · exact ⟨hh, by simp⟩

theorem finish (hh : h.Holds P) {result : JobEvent} (hres : P result) :
    (h.finish j result).Holds P := by
  unfold LogHub.finish
  split
  · exact hh
  · rename_i st hst
    split
    · exact hh
    · have hdone : JobLogState.Holds P { st with terminal := some result } := by
        refine ⟨?_, (hh j st hst).subs⟩
        intro ev hev
        simp only [Option.some.injEq] at hev
        exact hev ▸ hres
      simp only
      split
      · exact hh.erase
      · exact hh.insert (hdone.fanOut hres)

end LogHub.Holds

end Hub

namespace Server

def Event.Holds (P : JobEvent → Prop) : Event → Prop
  | .watched _ ev => P ev
  | _ => True

def Op.Holds (P : JobEvent → Prop) : Op → Prop
  | .finish _ ev | .sendEvent _ ev => P ev
  | .reply ev => ev.Holds P
  | _ => True

def Op.Gives (P : JobEvent → Prop) : (op : Op) → op.Res → Prop
  | .getJob _, .ok (some rec) => rec.terminal = true → P (jobResultEvent rec)
  | .subscribe _ _, (replay, terminal) => ∀ ev ∈ replay ++ terminal.toList, P ev
  | .mailbox _ _, some ev => P ev
  | .awaitEvent _ _, .event ev => P ev
  | _, _ => True

/-- Every event has the property but, maybe, results that no stored record backs. -/
structure Admits (P : JobEvent → Prop) (s : BoltStore) : Prop where
  status : ∀ j st, P (.status j st)
  log : ∀ j line, P (.log j line)
  stored : ∀ j r, s.jobs.get j = some r → r.terminal = true → P (jobResultEvent r)

variable {cfg : Config} {P Q : JobEvent → Prop} {m m' : Mem} {ch : Choice} {op : Op} {r : op.Res}
  {es : List Event} {call : Nat}

theorem perform_holds (hP : Admits P m.store) (hhub : m.logHub.Holds P) (hop : op.Holds P)
    (h : perform cfg m ch op = some (m', r, es)) :
    m'.logHub.Holds P ∧ op.Gives P r ∧ ∀ ev ∈ es, ev.Holds P := by
  cases performs_of_perform h with
  | @getJob id =>
    refine ⟨hhub, ?_, by simp⟩
    unfold view
    split
    · trivial
    · cases hget : m.store.getJob id with
      | none => trivial
      | some rec => exact hP.stored id rec hget
  | @append _ lines => exact ⟨hhub.append hP.log lines, trivial, by simp⟩
  | finish => exact ⟨hhub.finish hop, trivial, by simp⟩
  | @subscribe jobID sub =>
    obtain ⟨hsub, hevs⟩ := hhub.subscribe (j := jobID) hP.log sub
    exact ⟨hsub, hevs, by simp⟩
  | @unsubscribe _ sub => exact ⟨hhub.unsubscribe sub, trivial, by simp⟩
  | @mailbox jobID sub =>
    obtain ⟨hrecv, hev⟩ := hhub.receive (j := jobID) sub
    refine ⟨hrecv, ?_, by simp⟩
    cases he : (m.logHub.receive jobID sub).2 with
    | none => trivial
    | some ev => exact hev ev he
  | @awaitEvent jobID sub logHub ev _ _ he =>
    obtain ⟨hrecv, hev⟩ := hhub.receive (j := jobID) sub
    rw [he] at hrecv hev
    exact ⟨hrecv, hev ev rfl, by simp⟩
  | sendEvent | reply => exact ⟨hhub, trivial, List.forall_mem_singleton.mpr hop⟩
  | _ => exact ⟨hhub, trivial, by simp [Event.Holds]⟩

def NotifyPc.events : NotifyPc → List JobEvent
  | .load => []
  | .finish rec => [jobResultEvent rec]

def WatchNext.events : WatchNext → List JobEvent
  | .drain rec => [jobResultEvent rec]
  | _ => []

def Handler.events : Handler → List JobEvent
  | .notify _ pc => pc.events
  | .sendEvent _ ev evs k => ev :: evs ++ k.events
  | .drain _ rec => [jobResultEvent rec]
  | _ => []

def Drainer.events : Drainer → List JobEvent
  | .notify _ _ pc => pc.events
  | _ => []

def Detector.events : Detector → List JobEvent
  | .notify _ _ pc _ _ => pc.events
  | _ => []

theorem forall_mem_of_eq_nil {l : List JobEvent} (h : l = []) : ∀ ev ∈ l, P ev := by
  simp [h]

theorem holds_of_silent {Pc : Type} {events : Pc → List JobEvent} {stmt : Code Pc}
    (hop : stmt.op.Holds P) (hnext : ∀ r, events (stmt.next r) = []) :
    stmt.op.Holds P ∧ ∀ r, stmt.op.Gives P r → ∀ ev ∈ events (stmt.next r), P ev :=
  ⟨hop, fun r _ => forall_mem_of_eq_nil (hnext r)⟩

theorem Handler.sendAll_events (jobID : String) (evs : List JobEvent) (k : WatchNext) :
    (sendAll jobID evs k).events = evs ++ k.events := by
  cases evs with
  | nil => cases k <;> rfl
  | cons ev evs => rfl

theorem NotifyPc.holds {Pc : Type} (events : Pc → List JobEvent) {at_ : NotifyPc → Pc} {ret : Pc}
    (hat : ∀ pc, events (at_ pc) = pc.events) (hret : events ret = []) {pc : NotifyPc}
    (hpc : ∀ ev ∈ pc.events, P ev) (jobID : String) :
    (pc.code jobID at_ ret).op.Holds P ∧ ∀ r, (pc.code jobID at_ ret).op.Gives P r →
      ∀ ev ∈ events ((pc.code jobID at_ ret).next r), P ev := by
  cases pc with
  | load =>
    refine ⟨trivial, ?_⟩
    rintro (e | _ | rec) hr
    · simp [NotifyPc.code, hret]
    · simp [NotifyPc.code, hret]
    · simp only [NotifyPc.code]
      split
      · rename_i ht
        simpa [hat, NotifyPc.events] using hr ht
      · simp [hret]
  | finish rec =>
    refine ⟨hpc _ (by simp [NotifyPc.events]), ?_⟩
    intro r hr
    simp [NotifyPc.code, hret]

theorem Handler.holds {h : Handler} {stmt : Code Handler} (hst : ∀ j st, P (.status j st))
    (hh : ∀ ev ∈ h.events, P ev) (hcode : Handler.code call h = some stmt) :
    stmt.op.Holds P ∧ ∀ r, stmt.op.Gives P r → ∀ ev ∈ (stmt.next r).events, P ev := by
  cases h with
  | idle => simp [code] at hcode
  | notify req pc =>
    simp only [code, Option.some.injEq] at hcode
    subst hcode
    exact NotifyPc.holds events (fun _ => rfl) rfl hh req.jobID
  | enqueue req jobID pc =>
    simp only [code, Option.some.injEq] at hcode
    subst hcode
    refine holds_of_silent ?_ (EnqueuePc.next_ind (fun _ => rfl) rfl pc)
    cases pc <;> trivial
  | count req =>
    simp only [code] at hcode
    split at hcode <;>
    · simp only [Option.some.injEq] at hcode
      subst hcode
      exact ⟨trivial, fun r _ => by simp [events]⟩
  | subscribe jobID lastStatus =>
    simp only [code, Option.some.injEq] at hcode
    subst hcode
    refine ⟨trivial, fun r hr ev hev => ?_⟩
    have hk : (if r.2.isSome then WatchNext.done else .poll lastStatus).events = [] := by
      split <;> rfl
    rw [sendAll_events, hk, List.append_nil] at hev
    rcases List.mem_cons.mp hev with rfl | hev
    · exact hst _ _
    · exact hr ev hev
  | sendEvent jobID ev evs k =>
    simp only [code, Option.some.injEq] at hcode
    subst hcode
    refine ⟨hh ev (by simp [events]), fun r _ e he => ?_⟩
    simp only at he
    split at he
    · rw [sendAll_events] at he
      exact hh e (List.mem_cons_of_mem _ he)
    · simp [events] at he
  | poll jobID lastStatus =>
    simp only [code, Option.some.injEq] at hcode
    subst hcode
    refine ⟨trivial, ?_⟩
    rintro (e | _ | rec) hr
    · simp [events]
    · simp [events]
    · simp only
      split
      · rename_i ht
        simpa [events] using hr ht
      · split
        · simpa [sendAll_events, WatchNext.events] using hst jobID rec.status
        · simp [events]
  | wait jobID lastStatus =>
    simp only [code, Option.some.injEq] at hcode
    subst hcode
    refine ⟨trivial, ?_⟩
    rintro (_ | ev | _) hr
    · simp [events]
    · have hk : (if ev.isResult then WatchNext.done else .poll lastStatus).events = [] := by
        split <;> rfl
      rw [sendAll_events, hk, List.append_nil]
      exact List.forall_mem_singleton.mpr hr
    · simp [events]
  | drain jobID rec =>
    simp only [code, Option.some.injEq] at hcode
    subst hcode
    have hrec : P (jobResultEvent rec) := hh _ (by simp [events])
    refine ⟨trivial, ?_⟩
    rintro (_ | ev) hr e he
    · simp only [sendAll_events, WatchNext.events, List.append_nil, List.mem_singleton] at he
      exact he ▸ hrec
    · simp only [sendAll_events, List.mem_append, List.mem_singleton] at he
      rcases he with rfl | he
      · exact hr
      · split at he
        · simp [WatchNext.events] at he
        · rw [List.mem_singleton.mp he]
          exact hrec
  | _ =>
    simp only [code, Option.some.injEq] at hcode
    subst hcode
    refine holds_of_silent trivial fun r => ?_
    simp only
    repeat' split
    all_goals rfl

theorem Drainer.return_events (a : Attempt) : (return_ a).events = [] :=
  return_ind a rfl rfl

theorem Drainer.retry_events (a : Attempt) : (retry cfg a).events = [] :=
  retry_ind a rfl rfl

theorem Drainer.dispatched_events (a : Attempt) (r : Except Err Unit) :
    (dispatched cfg a r).events = [] :=
  dispatched_ind a r (return_events a) (retry_events a) rfl fun _ => rfl

theorem Detector.next_events (workerID : String) (jobs : List JobRecord) (dead : List String) :
    (next workerID jobs dead).events = [] :=
  next_ind workerID jobs dead rfl fun _ _ => rfl

theorem Drainer.holds {d : Drainer} {stmt : Code Drainer} (hd : ∀ ev ∈ d.events, P ev)
    (hcode : Drainer.code cfg d = some stmt) :
    stmt.op.Holds P ∧ ∀ r, stmt.op.Gives P r → ∀ ev ∈ (stmt.next r).events, P ev := by
  cases d with
  | notify a exhausted pc =>
    simp only [code, Option.some.injEq] at hcode
    subst hcode
    refine NotifyPc.holds events (fun _ => rfl) ?_ hd a.jobID
    split
    · rfl
    · exact return_events a
  | dispatch a pc =>
    simp only [code, Option.some.injEq] at hcode
    subst hcode
    refine holds_of_silent ?_ (DispatchPc.next_ind (fun _ => rfl) (dispatched_events a) pc)
    cases pc <;> trivial
  | stopped => simp [code] at hcode
  | _ =>
    simp only [code, Option.some.injEq] at hcode
    subst hcode
    refine holds_of_silent trivial fun r => ?_
    simp only
    repeat' split
    all_goals
      first
        | exact return_events _
        | exact retry_events _
        | rfl

theorem Detector.holds {d : Detector} {stmt : Code Detector} (hd : ∀ ev ∈ d.events, P ev)
    (hcode : Detector.code cfg d = some stmt) :
    stmt.op.Holds P ∧ ∀ r, stmt.op.Gives P r → ∀ ev ∈ (stmt.next r).events, P ev := by
  cases d with
  | notify workerID jobID pc jobs dead =>
    simp only [code, Option.some.injEq] at hcode
    subst hcode
    exact NotifyPc.holds events (fun _ => rfl) (next_events _ _ _) hd jobID
  | enqueue workerID jobID pc jobs dead =>
    simp only [code, Option.some.injEq] at hcode
    subst hcode
    refine holds_of_silent ?_ (EnqueuePc.next_ind (fun _ => rfl) (next_events _ _ _) pc)
    cases pc <;> trivial
  | owed dead =>
    cases dead <;>
    · simp only [code, Option.some.injEq] at hcode
      subst hcode
      refine holds_of_silent trivial fun r => ?_
      simp only
      repeat' split
      all_goals
        first
          | exact next_events _ _ _
          | rfl
  | reassign workerID job jobs dead =>
    simp only [code, Option.some.injEq] at hcode
    subst hcode
    refine holds_of_silent trivial fun r => ?_
    simp only
    repeat' split
    all_goals
      first
        | exact next_events _ _ _
        | rfl
  | stopped => simp [code] at hcode

theorem Main.holds {pc : Main} {stmt : Code Main} (hcode : Main.code pc = some stmt) :
    stmt.op.Holds P := by
  cases pc with
  | enqueue jobID pc jobs =>
    simp only [code, Option.some.injEq] at hcode
    subst hcode
    cases pc <;> trivial
  | down | serving => simp [code] at hcode
  | _ =>
    simp only [code, Option.some.injEq] at hcode
    subst hcode
    trivial

structure Announces (P : JobEvent → Prop) (s : State) : Prop where
  hub : s.mem.logHub.Holds P
  drainer : ∀ ev ∈ s.drainer.events, P ev
  detector : ∀ ev ∈ s.detector.events, P ev
  calls : ∀ c, ∀ ev ∈ (s.calls c).events, P ev

namespace Announces

variable {s t : State} {a : Action}

theorem mono (hPQ : ∀ ev, P ev → Q ev) (h : Announces P s) : Announces Q s where
  hub := h.hub.mono hPQ
  drainer ev hev := hPQ ev (h.drainer ev hev)
  detector ev hev := hPQ ev (h.detector ev hev)
  calls c ev hev := hPQ ev (h.calls c ev hev)

theorem lose (s : State) : Announces P s.lose where
  hub := .new
  drainer := by simp [State.lose, Drainer.events]
  detector := by simp [State.lose, Detector.events]
  calls := by simp [State.lose, Handler.events]

theorem setCall (h : Announces P s) {call : Nat} {hd : Handler} (hev : ∀ ev ∈ hd.events, P ev) :
    Announces P (s.setCall call hd) where
  hub := h.hub
  drainer := h.drainer
  detector := h.detector
  calls c := by
    rw [setCall_calls]
    split
    · exact hev
    · exact h.calls c

theorem step (hP : Admits P s.mem.store) (h : Announces P s) (hst : Stepped cfg s a t es) :
    Announces P t ∧ ∀ ev ∈ es, ev.Holds P := by
  cases hst with
  | start _ =>
    have hl := lose (P := P) s
    exact ⟨⟨hl.hub, hl.drainer, hl.detector, hl.calls⟩, by simp⟩
  | crash => exact ⟨lose s, by simp [Event.Holds]⟩
  | beginShutdown _ | cancel _ | close _ | registerWorker _ | heartbeat _ =>
    exact ⟨⟨h.hub, h.drainer, h.detector, h.calls⟩, by simp [Event.Holds]⟩
  | main hcode hp =>
    obtain ⟨hhub, -, hes⟩ := perform_holds hP h.hub (Main.holds hcode) hp
    exact ⟨⟨hhub, h.drainer, h.detector, h.calls⟩, hes⟩
  | drainer _ hcode hp =>
    obtain ⟨hop, hnext⟩ := Drainer.holds h.drainer hcode
    obtain ⟨hhub, hr, hes⟩ := perform_holds hP h.hub hop hp
    exact ⟨⟨hhub, hnext _ hr, h.detector, h.calls⟩, hes⟩
  | detector _ hcode hp =>
    obtain ⟨hop, hnext⟩ := Detector.holds h.detector hcode
    obtain ⟨hhub, hr, hes⟩ := perform_holds hP h.hub hop hp
    exact ⟨⟨hhub, h.drainer, hnext _ hr, h.calls⟩, hes⟩
  | @call c ch stmt mem r es hcode hp =>
    obtain ⟨hop, hnext⟩ := Handler.holds hP.status (h.calls c) hcode
    obtain ⟨hhub, hr, hes⟩ := perform_holds hP h.hub hop hp
    have hmem : Announces P { s with mem } := ⟨hhub, h.drainer, h.detector, h.calls⟩
    exact ⟨hmem.setCall (hnext _ hr), hes⟩
  | @invokeFunction call req uuid now _ _ _ =>
    have hmem : Announces P { s with uuids := uuid :: s.uuids } :=
      ⟨h.hub, h.drainer, h.detector, h.calls⟩
    refine ⟨hmem.setCall ?_, by simp⟩
    unfold Handler.invokeFunction
    simp only
    repeat' split
    all_goals exact forall_mem_of_eq_nil rfl
  | @accept _ _ hd _ _ hh =>
    refine ⟨h.setCall ?_, by simp⟩
    cases hd <;>
      first
        | exact hh.elim
        | exact forall_mem_of_eq_nil rfl

end Announces

def Settled (s : BoltStore) : JobEvent → Prop
  | .result j res =>
    ∃ r, s.jobs.get j = some r ∧ r.terminal = true ∧ jobResultEvent r = .result j res
  | _ => True

theorem jobResultEvent_evolves {r r' : JobRecord} (h : Evolves r r') (hr : r.terminal = true) :
    jobResultEvent r' = jobResultEvent r := by
  rw [← h.frozen hr]
  rfl

theorem Settled.kept {s s' : BoltStore} (h : Kept s s') {ev : JobEvent} (hev : Settled s ev) :
    Settled s' ev := by
  cases ev with
  | result j res =>
    obtain ⟨r, hget, hr, hev⟩ := hev
    obtain ⟨r', hget', he⟩ := h j r hget
    exact ⟨r', hget', he.terminal hr, (jobResultEvent_evolves he hr).trans hev⟩
  | _ => trivial

theorem admits_settled {s : BoltStore} (hs : s.Sound) : Admits (Settled s) s where
  status _ _ := trivial
  log _ _ := trivial
  stored j r hget hr := by
    have hid := (hs j r hget).keyed
    exact ⟨r, hid ▸ hget, hr, rfl⟩

theorem announced_of_run {as : List Action} {s : State}
    (h : (machine cfg).Run Lib.Machine.Always init as es s) :
    Inv s ∧ Announces (Settled s.mem.store) s ∧ ∀ ev ∈ es, ev.Holds (Settled s.mem.store) := by
  refine h.invariant_trace (P := fun es s => Inv s ∧ Announces (Settled s.mem.store) s ∧
    ∀ ev ∈ es, ev.Holds (Settled s.mem.store)) ⟨.init, Announces.lose init, by simp⟩ ?_
  rintro es s a t e ⟨hi, hann, hes⟩ - hst
  have hst := stepped_of_step hst
  obtain ⟨hi', hkept⟩ := hi.step hst
  obtain ⟨hann', he⟩ := hann.step (admits_settled hi.sound) hst
  have hmono : ∀ ev, Settled s.mem.store ev → Settled t.mem.store ev := fun _ => .kept hkept
  have hlift : ∀ ev : Event, ev.Holds (Settled s.mem.store) → ev.Holds (Settled t.mem.store) := by
    intro ev hev
    cases ev with
    | watched c ev => exact hmono ev hev
    | _ => trivial
  refine ⟨hi', hann'.mono hmono, fun ev hev => ?_⟩
  rcases List.mem_append.mp hev with hev | hev
  · exact hlift ev (hes ev hev)
  · exact hlift ev (he ev hev)

/-- All watchers of a job are told the same outcome, that of the stored record, whichever way
it reached them. -/
theorem watchers_agree (cfg : Config) {as : List Action} {es : List Event} {s : State}
    (h : (machine cfg).Run Lib.Machine.Always init as es s) {c c' : Nat} {j : String}
    {res res' : JobResult} (hc : .watched c (.result j res) ∈ es)
    (hc' : .watched c' (.result j res') ∈ es) :
    res = res' ∧ ∃ r, s.mem.store.getJob j = some r ∧ (r.status = .done ∨ r.status = .failed) ∧
      jobResultEvent r = .result j res := by
  obtain ⟨-, -, hes⟩ := announced_of_run h
  obtain ⟨r, hget, hr, hev⟩ := hes _ hc
  obtain ⟨r', hget', -, hev'⟩ := hes _ hc'
  rw [hget, Option.some.injEq] at hget'
  subst hget'
  have he : JobEvent.result j res = .result j res' := hev.symm.trans hev'
  simp only [JobEvent.result.injEq, true_and] at he
  exact ⟨he, r, hget, r.terminal_iff.mp hr, hev⟩

def sampleWatched : State × List Event :=
  ((machine sampleConfig).exec (fun _ _ => true) init
    (sampleSubmit ++ sampleDispatch ++
      Action.watchJob 2 "j" :: List.replicate 4 (Action.call 2 {}) ++
      sampleReport 1 4 { jobID := "j", workerID := "w", success := true, resultBytes := [7] } ++
      List.replicate 3 (Action.call 2 {}) ++ ([.crash, .start, .main {}] : List Action) ++
      Action.watchJob 3 "j" :: List.replicate 7 (Action.call 3 {}))).get (by decide)

def sampleResult : JobResult where
  status := .done
  resultBytes := [7]
  error := ""
  coldStartMs := 0
  totalDurationMs := 0
  retryCount := 0
  workerID := "w"

theorem watchers_agree_sample :
    Event.watched 2 (.result "j" sampleResult) ∈ sampleWatched.2 ∧
      Event.watched 3 (.result "j" sampleResult) ∈ sampleWatched.2 ∧
      ∃ r, sampleWatched.1.mem.store.getJob "j" = some r ∧
        (r.status = .done ∨ r.status = .failed) ∧ jobResultEvent r = .result "j" sampleResult :=
  have h2 : Event.watched 2 (.result "j" sampleResult) ∈ sampleWatched.2 := by decide
  have h3 : Event.watched 3 (.result "j" sampleResult) ∈ sampleWatched.2 := by decide
  ⟨h2, h3, (watchers_agree sampleConfig
    ((Lib.Machine.run_of_exec_get (by decide)).mono fun _ _ _ => trivial) h2 h3).2⟩

end Server

end Minimodal
