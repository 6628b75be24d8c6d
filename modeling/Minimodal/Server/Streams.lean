import Minimodal.Server.Watch

namespace Minimodal

namespace JobLogState

def take (maxLines : Nat) (jobID : String) (lines : List LogLine) (st : JobLogState) :
    JobLogState :=
  if st.terminal.isSome then st else lines.foldl (LogHub.appendLine maxLines jobID) st

def attach (sub : Nat) (st : JobLogState) : JobLogState :=
  { st with subs := (sub, {}) :: st.subs }

def detach (sub : Nat) (st : JobLogState) : Option JobLogState :=
  let st := { st with subs := st.subs.filter fun x => x.1 != sub }
  if st.terminal.isSome && st.subs.isEmpty then none else some st

def close (result : JobEvent) (st : JobLogState) : Option JobLogState :=
  if st.terminal.isSome then some st
  else
    let st := { st with terminal := some result }.fanOut result
    if st.subs.isEmpty then none else some st

def advance (sub : Nat) (st : JobLogState) : JobLogState :=
  match st.subs.lookup sub with
  | some { ch := _ :: rest, dropped } =>
    { st with subs := st.subs.map fun x => if x.1 = sub then (sub, { ch := rest, dropped }) else x }
  | _ => st

end JobLogState

namespace LogHub

variable (h : LogHub) (j k : String) (sub : Nat)

theorem get_eq : h.get j = h.jobs[j]?.getD {} := Std.ExtTreeMap.getD_eq_getD_getElem?

theorem jobs_append (lines : List LogLine) :
    (h.append j lines).jobs[k]? =
      if j = k ∧ lines ≠ [] then some ((h.get k).take h.maxLines j lines) else h.jobs[k]? := by
  unfold append JobLogState.take
  cases lines with
  | nil => simp
  | cons line lines =>
    by_cases hjk : j = k
    · subst hjk
      cases ht : (h.get j).terminal.isSome <;> simp [ht]
    · cases ht : (h.get j).terminal.isSome <;> simp [ht, hjk, Std.ExtTreeMap.getElem?_insert]

theorem jobs_subscribe :
    (h.subscribe j sub).1.jobs[k]? =
      if j = k then some ((h.get k).attach sub) else h.jobs[k]? := by
  by_cases hjk : j = k
  · subst hjk
    simp [subscribe, JobLogState.attach]
  · simp [subscribe, hjk, Std.ExtTreeMap.getElem?_insert]

theorem jobs_unsubscribe :
    (h.unsubscribe j sub).jobs[k]? =
      if j = k then h.jobs[k]?.bind (JobLogState.detach sub) else h.jobs[k]? := by
  unfold unsubscribe JobLogState.detach
  by_cases hjk : j = k
  · subst hjk
    cases hst : h.jobs[j]? with
    | none => simp [hst]
    | some st =>
      simp only [Option.bind_some]
      split <;> simp
  · cases hst : h.jobs[j]? with
    | none => simp [hjk]
    | some st =>
      simp only [if_neg hjk]
      split <;> simp [hjk, Std.ExtTreeMap.getElem?_insert, Std.ExtTreeMap.getElem?_erase]

theorem jobs_finish (result : JobEvent) :
    (h.finish j result).jobs[k]? =
      if j = k then h.jobs[k]?.bind (JobLogState.close result) else h.jobs[k]? := by
  unfold finish JobLogState.close
  by_cases hjk : j = k
  · subst hjk
    cases hst : h.jobs[j]? with
    | none => simp [hst]
    | some st =>
      simp only [Option.bind_some, if_true]
      split
      · exact hst
      · split <;> simp
  · cases hst : h.jobs[j]? with
    | none => simp [hjk]
    | some st =>
      simp only [if_neg hjk]
      split
      · rfl
      · split <;> simp [hjk, Std.ExtTreeMap.getElem?_insert, Std.ExtTreeMap.getElem?_erase]

theorem receive_some {h : LogHub} {j : String} {sub : Nat} {h' : LogHub} {ev : JobEvent}
    (hr : h.receive j sub = (h', some ev)) :
    (∃ rest dropped, (h.get j).subs.lookup sub = some ⟨ev :: rest, dropped⟩) ∧
      ∀ k : String, h'.jobs[k]? =
        if j = k then some ((h.get k).advance sub) else h.jobs[k]? := by
  unfold receive at hr
  simp only at hr
  split at hr
  · rename_i e rest dropped hlook
    simp only [Prod.mk.injEq, Option.some.injEq] at hr
    obtain ⟨rfl, rfl⟩ := hr
    refine ⟨⟨rest, dropped, hlook⟩, fun k => ?_⟩
    by_cases hjk : j = k
    · subst hjk
      simp [JobLogState.advance, hlook]
    · simp [hjk, Std.ExtTreeMap.getElem?_insert]
  · simp at hr

end LogHub

namespace Server

variable {cfg : Config} {m m' : Mem} {ch : Choice} {es : List Event} {call : Nat}

inductive NotifyPc.Moves (m : Mem) (ch : Choice) (jobID : String) :
    NotifyPc → Mem → Option NotifyPc → Prop
  | load {rec} : m.store.jobs.get jobID = some rec → rec.terminal = true →
      Moves m ch jobID .load m (some (.finish rec))
  | skip : (ch.fault = none → ∀ rec, m.store.jobs.get jobID = some rec → rec.terminal = false) →
      Moves m ch jobID .load m none
  | finish {rec} : Moves m ch jobID (.finish rec)
      { m with logHub := m.logHub.finish jobID (jobResultEvent rec) } none

theorem NotifyPc.moves {Pc : Type} {jobID : String} {at_ : NotifyPc → Pc} {ret : Pc}
    {pc : NotifyPc} {r : (pc.code jobID at_ ret).op.Res}
    (h : perform cfg m ch (pc.code jobID at_ ret).op = some (m', r, es)) :
    ∃ next, Moves m ch jobID pc m' next ∧ (pc.code jobID at_ ret).next r = next.elim ret at_ ∧
      es = [] := by
  cases pc with
  | load =>
    rcases r with e | _ | rec
    · obtain ⟨rfl, rfl, msg, hf, -⟩ := getJob_error h rfl
      exact ⟨none, .skip fun hnone => by simp [hnone] at hf, rfl, rfl⟩
    · obtain ⟨rfl, rfl, hget⟩ := getJob_some h rfl
      exact ⟨none, .skip fun _ rec hrec => by simp [hget] at hrec, rfl, rfl⟩
    · obtain ⟨rfl, rfl, hget⟩ := getJob_some h rfl
      cases ht : rec.terminal with
      | true => exact ⟨some (.finish rec), .load hget ht, by simp [code, ht], rfl⟩
      | false =>
        refine ⟨none, .skip fun _ q hq => ?_, by simp [code, ht], rfl⟩
        rw [hget, Option.some.injEq] at hq
        exact hq ▸ ht
  | finish rec =>
    cases performs_of_perform h
    exact ⟨none, .finish, rfl, rfl⟩

def Op.hub : Op → Bool
  | .append _ _ | .finish _ _ | .subscribe _ _ | .unsubscribe _ _ => true
  | .mailbox _ _ | .awaitEvent _ _ | .sendEvent _ _ => true
  | .reply (.watched _ _) => true
  | _ => false

def Event.isWatched : Event → Bool
  | .watched _ _ => true
  | _ => false

theorem perform_hub {op : Op} {r : op.Res} (hop : op.hub = false)
    (h : perform cfg m ch op = some (m', r, es)) :
    m'.logHub = m.logHub ∧ ∀ ev ∈ es, ev.isWatched = false := by
  cases performs_of_perform h with
  | append | finish | subscribe | unsubscribe | mailbox | awaitDone | awaitTick | awaitEvent
  | sendDone | sendEvent => simp [Op.hub] at hop
  | @reply ev => cases ev <;> simp_all [Op.hub, Event.isWatched]
  | _ => exact ⟨rfl, by simp [Event.isWatched]⟩

def Handler.aloof : Handler → Bool
  | .putResult _ | .appendTail _ | .report _ | .notify _ _ => false
  | .recordColdStart _ | .count _ | .acknowledge _ => false
  | .loadWatch _ | .subscribe _ _ | .sendEvent _ _ _ _ | .poll _ _ | .wait _ _ => false
  | .drain _ _ | .unsubscribe _ => false
  | .recvChunk | .loadChunk _ | .appendChunk _ => false
  | _ => true

def Handler.ending : Handler → Bool
  | .idle | .refuse _ => true
  | _ => false

inductive Handler.Moves (m : Mem) (ch : Choice) (call : Nat) :
    Handler → Mem → Handler → List Event → Prop
  | aloof {h m' h' es} : h.aloof = true → h'.aloof = true → m'.logHub = m.logHub →
      (∀ ev ∈ es, ev.isWatched = false) → h.ending = false → Moves m ch call h m' h' es
  | refuse {status} : Moves m ch call (.refuse status) m .idle [.refused call status]
  | putResult {req m'} : m'.logHub = m.logHub → m'.store = m.store →
      Moves m ch call (.putResult req) m' (.appendTail req) []
  | appendTail {req} : Moves m ch call (.appendTail req)
      { m with logHub := m.logHub.append req.jobID req.tailLines } (.report req) []
  | report {req m' c b} : Transits m ch req.jobID (.report req) m' c (.ok b) →
      Moves m ch call (.report req) m' (.notify req .load)
        [.transitioned req.jobID (.report req) (.ok b)]
  | reportError {req m' c e status} : Transits m ch req.jobID (.report req) m' c (.error e) →
      Moves m ch call (.report req) m' (.refuse status)
        [.transitioned req.jobID (.report req) (.error e)]
  | notify {req pc m' next} : NotifyPc.Moves m ch req.jobID pc m' next →
      Moves m ch call (.notify req pc) m' (next.elim (.recordColdStart req) (.notify req)) []
  | recordColdStart {req m'} : m'.logHub = m.logHub → m'.store = m.store →
      Moves m ch call (.recordColdStart req) m' (.count req) []
  | count {req m'} : m'.logHub = m.logHub → m'.store = m.store →
      Moves m ch call (.count req) m' (.acknowledge req) []
  | acknowledge {req} : Moves m ch call (.acknowledge req) m .idle [.acknowledged call req]
  | loadWatch {jobID rec} : m.store.jobs.get jobID = some rec →
      Moves m ch call (.loadWatch jobID) m (.subscribe jobID rec.status) []
  | loadFailed {jobID msg} : ch.fault = some msg → Moves m ch call (.loadWatch jobID) m
      (.refuse (Handler.loadFailed jobID (.error (.errorf msg)))) []
  | loadMissing {jobID} : m.store.jobs.get jobID = none → Moves m ch call (.loadWatch jobID) m
      (.refuse (Handler.loadFailed jobID (.ok none))) []
  | subscribe {jobID lastStatus} : Moves m ch call (.subscribe jobID lastStatus)
      { m with logHub := (m.logHub.subscribe jobID call).1 }
      (.sendEvent jobID (.status jobID lastStatus)
        ((m.logHub.get jobID).lines.map (.log jobID) ++ (m.logHub.get jobID).terminal.toList)
        (if (m.logHub.get jobID).terminal.isSome then .done else .poll lastStatus)) []
  | sent {jobID ev evs k} : ch.stop = false →
      Moves m ch call (.sendEvent jobID ev evs k) m (sendAll jobID evs k) [.watched call ev]
  | sendError {jobID ev evs k} : ch.stop = true →
      Moves m ch call (.sendEvent jobID ev evs k) m (.unsubscribe jobID) []
  | pollTerminal {jobID lastStatus rec} : m.store.jobs.get jobID = some rec →
      rec.terminal = true → Moves m ch call (.poll jobID lastStatus) m (.drain jobID rec) []
  | pollStatus {jobID lastStatus st} : Moves m ch call (.poll jobID lastStatus) m
      (.sendEvent jobID (.status jobID st) [] (.wait st)) []
  | pollSame {jobID lastStatus} :
      Moves m ch call (.poll jobID lastStatus) m (.wait jobID lastStatus) []
  | waitDone {jobID lastStatus} : ch.stop = true →
      Moves m ch call (.wait jobID lastStatus) m (.unsubscribe jobID) []
  | waitEvent {jobID lastStatus ev logHub} : m.logHub.receive jobID call = (logHub, some ev) →
      Moves m ch call (.wait jobID lastStatus) { m with logHub }
        (.sendEvent jobID ev [] (if ev.isResult then .done else .poll lastStatus)) []
  | waitTick {jobID lastStatus} :
      Moves m ch call (.wait jobID lastStatus) m (.poll jobID lastStatus) []
  | drainEvent {jobID rec ev logHub} : m.logHub.receive jobID call = (logHub, some ev) →
      Moves m ch call (.drain jobID rec) { m with logHub }
        (.sendEvent jobID ev [] (if ev.isResult then .done else .drain rec)) []
  | drained {jobID rec} : (m.logHub.receive jobID call).2 = none →
      Moves m ch call (.drain jobID rec) m (.sendEvent jobID (jobResultEvent rec) [] .done) []
  | unsubscribe {jobID} : Moves m ch call (.unsubscribe jobID)
      { m with logHub := m.logHub.unsubscribe jobID call } .idle []
  | recvEnd : Moves m ch call .recvChunk m .idle []
  | recvSkip : Moves m ch call .recvChunk m .recvChunk []
  | recvChunk {chunk} : Moves m ch call .recvChunk m (.loadChunk chunk) []
  | loadChunk {chunk rec} : m.store.jobs.get chunk.jobID = some rec → rec.terminal = false →
      Moves m ch call (.loadChunk chunk) m (.appendChunk chunk) []
  | dropChunk {chunk} : Moves m ch call (.loadChunk chunk) m .recvChunk []
  | appendChunk {chunk} : Moves m ch call (.appendChunk chunk)
      { m with logHub := m.logHub.append chunk.jobID chunk.lines } .recvChunk []

theorem Drainer.hub {d : Drainer} {stmt : Code Drainer} {r : stmt.op.Res}
    (hcode : Drainer.code cfg d = some stmt) (hp : perform cfg m ch stmt.op = some (m', r, es)) :
    (∃ a exhausted pc next, d = .notify a exhausted pc ∧ NotifyPc.Moves m ch a.jobID pc m' next ∧
      stmt.next r = next.elim (if exhausted then .recordFailed a else return_ a)
        (.notify a exhausted)) ∨
    (∀ a exhausted pc, d ≠ .notify a exhausted pc) ∧ m'.logHub = m.logHub := by
  cases d with
  | notify a exhausted pc =>
    simp only [code, Option.some.injEq] at hcode
    subst hcode
    obtain ⟨next, hmove, hnext, -⟩ := NotifyPc.moves hp
    exact .inl ⟨a, exhausted, pc, next, rfl, hmove, hnext⟩
  | dispatch a pc =>
    simp only [code, Option.some.injEq] at hcode
    subst hcode
    cases pc <;> exact .inr ⟨by simp, (perform_hub rfl hp).1⟩
  | stopped => simp [code] at hcode
  | _ =>
    simp only [code, Option.some.injEq] at hcode
    subst hcode
    exact .inr ⟨by simp, (perform_hub rfl hp).1⟩

theorem Detector.hub {d : Detector} {stmt : Code Detector} {r : stmt.op.Res}
    (hcode : Detector.code cfg d = some stmt) (hp : perform cfg m ch stmt.op = some (m', r, es)) :
    (∃ workerID jobID pc jobs dead next, d = .notify workerID jobID pc jobs dead ∧
      NotifyPc.Moves m ch jobID pc m' next ∧
      stmt.next r = next.elim (Detector.next workerID jobs dead)
        (.notify workerID jobID · jobs dead)) ∨
    (∀ workerID jobID pc jobs dead, d ≠ .notify workerID jobID pc jobs dead) ∧
      m'.logHub = m.logHub := by
  cases d with
  | notify workerID jobID pc jobs dead =>
    simp only [code, Option.some.injEq] at hcode
    subst hcode
    obtain ⟨next, hmove, hnext, -⟩ := NotifyPc.moves hp
    exact .inl ⟨workerID, jobID, pc, jobs, dead, next, rfl, hmove, hnext⟩
  | enqueue workerID jobID pc jobs dead =>
    simp only [code, Option.some.injEq] at hcode
    subst hcode
    cases pc <;> exact .inr ⟨by simp, (perform_hub rfl hp).1⟩
  | owed dead =>
    cases dead <;>
    · simp only [code, Option.some.injEq] at hcode
      subst hcode
      exact .inr ⟨by simp, (perform_hub rfl hp).1⟩
  | stopped => simp [code] at hcode
  | reassign =>
    simp only [code, Option.some.injEq] at hcode
    subst hcode
    exact .inr ⟨by simp, (perform_hub rfl hp).1⟩

theorem Main.hub {pc : Main} {stmt : Code Main} {r : stmt.op.Res}
    (hcode : Main.code pc = some stmt) (hp : perform cfg m ch stmt.op = some (m', r, es)) :
    m'.logHub = m.logHub := by
  cases pc with
  | enqueue jobID pc jobs =>
    simp only [code, Option.some.injEq] at hcode
    subst hcode
    cases pc <;> exact (perform_hub rfl hp).1
  | down | serving => simp [code] at hcode
  | _ =>
    simp only [code, Option.some.injEq] at hcode
    subst hcode
    exact (perform_hub rfl hp).1

theorem LogHub.receive_none {h : LogHub} {j : String} {sub : Nat} (hr : (h.receive j sub).2 = none) :
    (h.receive j sub).1 = h := by
  unfold LogHub.receive at hr ⊢
  simp only at hr ⊢
  split
  · rename_i hlook
    simp [hlook] at hr
  · rfl

theorem Handler.moves {h : Handler} {stmt : Code Handler} {r : stmt.op.Res}
    (hcode : Handler.code call h = some stmt) (hp : perform cfg m ch stmt.op = some (m', r, es)) :
    Handler.Moves m ch call h m' (stmt.next r) es := by
  cases h with
  | idle => simp [code] at hcode
  | putResult req | recordColdStart req =>
    simp only [code, Option.some.injEq] at hcode
    subst hcode
    cases performs_of_perform hp
    first
      | exact .putResult rfl rfl
      | exact .recordColdStart rfl rfl
  | count req =>
    simp only [code] at hcode
    split at hcode <;>
    · simp only [Option.some.injEq] at hcode
      subst hcode
      cases performs_of_perform hp
      exact .count rfl rfl
  | appendTail req =>
    simp only [code, Option.some.injEq] at hcode
    subst hcode
    cases performs_of_perform hp
    exact .appendTail
  | report req =>
    simp only [code, Option.some.injEq] at hcode
    subst hcode
    obtain ⟨ht, rfl⟩ := transits_of_perform hp
    rcases r with ⟨c, e | b⟩
    · exact .reportError ht
    · exact .report ht
  | notify req pc =>
    simp only [code, Option.some.injEq] at hcode
    subst hcode
    obtain ⟨next, hmove, hnext, rfl⟩ := NotifyPc.moves hp
    rw [hnext]
    exact .notify hmove
  | refuse status =>
    simp only [code, Option.some.injEq] at hcode
    subst hcode
    cases performs_of_perform hp
    exact .refuse
  | acknowledge req =>
    simp only [code, Option.some.injEq] at hcode
    subst hcode
    cases performs_of_perform hp
    exact .acknowledge
  | loadWatch jobID =>
    simp only [code, Option.some.injEq] at hcode
    subst hcode
    rcases r with e | _ | rec
    · obtain ⟨rfl, rfl, msg, hf, rfl⟩ := getJob_error hp rfl
      exact .loadFailed hf
    · obtain ⟨rfl, rfl, hget⟩ := getJob_some hp rfl
      exact .loadMissing hget
    · obtain ⟨rfl, rfl, hget⟩ := getJob_some hp rfl
      exact .loadWatch hget
  | subscribe jobID lastStatus =>
    simp only [code, Option.some.injEq] at hcode
    subst hcode
    cases performs_of_perform hp
    exact .subscribe
  | sendEvent jobID ev evs k =>
    simp only [code, Option.some.injEq] at hcode
    subst hcode
    cases performs_of_perform hp with
    | sendDone hstop => exact .sendError hstop
    | sendEvent hstop => exact .sent hstop
  | poll jobID lastStatus =>
    simp only [code, Option.some.injEq] at hcode
    subst hcode
    rcases r with e | _ | rec
    · obtain ⟨rfl, rfl, -⟩ := getJob_error hp rfl
      exact .pollSame
    · obtain ⟨rfl, rfl, -⟩ := getJob_some hp rfl
      exact .pollSame
    · obtain ⟨rfl, rfl, hget⟩ := getJob_some hp rfl
      simp only
      split
      · exact .pollTerminal hget ‹_›
      · split
        · exact .pollStatus
        · exact .pollSame
  | wait jobID lastStatus =>
    simp only [code, Option.some.injEq] at hcode
    subst hcode
    cases performs_of_perform hp with
    | awaitDone hstop => exact .waitDone hstop
    | awaitTick => exact .waitTick
    | awaitEvent _ _ hrecv => exact .waitEvent hrecv
  | drain jobID rec =>
    simp only [code, Option.some.injEq] at hcode
    subst hcode
    cases performs_of_perform hp
    rcases hrecv : m.logHub.receive jobID call with ⟨logHub, _ | ev⟩
    · have hnone : (m.logHub.receive jobID call).2 = none := by rw [hrecv]
      have hsame := LogHub.receive_none hnone
      rw [hrecv] at hsame
      subst hsame
      exact .drained hnone
    · exact .drainEvent hrecv
  | unsubscribe jobID =>
    simp only [code, Option.some.injEq] at hcode
    subst hcode
    cases performs_of_perform hp
    exact .unsubscribe
  | recvChunk =>
    simp only [code, Option.some.injEq] at hcode
    subst hcode
    cases performs_of_perform hp
    cases ch.chunk with
    | none => exact .recvEnd
    | some chunk =>
      simp only
      split
      · exact .recvSkip
      · exact .recvChunk
  | loadChunk chunk =>
    simp only [code, Option.some.injEq] at hcode
    subst hcode
    rcases r with e | _ | rec
    · obtain ⟨rfl, rfl, -⟩ := getJob_error hp rfl
      exact .dropChunk
    · obtain ⟨rfl, rfl, -⟩ := getJob_some hp rfl
      exact .dropChunk
    · obtain ⟨rfl, rfl, hget⟩ := getJob_some hp rfl
      simp only
      split
      · exact .dropChunk
      · rename_i ht
        exact .loadChunk hget (by simpa using ht)
  | appendChunk chunk =>
    simp only [code, Option.some.injEq] at hcode
    subst hcode
    cases performs_of_perform hp
    exact .appendChunk
  | enqueue req jobID pc =>
    simp only [code, Option.some.injEq] at hcode
    subst hcode
    have haloof := EnqueuePc.next_ind (motive := fun h => h.aloof = true) (fun _ => rfl) rfl pc r
    cases pc <;>
    · obtain ⟨hhub, hes⟩ := perform_hub rfl hp
      exact .aloof rfl haloof hhub hes rfl
  | _ =>
    simp only [code, Option.some.injEq] at hcode
    subst hcode
    obtain ⟨hhub, hes⟩ := perform_hub rfl hp
    refine .aloof rfl ?_ hhub hes rfl
    simp only
    repeat' split
    all_goals rfl

end Server

end Minimodal
