import Minimodal.Server.Delivery

namespace Minimodal

namespace LogSub

theorem sendAll_ch (evs : List JobEvent) (sub : LogSub) :
    (sub.sendAll evs).ch = sub.ch ++ evs.take (subChannelBuffer - sub.ch.length) := by
  induction evs generalizing sub with
  | nil => simp [sendAll]
  | cons ev evs ih =>
    rw [sendAll, List.foldl_cons, ← sendAll, ih]
    unfold send
    split
    · rename_i hroom
      have hleft : subChannelBuffer - sub.ch.length =
          subChannelBuffer - (sub.ch.length + 1) + 1 := by omega
      rw [hleft, List.take_succ_cons]
      simp
    · rename_i hfull
      have hnone : subChannelBuffer - sub.ch.length = 0 := by omega
      simp [hnone]

theorem sendAll_fits {evs : List JobEvent} {sub : LogSub}
    (h : sub.ch.length + evs.length ≤ subChannelBuffer) : (sub.sendAll evs).ch = sub.ch ++ evs := by
  rw [sendAll_ch, List.take_of_length_le (by omega)]

theorem send_ch_append (sub : LogSub) (ev : JobEvent) :
    ∃ l, (sub.send ev).ch = sub.ch ++ l ∧ (l = [] ∨ l = [ev]) := by
  unfold send
  split
  · exact ⟨[ev], rfl, .inr rfl⟩
  · exact ⟨[], (List.append_nil _).symm, .inl rfl⟩

end LogSub

namespace Server

structure ResultLast (st : JobLogState) (sub : LogSub) : Prop where
  quiet : st.terminal = none → ∀ ev ∈ sub.ch, ev.isResult = false
  last : ∀ ev ∈ sub.ch.dropLast, ev.isResult = false

/-- No result has been sent yet; the lines `owed` are among those sent and those in the mailbox. -/
def Underway (owed : List JobEvent) (m : Mem) (call : Nat) (j : String) (l : List JobEvent) :
    Prop :=
  (∀ ev ∈ l, ev.isResult = false) ∧
    ∃ st sub, m.logHub.jobs[j]? = some st ∧ st.subs.lookup call = some sub ∧ ResultLast st sub ∧
      owed <:+: logsOf (l ++ sub.ch)

def Brought (owed l : List JobEvent) : Prop :=
  ∃ front res, l = front ++ [res] ∧ (∀ ev ∈ front, ev.isResult = false) ∧ res.isResult = true ∧
    owed <:+: logsOf front

def Handler.Brings (owed : List JobEvent) (m : Mem) (call : Nat) (j : String)
    (sent : List JobEvent) : Handler → Prop
  | .sendEvent k ev evs .done => k = j ∧ Brought owed (sent ++ ev :: evs) ∧
      m.store.finished j = true
  | .sendEvent k ev evs next => k = j ∧ Underway owed m call j (sent ++ ev :: evs) ∧
      ∀ rec, next = .drain rec → m.store.finished j = true
  | .poll k _ | .wait k _ => k = j ∧ Underway owed m call j sent
  | .drain k _ => k = j ∧ Underway owed m call j sent ∧ m.store.finished j = true
  | .unsubscribe k => k = j ∧ Brought owed sent ∧ m.store.finished j = true
  | .idle => Brought owed sent ∧ m.store.finished j = true
  | _ => False

namespace ResultLast

variable {st st' : JobLogState} {sub : LogSub}

theorem append (h : ResultLast st sub) (ht : st.terminal = none) {evs : List JobEvent}
    (hevs : ∀ ev ∈ evs, ev.isResult = false) : ResultLast st' (sub.sendAll evs) := by
  have hall : ∀ ev ∈ (sub.sendAll evs).ch, ev.isResult = false := by
    intro ev hev
    rcases LogSub.mem_sendAll hev with hev | hev
    · exact h.quiet ht ev hev
    · exact hevs ev hev
  exact ⟨fun _ => hall, fun ev hev => hall ev (List.mem_of_mem_dropLast hev)⟩

theorem close (h : ResultLast st sub) (ht : st.terminal = none) (ht' : st'.terminal.isSome = true)
    (result : JobEvent) : ResultLast st' (sub.send result) := by
  constructor
  · intro hnone
    simp [hnone] at ht'
  · intro ev hev
    refine h.quiet ht ev ?_
    obtain ⟨l, hch, rfl | rfl⟩ := LogSub.send_ch_append sub result
    · rw [hch, List.append_nil] at hev
      exact List.mem_of_mem_dropLast hev
    · rwa [hch, List.dropLast_concat] at hev

theorem advance {ev : JobEvent} {rest : List JobEvent} {dropped : Nat}
    (h : ResultLast st ⟨ev :: rest, dropped⟩) (hterm : st'.terminal = st.terminal) :
    ResultLast st' ⟨rest, dropped⟩ := by
  refine ⟨fun hn e he => h.quiet (hterm ▸ hn) e (List.mem_cons_of_mem _ he), fun e he => ?_⟩
  refine h.last e ?_
  rw [List.dropLast_cons_of_ne_nil]
  · exact List.mem_cons_of_mem _ he
  · rintro rfl
    simp at he

theorem eq_nil {ev : JobEvent} {rest : List JobEvent} {dropped : Nat}
    (h : ResultLast st ⟨ev :: rest, dropped⟩) (hev : ev.isResult = true) : rest = [] := by
  by_contra hne
  have := h.last ev (by simp [List.dropLast_cons_of_ne_nil hne])
  simp [hev] at this

end ResultLast

variable {cfg : Config} {s t : State} {a : Action} {es : List Event} {call : Nat} {j : String}
  {m m' : Mem} {ch : Choice} {owed l sent : List JobEvent} {h h' : Handler}

theorem infix_logsOf_append (hl : owed <:+: logsOf l) (l' : List JobEvent) :
    owed <:+: logsOf (l ++ l') := by
  rw [logsOf_append]
  exact hl.trans (List.prefix_append _ _).isInfix

theorem isResult_of_log {lines : List LogLine} {ev : JobEvent} (h : ev ∈ lines.map (.log j)) :
    ev.isResult = false := by
  obtain ⟨line, -, rfl⟩ := List.mem_map.mp h
  rfl

theorem not_result_append {evs : List JobEvent} (hl : ∀ ev ∈ l, ev.isResult = false)
    (hevs : ∀ ev ∈ evs, ev.isResult = false) : ∀ ev ∈ l ++ evs, ev.isResult = false := by
  intro ev hev
  rcases List.mem_append.mp hev with hev | hev
  · exact hl ev hev
  · exact hevs ev hev

namespace Underway

theorem skip (hu : Underway owed m call j l) {ev : JobEvent} (hlog : ev.isLog = false)
    (hres : ev.isResult = false) : Underway owed m call j (l ++ [ev]) := by
  obtain ⟨hl, st, sub, hst, hsub, hlast, howed⟩ := hu
  refine ⟨not_result_append hl (by simpa using hres), st, sub, hst, hsub, hlast, ?_⟩
  have hsame : logsOf (l ++ [ev] ++ sub.ch) = logsOf (l ++ sub.ch) := by simp [logsOf, hlog]
  rw [hsame]
  exact howed

theorem other (hu : Underway owed s.mem call j l) (hmove : HubMove s a t.mem.logHub)
    (ha : ∀ ch, a ≠ .call call ch) : Underway owed t.mem call j l := by
  obtain ⟨hl, st, sub, hst, hsub, hlast, howed⟩ := hu
  obtain ⟨st', sub', hst', hsub', hposts⟩ := hmove.posts ha hst hsub
  refine ⟨hl, st', sub', hst', hsub', ?_⟩
  cases hposts with
  | same hterm => exact ⟨⟨fun hn => hlast.quiet (hterm ▸ hn), hlast.last⟩, howed⟩
  | @append c ch lines _ _ _ ht =>
    refine ⟨hlast.append ht fun _ => isResult_of_log, ?_⟩
    rw [LogSub.sendAll_ch, ← List.append_assoc]
    exact infix_logsOf_append howed _
  | @finish rec _ _ ht ht' =>
    refine ⟨hlast.close ht ht' _, ?_⟩
    obtain ⟨l', hch, -⟩ := LogSub.send_ch_append sub (jobResultEvent rec)
    rw [hch, ← List.append_assoc]
    exact infix_logsOf_append howed _

theorem append (hu : Underway [] s.mem call j l) {lines : List LogLine}
    (hterm : (s.mem.logHub.get j).terminal = none)
    (hhub : t.mem.logHub = s.mem.logHub.append j lines)
    (hroom : ∀ (st : JobLogState) sub, s.mem.logHub.jobs[j]? = some st →
      st.subs.lookup call = some sub → sub.ch.length + lines.length ≤ subChannelBuffer) :
    Underway ((lines.map LogHub.truncate).map (.log j)) t.mem call j l := by
  obtain ⟨hl, st, sub, hst, hsub, hlast, -⟩ := hu
  have hget : s.mem.logHub.get j = st := by simp [LogHub.get_eq, hst]
  rw [hget] at hterm
  by_cases hlines : lines = []
  · subst hlines
    have hst' : t.mem.logHub.jobs[j]? = some st := by
      rw [hhub, LogHub.jobs_append, if_neg (by simp), hst]
    exact ⟨hl, st, sub, hst', hsub, hlast, List.nil_infix⟩
  · have hst' : t.mem.logHub.jobs[j]? = some (st.take s.mem.logHub.maxLines j lines) := by
      rw [hhub, LogHub.jobs_append, if_pos ⟨rfl, hlines⟩, hget]
    have hsub' : (st.take s.mem.logHub.maxLines j lines).subs.lookup call =
        some (sub.sendAll ((lines.map LogHub.truncate).map (.log j))) := by
      rw [JobLogState.lookup_take hterm, hsub]
      rfl
    refine ⟨hl, _, _, hst', hsub', hlast.append hterm fun _ => isResult_of_log, ?_⟩
    rw [LogSub.sendAll_fits (by simpa using hroom st sub hst hsub), ← List.append_assoc,
      logsOf_append, logsOf_logs]
    exact (List.suffix_append _ _).isInfix

theorem receive (hu : Underway owed m call j l) {logHub : LogHub} {ev : JobEvent}
    (hrecv : m.logHub.receive j call = (logHub, some ev)) :
    (ev.isResult = false → Underway owed { m with logHub } call j (l ++ [ev])) ∧
      (ev.isResult = true → Brought owed (l ++ [ev]) ∧ (m.logHub.get j).terminal ≠ none) := by
  obtain ⟨hl, st, sub, hst, hsub, hlast, howed⟩ := hu
  have hget : m.logHub.get j = st := by simp [LogHub.get_eq, hst]
  obtain ⟨⟨rest, dropped, hlook⟩, hjobs⟩ := LogHub.receive_some hrecv
  rw [hget, hsub, Option.some.injEq] at hlook
  subst hlook
  constructor
  · intro hres
    refine ⟨not_result_append hl (by simpa using hres), st.advance call, ⟨rest, dropped⟩, ?_,
      JobLogState.advance_self hsub, hlast.advance (JobLogState.advance_frame ..).1, ?_⟩
    · simp only [hjobs, if_pos, hget]
    · simpa using howed
  · intro hres
    have hrest := hlast.eq_nil hres
    subst hrest
    refine ⟨⟨l, ev, rfl, hl, hres, ?_⟩, ?_⟩
    · simpa [logsOf_result hres] using howed
    · intro hnone
      have := hlast.quiet (hget ▸ hnone) ev (by simp)
      simp [hres] at this

theorem drained (hu : Underway owed m call j l) (hnone : (m.logHub.receive j call).2 = none)
    (rec : JobRecord) : Brought owed (l ++ [jobResultEvent rec]) := by
  obtain ⟨hl, st, sub, hst, hsub, -, howed⟩ := hu
  have hget : m.logHub.get j = st := by simp [LogHub.get_eq, hst]
  have hempty : sub.ch = [] := by
    cases hch : sub.ch with
    | nil => rfl
    | cons ev rest =>
      have hlook : (m.logHub.get j).subs.lookup call = some ⟨ev :: rest, sub.dropped⟩ := by
        rw [hget, hsub, ← hch]
      simp [LogHub.receive, hlook] at hnone
  rw [hempty, List.append_nil] at howed
  exact ⟨l, _, rfl, hl, rfl, howed⟩

end Underway

namespace Handler

theorem brings_sendAll (evs : List JobEvent) {next : WatchNext}
    (hdone : next = .done → Brought owed (sent ++ evs) ∧ m.store.finished j = true)
    (hgoes : next ≠ .done → Underway owed m call j (sent ++ evs))
    (hdrain : ∀ rec, next = .drain rec → m.store.finished j = true) :
    (sendAll j evs next).Brings owed m call j sent := by
  cases evs with
  | nil =>
    rw [List.append_nil] at hdone hgoes
    cases next with
    | done => exact ⟨rfl, hdone rfl⟩
    | drain rec => exact ⟨rfl, hgoes (by simp), hdrain rec rfl⟩
    | _ => exact ⟨rfl, hgoes (by simp)⟩
  | cons ev evs =>
    cases next with
    | done => exact ⟨rfl, hdone rfl⟩
    | _ => exact ⟨rfl, hgoes (by simp), hdrain⟩

theorem Brings.sendEvent {k : String} {ev : JobEvent} {evs : List JobEvent} {next : WatchNext}
    (hb : (Handler.sendEvent k ev evs next).Brings owed m call j sent) :
    k = j ∧ (next = .done → Brought owed (sent ++ ev :: evs) ∧ m.store.finished j = true) ∧
      (next ≠ .done → Underway owed m call j (sent ++ ev :: evs)) ∧
      ∀ rec, next = .drain rec → m.store.finished j = true := by
  cases next with
  | done => exact ⟨hb.1, fun _ => hb.2, fun hne => absurd rfl hne, by simp⟩
  | _ => exact ⟨hb.1, by simp, fun _ => hb.2.1, hb.2.2⟩

theorem Brings.step (hb : h.Brings owed m call j sent) (hm : Handler.Moves m ch call h m' h' es)
    (hgo : ch.stop = false)
    (hterm : m.store.finished j = false → (m.logHub.get j).terminal = none) :
    h'.Brings owed m' call j (sent ++ watchedBy call es) := by
  have hfin : (m.logHub.get j).terminal ≠ none → m.store.finished j = true := by
    intro hne
    cases hf : m.store.finished j with
    | true => rfl
    | false => exact absurd (hterm hf) hne
  cases hm with
  | aloof ha _ _ _ hend =>
    cases h <;> first | exact hb.elim | simp [Handler.aloof] at ha; done | simp [Handler.ending] at hend
  | @sent k ev evs next =>
    obtain ⟨rfl, hdone, hgoes, hdrain⟩ := hb.sendEvent
    simp only [watchedBy, List.filterMap_cons, if_true, List.filterMap_nil]
    refine brings_sendAll evs (fun he => ?_) (fun hne => ?_) hdrain
    · simpa using hdone he
    · simpa using hgoes hne
  | sendError hstop | waitDone hstop => simp [hgo] at hstop
  | pollTerminal hget ht =>
    obtain ⟨rfl, hu⟩ := hb
    rw [watchedBy_nil, List.append_nil]
    exact ⟨rfl, hu, BoltStore.finished_iff.mpr ⟨_, hget, ht⟩⟩
  | pollStatus =>
    obtain ⟨rfl, hu⟩ := hb
    rw [watchedBy_nil, List.append_nil]
    exact ⟨rfl, hu.skip rfl rfl, by simp⟩
  | pollSame | waitTick =>
    rw [watchedBy_nil, List.append_nil]
    exact hb
  | @waitEvent k lastStatus ev logHub hrecv =>
    obtain ⟨rfl, hu⟩ := hb
    obtain ⟨hlog, hres⟩ := hu.receive hrecv
    rw [watchedBy_nil, List.append_nil]
    refine brings_sendAll [ev] ?_ ?_ ?_
    · cases hev : ev.isResult with
      | true => exact fun _ => ⟨(hres hev).1, hfin (hres hev).2⟩
      | false => simp
    · cases hev : ev.isResult with
      | true => simp
      | false => exact fun _ => hlog hev
    · cases hev : ev.isResult <;> simp
  | @drainEvent k rec ev logHub hrecv =>
    obtain ⟨rfl, hu, hf⟩ := hb
    obtain ⟨hlog, hres⟩ := hu.receive hrecv
    rw [watchedBy_nil, List.append_nil]
    refine brings_sendAll [ev] ?_ ?_ ?_
    · cases hev : ev.isResult with
      | true => exact fun _ => ⟨(hres hev).1, hf⟩
      | false => simp
    · cases hev : ev.isResult with
      | true => simp
      | false => exact fun _ => hlog hev
    · exact fun _ _ => hf
  | @drained k rec hnone =>
    obtain ⟨rfl, hu, hf⟩ := hb
    rw [watchedBy_nil, List.append_nil]
    exact ⟨rfl, hu.drained hnone rec, hf⟩
  | unsubscribe =>
    rw [watchedBy_nil, List.append_nil]
    exact hb.2
  | _ => exact hb.elim

theorem Brings.other (hb : h.Brings owed s.mem call j sent)
    (hk : Kept s.mem.store t.mem.store) (hmove : HubMove s a t.mem.logHub)
    (ha : ∀ ch, a ≠ .call call ch) : h.Brings owed t.mem call j sent := by
  cases h with
  | sendEvent k ev evs next =>
    cases next with
    | done => exact ⟨hb.1, hb.2.1, hk.finished hb.2.2⟩
    | _ => exact ⟨hb.1, hb.2.1.other hmove ha, fun rec he => hk.finished (hb.2.2 rec he)⟩
  | poll | wait => exact ⟨hb.1, hb.2.other hmove ha⟩
  | drain => exact ⟨hb.1, hb.2.1.other hmove ha, hk.finished hb.2.2⟩
  | unsubscribe => exact ⟨hb.1, hb.2.1, hk.finished hb.2.2⟩
  | idle => exact ⟨hb.1, hk.finished hb.2⟩
  | _ => exact hb.elim

theorem brings_of_subscribe {lastStatus : JobStatus} {x : Lines} {h' : Handler}
    (hm : Handler.Moves s.mem ch call (.subscribe j lastStatus) m' h' es) (hb : Buffered x s) :
    h'.Brings [] m' call j [] ∧ es = [] := by
  cases hm with
  | aloof ha => simp [Handler.aloof] at ha
  | subscribe =>
    have hlines : ∀ ev ∈ JobEvent.status j lastStatus ::
        (s.mem.logHub.get j).lines.map (JobEvent.log j), ev.isResult = false := by
      intro ev hev
      rcases List.mem_cons.mp hev with rfl | hev
      · rfl
      · exact isResult_of_log hev
    refine ⟨brings_sendAll (.status j lastStatus :: _) ?_ ?_ ?_, rfl⟩
    · cases ht : (s.mem.logHub.get j).terminal with
      | none => simp
      | some ev =>
        refine fun _ => ⟨⟨_, ev, rfl, hlines, hb.result j ev ht, List.nil_infix⟩, ?_⟩
        cases hf : s.mem.store.finished j with
        | true => rfl
        | false => simp [hb.terminal j hf] at ht
    · cases ht : (s.mem.logHub.get j).terminal with
      | some ev => simp
      | none =>
        refine fun _ => ⟨by simpa using hlines, (s.mem.logHub.get j).attach call, {}, ?_,
          JobLogState.lookup_attach_self, ⟨by simp, by simp⟩, List.nil_infix⟩
        rw [LogHub.jobs_subscribe, if_pos rfl]
    · cases (s.mem.logHub.get j).terminal <;> simp

theorem Brings.append (hb : h.Brings [] s.mem call j sent)
    (hopen : s.mem.store.finished j = false) {lines : List LogLine}
    (hterm : (s.mem.logHub.get j).terminal = none)
    (hhub : t.mem.logHub = s.mem.logHub.append j lines)
    (hroom : ∀ (st : JobLogState) sub, s.mem.logHub.jobs[j]? = some st →
      st.subs.lookup call = some sub → sub.ch.length + lines.length ≤ subChannelBuffer) :
    h.Brings ((lines.map LogHub.truncate).map (.log j)) t.mem call j sent := by
  have hnot : s.mem.store.finished j ≠ true := by simp [hopen]
  cases h with
  | sendEvent k ev evs next =>
    obtain ⟨hk, hdone, hgoes, hdrain⟩ := hb.sendEvent
    cases next with
    | done => exact absurd (hdone rfl).2 hnot
    | drain rec => exact absurd (hdrain rec rfl) hnot
    | _ => exact ⟨hk, (hgoes (by simp)).append hterm hhub hroom, by simp⟩
  | poll | wait => exact ⟨hb.1, hb.2.append hterm hhub hroom⟩
  | drain | unsubscribe => exact absurd hb.2.2 hnot
  | idle => exact absurd hb.2 hnot
  | _ => exact hb.elim

end Handler

/-- The process stays up and the client of the call receives what is sent. -/
def receiving (call : Nat) (s : State) (a : Action) : Prop :=
  undisturbed call s a ∧ ∀ ch, a = .call call ch → ch.stop = false

theorem receiving_own (hgo : ch.stop = false) : receiving call s (.call call ch) := by
  refine ⟨⟨by simp [Action.starts], by simp, by simp⟩, ?_⟩
  rintro _ ⟨⟩
  exact hgo

theorem brings_of_run {as bs : List Action} {fs : List Event} {u : State}
    (hs : (machine cfg).Run Lib.Machine.Always init as es s)
    (hb : (s.calls call).Brings owed s.mem call j sent)
    (hrun : (machine cfg).Run (receiving call) s bs fs u) :
    (u.calls call).Brings owed u.mem call j (sent ++ watchedBy call fs) := by
  induction hrun with
  | refl => simpa using hb
  | @tail bs fs u a v e hprev hok hstep ih =>
    obtain ⟨hi, hf, x, hbuf⟩ := exists_buffered (hs.trans (hprev.mono fun _ _ _ => trivial))
    obtain ⟨hu, hgo⟩ := hok
    rw [watchedBy_append, ← List.append_assoc]
    rcases step_of_call hstep hu with ⟨ch, rfl, hm⟩ | ⟨hne, hcalls, hnone⟩
    · exact ih.step hm (hgo ch rfl) (hbuf.terminal j)
    · rw [hcalls, hnone, List.append_nil]
      exact ih.other (hi.step (stepped_of_step hstep)).2
        (hubMove_of_step hf hu.2.1 hu.2.2 hstep) hne

section Progress

variable {k : String} {ev : JobEvent} {evs : List JobEvent} {next : WatchNext}
  {lastStatus : JobStatus} {rec : JobRecord} {st : JobLogState} {dropped : Nat}

theorem step_sendEvent (hc : s.calls call = .sendEvent k ev evs next) :
    (machine cfg).step s (.call call {}) =
      some (s.setCall call (Handler.sendAll k evs next), [.watched call ev]) := by
  simp [machine, step, Lib.Thread.step, hc, Handler.code, perform]

theorem step_poll (hc : s.calls call = .poll k lastStatus)
    (hget : s.mem.store.jobs.get k = some rec) (ht : rec.terminal = true) :
    (machine cfg).step s (.call call {}) = some (s.setCall call (.drain k rec), []) := by
  simp [machine, step, Lib.Thread.step, hc, Handler.code, perform, view, BoltStore.getJob, hget, ht]

theorem step_wait (hc : s.calls call = .wait k lastStatus) :
    (machine cfg).step s (.call call { tick := true }) =
      some (s.setCall call (.poll k lastStatus), []) := by
  simp [machine, step, Lib.Thread.step, hc, Handler.code, perform]

theorem step_drained (hc : s.calls call = .drain k rec)
    (hrecv : s.mem.logHub.receive k call = (s.mem.logHub, none)) :
    (machine cfg).step s (.call call {}) =
      some (s.setCall call (.sendEvent k (jobResultEvent rec) [] .done), []) := by
  simp [machine, step, Lib.Thread.step, hc, Handler.code, Handler.sendAll, perform, hrecv]

theorem step_drainEvent (cfg : Config) (hc : s.calls call = .drain k rec) {logHub : LogHub}
    (hrecv : s.mem.logHub.receive k call = (logHub, some ev)) :
    (machine cfg).step s (.call call {}) =
      some ({ s with mem.logHub := logHub }.setCall call
        (.sendEvent k ev [] (if ev.isResult then .done else .drain rec)), []) := by
  simp [machine, step, Lib.Thread.step, hc, Handler.code, Handler.sendAll, perform, hrecv]

theorem step_unsubscribe (hc : s.calls call = .unsubscribe k) :
    (machine cfg).step s (.call call {}) =
      some ({ s with mem.logHub := s.mem.logHub.unsubscribe k call }.setCall call .idle, []) := by
  simp [machine, step, Lib.Thread.step, hc, Handler.code, perform]

def Ends (cfg : Config) (call : Nat) (s : State) (sent : List JobEvent) : Prop :=
  ∃ bs fs u, (machine cfg).Run (receiving call) s bs fs u ∧ u.calls call = .idle ∧
    watchedBy call fs = sent

theorem Ends.cons (hstep : (machine cfg).step s (.call call ch) = some (t, es))
    (hgo : ch.stop = false) (he : Ends cfg call t sent) :
    Ends cfg call s (watchedBy call es ++ sent) := by
  obtain ⟨bs, fs, u, hrun, hidle, rfl⟩ := he
  exact ⟨_, _, u, .cons (receiving_own hgo) hstep hrun, hidle, watchedBy_append ..⟩

theorem Ends.sendEvent (hc : s.calls call = .sendEvent k ev evs next)
    (he : Ends cfg call (s.setCall call (Handler.sendAll k evs next)) sent) :
    Ends cfg call s (ev :: sent) := by
  simpa [watchedBy] using he.cons (step_sendEvent hc) rfl

theorem setCall_calls_self (s : State) (call : Nat) (h : Handler) :
    (s.setCall call h).calls call = h := by
  simp [setCall_calls]

theorem ends_unsubscribe (hc : s.calls call = .unsubscribe k) : Ends cfg call s [] :=
  Ends.cons (step_unsubscribe hc) rfl ⟨_, _, _, .refl, setCall_calls_self .., rfl⟩

theorem ends_result (hc : s.calls call = .sendEvent k ev [] .done) : Ends cfg call s [ev] :=
  Ends.sendEvent hc (ends_unsubscribe (k := k) (setCall_calls_self ..))

theorem ends_drain (cfg : Config) (hc : s.calls call = .drain k rec) (hst : s.mem.logHub.jobs[k]? = some st)
    (hsub : st.subs.lookup call = some ⟨evs, dropped⟩) :
    ∃ sent, Ends cfg call s sent ∧
      ((∀ ev ∈ evs, ev.isResult = false) → sent = evs ++ [jobResultEvent rec]) := by
  induction evs generalizing s st with
  | nil =>
    have hget : s.mem.logHub.get k = st := by simp [LogHub.get_eq, hst]
    have hrecv : s.mem.logHub.receive k call = (s.mem.logHub, none) := by
      simp [LogHub.receive, hget, hsub]
    exact ⟨_, Ends.cons (step_drained hc hrecv) rfl (ends_result (setCall_calls_self ..)),
      fun _ => rfl⟩
  | cons ev evs ih =>
    have hget : s.mem.logHub.get k = st := by simp [LogHub.get_eq, hst]
    obtain ⟨logHub, hrecv⟩ : ∃ logHub, s.mem.logHub.receive k call = (logHub, some ev) := by
      simp [LogHub.receive, hget, hsub]
    have hstep := step_drainEvent cfg hc hrecv
    cases hev : ev.isResult with
    | true =>
      rw [hev] at hstep
      refine ⟨_, Ends.cons hstep rfl (ends_result (setCall_calls_self ..)), fun hall => ?_⟩
      simp [hall ev (by simp)] at hev
    | false =>
      rw [hev] at hstep
      have hst' : logHub.jobs[k]? = some (st.advance call) := by
        rw [(LogHub.receive_some hrecv).2, if_pos rfl, hget]
      obtain ⟨sent, hends, hsent⟩ := ih (s := ({ s with mem.logHub := logHub }.setCall call
          (.sendEvent k ev [] (.drain rec))).setCall call (.drain k rec))
        (setCall_calls_self ..) hst' (JobLogState.advance_self hsub)
      refine ⟨_, Ends.cons hstep rfl (Ends.sendEvent (setCall_calls_self ..) hends), fun hall => ?_⟩
      rw [hsent fun e he => hall e (List.mem_cons_of_mem _ he)]
      rfl

theorem ends_poll (cfg : Config) (hc : s.calls call = .poll k lastStatus)
    (hst : s.mem.logHub.jobs[k]? = some st) (hsub : st.subs.lookup call = some ⟨evs, dropped⟩)
    (hget : s.mem.store.jobs.get k = some rec) (ht : rec.terminal = true) :
    ∃ sent, Ends cfg call s sent ∧
      ((∀ ev ∈ evs, ev.isResult = false) → sent = evs ++ [jobResultEvent rec]) := by
  obtain ⟨sent, hends, hsent⟩ := ends_drain cfg (setCall_calls_self s call _) hst hsub
  exact ⟨sent, hends.cons (step_poll hc hget ht) rfl, hsent⟩

theorem ends_next (cfg : Config) (next : WatchNext) {sub : LogSub} (hf : s.mem.store.finished k = true)
    (hst : s.mem.logHub.jobs[k]? = some st) (hsub : st.subs.lookup call = some sub)
    (hc : s.calls call = Handler.sendAll k [] next) : ∃ sent, Ends cfg call s sent := by
  obtain ⟨rec, hget, ht⟩ := BoltStore.finished_iff.mp hf
  cases next with
  | poll lastStatus =>
    obtain ⟨sent, hends, -⟩ := ends_poll cfg hc hst hsub hget ht
    exact ⟨sent, hends⟩
  | wait lastStatus =>
    obtain ⟨sent, hends, -⟩ := ends_poll cfg (setCall_calls_self s call _) hst hsub hget ht
    exact ⟨_, hends.cons (step_wait hc) rfl⟩
  | drain rec =>
    obtain ⟨sent, hends, -⟩ := ends_drain cfg hc hst hsub
    exact ⟨sent, hends⟩
  | done => exact ⟨_, ends_unsubscribe hc⟩

theorem ends_sendAll (evs : List JobEvent)
    (hnext : ∀ s' : State, s'.mem = m → s'.calls call = Handler.sendAll k [] next →
      ∃ sent, Ends cfg call s' sent)
    (hm : s.mem = m) (hc : s.calls call = Handler.sendAll k evs next) :
    ∃ sent, Ends cfg call s sent := by
  induction evs generalizing s with
  | nil => exact hnext s hm hc
  | cons ev evs ih =>
    have hm' : (s.setCall call (Handler.sendAll k evs next)).mem = m := hm
    obtain ⟨sent, hends⟩ := ih hm' (setCall_calls_self s call _)
    exact ⟨_, Ends.sendEvent hc hends⟩

theorem exists_ends (hb : (s.calls call).Brings owed s.mem call j sent)
    (hf : s.mem.store.finished j = true) : ∃ sent, Ends cfg call s sent := by
  cases hc : s.calls call with
  | sendEvent k ev evs next =>
    rw [hc] at hb
    obtain ⟨rfl, -, hgoes, -⟩ := hb.sendEvent
    refine ends_sendAll (ev :: evs) (fun s' hmem hc' => ?_) rfl hc
    by_cases hdone : next = .done
    · subst hdone
      exact ⟨_, ends_unsubscribe hc'⟩
    · obtain ⟨-, st, sub, hst, hsub, -⟩ := hgoes hdone
      exact ends_next cfg next (hmem ▸ hf) (hmem ▸ hst) hsub hc'
  | poll k lastStatus =>
    rw [hc] at hb
    obtain ⟨rfl, -, st, sub, hst, hsub, -⟩ := hb
    exact ends_next cfg (.poll lastStatus) hf hst hsub hc
  | wait k lastStatus =>
    rw [hc] at hb
    obtain ⟨rfl, -, st, sub, hst, hsub, -⟩ := hb
    exact ends_next cfg (.wait lastStatus) hf hst hsub hc
  | drain k rec =>
    rw [hc] at hb
    obtain ⟨rfl, ⟨-, st, sub, hst, hsub, -⟩, -⟩ := hb
    exact ends_next cfg (.drain rec) hf hst hsub hc
  | unsubscribe k => exact ⟨_, ends_unsubscribe hc⟩
  | idle => exact ⟨[], [], [], s, .refl, hc, rfl⟩
  | _ =>
    rw [hc] at hb
    exact hb.elim

end Progress

theorem Handler.Brings.brought (hb : h.Brings owed m call j sent)
    (hres : h = .idle ∨ ∃ ev ∈ sent, ev.isResult = true) : Brought owed sent := by
  have hquiet : ∀ evs, (∀ ev ∈ sent ++ evs, ev.isResult = false) →
      ¬ ∃ ev ∈ sent, ev.isResult = true := by
    rintro evs hnot ⟨ev, hev, hres⟩
    simp [hnot ev (List.mem_append_left _ hev)] at hres
  cases h with
  | sendEvent k ev evs next =>
    have hsome : ∃ ev ∈ sent, ev.isResult = true := hres.resolve_left (by simp)
    obtain ⟨-, hdone, hgoes, -⟩ := hb.sendEvent
    by_cases hnext : next = .done
    · obtain ⟨front, res, hl, hfront, -⟩ := (hdone hnext).1
      have hinit : sent ++ (ev :: evs).dropLast = front := by
        have := congrArg List.dropLast hl
        rwa [List.dropLast_append_of_ne_nil (by simp), List.dropLast_concat] at this
      exact absurd hsome (hquiet _ (hinit ▸ hfront))
    · exact absurd hsome (hquiet _ (hgoes hnext).1)
  | poll | wait =>
    exact absurd (hres.resolve_left (by simp)) (hquiet [] (by simpa using hb.2.1))
  | drain => exact absurd (hres.resolve_left (by simp)) (hquiet [] (by simpa using hb.2.1.1))
  | unsubscribe => exact hb.2.1
  | idle => exact hb.1
  | _ => exact hb.elim

theorem step_appendTail {d : Nat} {req : ReportTaskResultRequest}
    (hc : s.calls d = .appendTail req)
    (hst : (machine cfg).step s (.call d ch) = some (t, es)) :
    t.mem.logHub = s.mem.logHub.append req.jobID req.tailLines := by
  have hm := moves_of_call hst
  rw [hc] at hm
  generalize t.calls d = h' at hm
  generalize t.mem = m' at hm ⊢
  cases hm with
  | aloof ha => simp [Handler.aloof] at ha
  | appendTail => rfl

theorem step_report {d : Nat} {req : ReportTaskResultRequest} (hc : s.calls d = .report req)
    (hst : (machine cfg).step s (.call d ch) = some (t, es)) : t.mem.logHub = s.mem.logHub := by
  have hm := moves_of_call hst
  rw [hc] at hm
  generalize t.calls d = h' at hm
  generalize t.mem = m' at hm ⊢
  cases hm with
  | aloof ha => simp [Handler.aloof] at ha
  | report ht | reportError ht => cases ht <;> rfl

def receivingNow (call : Nat) : Action → Bool
  | .call c ch => c != call || !ch.stop
  | a => undisturbedNow call a

theorem receiving_of_receivingNow (ha : receivingNow call a = true) : receiving call s a := by
  cases a with
  | call c ch =>
    refine ⟨by simp [undisturbed, Action.starts], ?_⟩
    rintro _ ⟨⟩
    simpa [receivingNow] using ha
  | _ => exact ⟨undisturbed_of_undisturbedNow ha, by simp⟩

def sampleTailAsked : State × List Event :=
  ((machine sampleConfig).exec (fun _ _ => true) init
    (sampleSubmit ++ sampleDispatch ++ ([.watchJob 2 "j", .call 2 {}] : List Action))).get
    (by decide)

def sampleTailWatched : State × List Event :=
  ((machine sampleConfig).step sampleTailAsked.1 (.call 2 {})).get (by decide)

def sampleTailReport (tailLines : List LogLine) : ReportTaskResultRequest :=
  { jobID := "j", workerID := "w", success := true, tailLines }

def sampleTail : State × List Event :=
  ((machine sampleConfig).exec (fun _ => receivingNow 2) sampleTailWatched.1
    [.call 2 {}, .reportTaskResult 3 (sampleTailReport [sampleLine, sampleLateLine]),
      .call 3 {}]).get (by decide)

def sampleTailAppended : State × List Event :=
  ((machine sampleConfig).step sampleTail.1 (.call 3 {})).get (by decide)

def sampleTailEnded : State × List Event :=
  ((machine sampleConfig).exec (fun _ => receivingNow 2) sampleTailAppended.1
    (.call 3 { now := 4 } :: List.replicate 8 (.call 2 {}))).get (by decide)

def sampleFlood : List LogLine := List.replicate subChannelBuffer sampleLine ++ [sampleLateLine]

def sampleFlooded : State × List Event :=
  ((machine sampleConfig).exec (fun _ => receivingNow 2) sampleTailWatched.1
    [.call 2 {}, .reportTaskResult 3 (sampleTailReport sampleFlood), .call 3 {}]).get (by decide)

def sampleFloodAppended : State × List Event :=
  ((machine sampleConfig).step sampleFlooded.1 (.call 3 {})).get (by decide)

def sampleFloodCommitted : State × List Event :=
  ((machine sampleConfig).step sampleFloodAppended.1 (.call 3 { now := 4 })).get (by decide)

end Server

end Minimodal
