import Minimodal.Lib.Assoc
import Minimodal.Server.WatchJob

namespace Minimodal

def JobEvent.isLog : JobEvent → Bool
  | .log _ _ => true
  | _ => false

def logsOf (l : List JobEvent) : List JobEvent := l.filter JobEvent.isLog

@[simp] theorem logsOf_nil : logsOf [] = [] := rfl

@[simp] theorem logsOf_append (l l' : List JobEvent) : logsOf (l ++ l') = logsOf l ++ logsOf l' :=
  List.filter_append ..

@[simp] theorem logsOf_logs (j : String) (lines : List LogLine) :
    logsOf (lines.map (.log j)) = lines.map (.log j) := by
  rw [logsOf, List.filter_eq_self]
  intro ev hev
  obtain ⟨line, -, rfl⟩ := List.mem_map.mp hev
  rfl

theorem logsOf_result {ev : JobEvent} (h : ev.isResult = true) : logsOf [ev] = [] := by
  cases ev with
  | result => rfl
  | _ => simp [JobEvent.isResult] at h

namespace LogSub

theorem send_dropped {sub : LogSub} {ev : JobEvent} (h : (sub.send ev).dropped = 0) :
    sub.dropped = 0 ∧ (sub.send ev).ch = sub.ch ++ [ev] := by
  unfold send at h ⊢
  split at h
  · rename_i hroom
    rw [if_pos hroom]
    exact ⟨h, rfl⟩
  · simp at h

def sendAll (evs : List JobEvent) (sub : LogSub) : LogSub := evs.foldl (fun sub ev => sub.send ev) sub

theorem sendAll_dropped {evs : List JobEvent} {sub : LogSub} (h : (sub.sendAll evs).dropped = 0) :
    sub.dropped = 0 ∧ (sub.sendAll evs).ch = sub.ch ++ evs := by
  induction evs generalizing sub with
  | nil => exact ⟨h, (List.append_nil _).symm⟩
  | cons ev evs ih =>
    obtain ⟨hd, hch⟩ := ih h
    obtain ⟨hd', hch'⟩ := send_dropped hd
    refine ⟨hd', ?_⟩
    rw [sendAll, List.foldl_cons, ← sendAll, hch, hch', List.append_assoc]
    rfl

theorem mem_sendAll {evs : List JobEvent} {sub : LogSub} {e : JobEvent}
    (h : e ∈ (sub.sendAll evs).ch) : e ∈ sub.ch ∨ e ∈ evs := by
  induction evs generalizing sub with
  | nil => exact .inl h
  | cons ev evs ih =>
    rcases ih h with h | h
    · exact (mem_send h).imp_right fun he => by simp [he]
    · exact .inr (List.mem_cons_of_mem _ h)

end LogSub

namespace JobLogState

variable {st st' : JobLogState} {c sub : Nat} {j : String}

theorem lookup_fanOut (ev : JobEvent) :
    (st.fanOut ev).subs.lookup c = (st.subs.lookup c).map (LogSub.send ev) :=
  Lib.lookup_map (LogSub.send ev) st.subs

theorem lookup_appendLine (maxLines : Nat) (line : LogLine) :
    (LogHub.appendLine maxLines j st line).subs.lookup c =
      (st.subs.lookup c).map (LogSub.send (.log j (LogHub.truncate line))) := by
  unfold LogHub.appendLine
  rw [lookup_fanOut]
  split <;> rfl

theorem lookup_take (ht : st.terminal = none) (maxLines : Nat) (lines : List LogLine) :
    (st.take maxLines j lines).subs.lookup c =
      (st.subs.lookup c).map (LogSub.sendAll ((lines.map LogHub.truncate).map (.log j))) := by
  simp only [take, ht, Option.isSome_none, Bool.false_eq_true, if_false]
  induction lines generalizing st with
  | nil =>
    rw [List.foldl_nil]
    cases st.subs.lookup c <;> rfl
  | cons line lines ih =>
    rw [List.foldl_cons, ih ((appendLine_terminal ..).trans ht), lookup_appendLine, Option.map_map]
    rfl

theorem lookup_attach (hc : c ≠ sub) : (st.attach sub).subs.lookup c = st.subs.lookup c := by
  simp [attach, Lib.lookup_cons_eq_ite, hc]

theorem lookup_attach_self : (st.attach sub).subs.lookup sub = some {} := by
  simp [attach]

theorem detach_other (hc : c ≠ sub) {x : LogSub} (hx : st.subs.lookup c = some x) :
    ∃ st', st.detach sub = some st' ∧ st'.terminal = st.terminal ∧
      st'.subs.lookup c = some x := by
  have hlook : (st.subs.filter fun y => y.1 != sub).lookup c = some x :=
    (Lib.lookup_filter hc st.subs).trans hx
  refine ⟨{ st with subs := st.subs.filter fun y => y.1 != sub }, ?_, rfl, hlook⟩
  simp only [detach]
  rw [if_neg]
  simp only [Bool.and_eq_true, not_and, List.isEmpty_iff]
  intro _ hnil
  simp [hnil] at hlook

theorem advance_other (hc : c ≠ sub) : (st.advance sub).subs.lookup c = st.subs.lookup c := by
  unfold advance
  split
  · exact Lib.lookup_set_ne hc st.subs
  · rfl

theorem advance_self {ev : JobEvent} {rest : List JobEvent} {dropped : Nat}
    (h : st.subs.lookup sub = some ⟨ev :: rest, dropped⟩) :
    (st.advance sub).subs.lookup sub = some ⟨rest, dropped⟩ := by
  unfold advance
  rw [h]
  exact Lib.lookup_set_self h

end JobLogState

namespace Server

/-- The events `l` contain the lines appended before the end of the job, in order and each once,
followed at most by lines appended later. -/
structure Delivered (x : Lines) (m : Mem) (j : String) (l : List JobEvent) : Prop where
  finished : m.store.finished j = true
  all : (x.before j).map (.log j) <+: logsOf l
  order : logsOf l <+: (x.before j ++ x.after j).map (.log j)

/-- The mailbox of a watcher goes on where the events `l` end. -/
structure Mailbox (x : Lines) (j : String) (l : List JobEvent) (st : JobLogState) (sub : LogSub) :
    Prop where
  all : sub.dropped = 0 → (x.before j).map (.log j) <+: logsOf (l ++ sub.ch)
  order : sub.dropped = 0 → logsOf (l ++ sub.ch) <+: (x.before j ++ x.after j).map (.log j)
  exact : sub.dropped = 0 → st.terminal = none →
    logsOf (l ++ sub.ch) = (x.before j ++ x.after j).map (.log j)
  quiet : st.terminal = none → ∀ ev ∈ sub.ch, ev.isResult = false
  last : ∀ ev ∈ sub.ch.dropLast, ev.isResult = false

def Attached (x : Lines) (m : Mem) (call : Nat) (j : String) (l : List JobEvent) : Prop :=
  ∃ st sub, m.logHub.jobs[j]? = some st ∧ st.subs.lookup call = some sub ∧ Mailbox x j l st sub

namespace Mailbox

variable {x : Lines} {j : String} {l : List JobEvent} {st st' : JobLogState} {sub : LogSub}

theorem frame (h : Mailbox x j l st sub) (ht : st'.terminal = st.terminal) :
    Mailbox x j l st' sub :=
  ⟨h.all, h.order, fun hd hn => h.exact hd (ht ▸ hn), fun hn => h.quiet (ht ▸ hn), h.last⟩

theorem congr {x' : Lines} (h : Mailbox x j l st sub) (hbefore : x'.before j = x.before j)
    (hafter : x'.after j = x.after j) : Mailbox x' j l st sub := by
  constructor
  · exact hbefore ▸ h.all
  · exact hbefore ▸ hafter ▸ h.order
  · exact hbefore ▸ hafter ▸ h.exact
  · exact h.quiet
  · exact h.last

theorem skip (h : Mailbox x j l st sub) {ev : JobEvent} (hev : ev.isLog = false) :
    Mailbox x j (l ++ [ev]) st sub := by
  have hl : logsOf (l ++ [ev] ++ sub.ch) = logsOf (l ++ sub.ch) := by
    simp [logsOf, hev]
  exact ⟨fun hd => hl ▸ h.all hd, fun hd => hl ▸ h.order hd, fun hd hn => hl ▸ h.exact hd hn,
    h.quiet, h.last⟩

theorem append (h : Mailbox x j l st sub) (ht : st.terminal = none) {finished : Bool}
    (hopen : finished = false → x.after j = []) (lines : List LogLine) :
    Mailbox (x.append finished j lines) j l st'
      (sub.sendAll ((lines.map LogHub.truncate).map (.log j))) := by
  have hlines : ((x.append finished j lines).before j ++ (x.append finished j lines).after j) =
      x.before j ++ x.after j ++ lines.map LogHub.truncate := by
    rw [Lines.before_append, Lines.after_append]
    cases finished with
    | true => simp
    | false => simp [hopen rfl]
  have hexact : (sub.sendAll ((lines.map LogHub.truncate).map (.log j))).dropped = 0 →
      logsOf (l ++ (sub.sendAll ((lines.map LogHub.truncate).map (.log j))).ch) =
        ((x.append finished j lines).before j ++ (x.append finished j lines).after j).map
          (.log j) := by
    intro hd
    obtain ⟨hd', hch⟩ := LogSub.sendAll_dropped hd
    rw [hch, hlines, ← List.append_assoc, logsOf_append, h.exact hd' ht, logsOf_logs]
    simp only [List.map_append]
  have hquiet : ∀ ev ∈ (sub.sendAll ((lines.map LogHub.truncate).map (.log j))).ch,
      ev.isResult = false := by
    intro ev hev
    rcases LogSub.mem_sendAll hev with hev | hev
    · exact h.quiet ht ev hev
    · obtain ⟨line, -, rfl⟩ := List.mem_map.mp hev
      rfl
  refine ⟨fun hd => ?_, fun hd => ?_, fun hd _ => hexact hd, fun _ => hquiet,
    fun ev hev => hquiet ev (List.mem_of_mem_dropLast hev)⟩
  · rw [hexact hd, List.map_append]
    exact List.prefix_append ..
  · rw [hexact hd]

theorem late (h : Mailbox x j l st sub) (ht : st.terminal.isSome = true) (lines : List LogLine) :
    Mailbox (x.append true j lines) j l st sub := by
  have hbefore : (x.append true j lines).before j = x.before j := by
    simp [Lines.before_append]
  have hafter : (x.append true j lines).after j = x.after j ++ lines.map LogHub.truncate := by
    simp [Lines.after_append]
  refine ⟨fun hd => hbefore ▸ h.all hd, fun hd => ?_, ?_, h.quiet, h.last⟩
  · rw [hbefore, hafter, ← List.append_assoc, List.map_append]
    exact (h.order hd).trans (List.prefix_append ..)
  · intro _ hn
    simp [hn] at ht

theorem close (h : Mailbox x j l st sub) (ht : st.terminal = none) {result : JobEvent}
    (hres : result.isResult = true) (ht' : st'.terminal.isSome = true) :
    Mailbox x j l st' (sub.send result) := by
  have hlogs : (sub.send result).dropped = 0 →
      sub.dropped = 0 ∧ logsOf (l ++ (sub.send result).ch) = logsOf (l ++ sub.ch) := by
    intro hd
    obtain ⟨hd', hch⟩ := LogSub.send_dropped hd
    refine ⟨hd', ?_⟩
    rw [hch, ← List.append_assoc, logsOf_append, logsOf_result hres, List.append_nil]
  have hopen : st'.terminal ≠ none := fun hn => by simp [hn] at ht'
  refine ⟨fun hd => ?_, fun hd => ?_, fun _ hn => absurd hn hopen, fun hn => absurd hn hopen, ?_⟩
  · rw [(hlogs hd).2]
    exact h.all (hlogs hd).1
  · rw [(hlogs hd).2]
    exact h.order (hlogs hd).1
  · intro ev hev
    refine h.quiet ht ev ?_
    unfold LogSub.send at hev
    split at hev
    · simpa using hev
    · exact List.mem_of_mem_dropLast hev

theorem advance {ev : JobEvent} {rest : List JobEvent} {dropped : Nat}
    (h : Mailbox x j l st ⟨ev :: rest, dropped⟩) (ht : st'.terminal = st.terminal) :
    Mailbox x j (l ++ [ev]) st' ⟨rest, dropped⟩ := by
  have hl : l ++ [ev] ++ rest = l ++ ev :: rest := by simp
  refine ⟨fun hd => hl ▸ h.all hd, fun hd => hl ▸ h.order hd, fun hd hn => hl ▸ h.exact hd (ht ▸ hn),
    fun hn e he => h.quiet (ht ▸ hn) e (List.mem_cons_of_mem _ he), ?_⟩
  intro e he
  refine h.last e ?_
  rw [List.dropLast_cons_of_ne_nil]
  · exact List.mem_cons_of_mem _ he
  · rintro rfl
    simp at he

end Mailbox

variable {cfg : Config} {s t : State} {a : Action} {es : List Event} {call : Nat} {j : String}
  {x : Lines} {l : List JobEvent} {ch : Choice}

theorem Delivered.step (h : Delivered x s.mem j l) (hk : Kept s.mem.store t.mem.store)
    (hstart : a ≠ .start) (hcrash : a ≠ .crash) : Delivered (x.observe s a es) t.mem j l := by
  have hlines : (x.observe s a es).before j = x.before j ∧
      x.after j <+: (x.observe s a es).after j := by
    by_cases happ : ∃ c ch k lines, a = .call c ch ∧ (s.calls c).appends = some (k, lines)
    · obtain ⟨c, ch, k, lines, rfl, happ⟩ := happ
      rw [Lines.observe_append happ, Lines.before_append, Lines.after_append]
      refine ⟨if_neg ?_, ?_⟩
      · rintro ⟨rfl, hopen⟩
        simp [h.finished] at hopen
      · split
        · exact List.prefix_append ..
        · exact List.prefix_rfl
    · rw [Lines.observe_same hstart hcrash]
      · exact ⟨rfl, List.prefix_rfl⟩
      · intro c ch ha
        cases hap : (s.calls c).appends with
        | none => rfl
        | some p => exact absurd ⟨c, ch, p.1, p.2, ha, hap⟩ happ
  obtain ⟨hbefore, suffix, hafter⟩ := hlines
  refine ⟨hk.finished h.finished, hbefore ▸ h.all, h.order.trans ?_⟩
  rw [hbefore, ← hafter, ← List.append_assoc]
  exact (List.prefix_append _ _).map _

inductive Posts (s : State) (a : Action) (j : String) (st : JobLogState) (sub : LogSub) :
    JobLogState → LogSub → Prop
  | same {st'} : st'.terminal = st.terminal →
      (∀ c ch lines, a = .call c ch → (s.calls c).appends = some (j, lines) →
        lines = [] ∨ st.terminal.isSome = true) → Posts s a j st sub st' sub
  | append {c ch lines st'} : a = .call c ch → (s.calls c).appends = some (j, lines) →
      st.terminal = none → st'.terminal = none →
      Posts s a j st sub st' (sub.sendAll ((lines.map LogHub.truncate).map (.log j)))
  | finish {rec st'} : (∀ c ch, a = .call c ch → (s.calls c).appends = none) →
      st.terminal = none → st'.terminal.isSome = true →
      Posts s a j st sub st' (sub.send (jobResultEvent rec))

theorem Posts.quiet {st st' : JobLogState} {sub : LogSub} (hterm : st'.terminal = st.terminal)
    (happ : ∀ c ch, a = .call c ch → (s.calls c).appends = none) : Posts s a j st sub st' sub := by
  refine .same hterm fun c ch lines hac hlines => ?_
  simp [happ c ch hac] at hlines

theorem HubMove.posts {logHub : LogHub} (hmove : HubMove s a logHub)
    (ha : ∀ ch, a ≠ .call call ch) {st : JobLogState} {sub : LogSub}
    (hst : s.mem.logHub.jobs[j]? = some st) (hsub : st.subs.lookup call = some sub) :
    ∃ st' sub', logHub.jobs[j]? = some st' ∧ st'.subs.lookup call = some sub' ∧
      Posts s a j st sub st' sub' := by
  have hget : s.mem.logHub.get j = st := by simp [LogHub.get_eq, hst]
  cases hmove with
  | same happ =>
    exact ⟨st, sub, hst, hsub, .quiet rfl happ⟩
  | @append c ch k lines happ =>
    by_cases hk : k = j ∧ lines ≠ []
    · obtain ⟨rfl, hne⟩ := hk
      refine ⟨st.take s.mem.logHub.maxLines k lines, ?_⟩
      have hst' : (s.mem.logHub.append k lines).jobs[k]? =
          some (st.take s.mem.logHub.maxLines k lines) := by
        rw [LogHub.jobs_append, if_pos ⟨rfl, hne⟩, hget]
      cases ht : st.terminal with
      | none =>
        refine ⟨_, hst', ?_, .append rfl happ ht ((JobLogState.take_frame ..).1.trans ht)⟩
        rw [JobLogState.lookup_take ht, hsub]
        rfl
      | some ev =>
        have hsome : st.terminal.isSome = true := by simp [ht]
        rw [JobLogState.take, if_pos hsome] at hst' ⊢
        exact ⟨sub, hst', hsub, .same rfl fun _ _ _ _ _ => .inr hsome⟩
    · refine ⟨st, sub, ?_, hsub, .same rfl ?_⟩
      · rw [LogHub.jobs_append, if_neg hk, hst]
      · rintro _ _ lines' ⟨⟩ happ'
        rw [happ, Option.some.injEq, Prod.mk.injEq] at happ'
        obtain ⟨rfl, rfl⟩ := happ'
        exact .inl (by simpa using hk)
  | @finish _ k rec happ hfin =>
    by_cases hk : k = j
    · subst hk
      have hst' : (s.mem.logHub.finish k (jobResultEvent rec)).jobs[k]? =
          st.close (jobResultEvent rec) := by
        rw [LogHub.jobs_finish, if_pos rfl, hst]
        rfl
      cases ht : st.terminal with
      | some ev =>
        rw [JobLogState.close, if_pos (by simp [ht])] at hst'
        exact ⟨st, sub, hst', hsub, .quiet rfl happ⟩
      | none =>
        have hlook : ({ st with terminal := some (jobResultEvent rec) }.fanOut
            (jobResultEvent rec)).subs.lookup call = some (sub.send (jobResultEvent rec)) := by
          rw [JobLogState.lookup_fanOut, hsub]
          rfl
        refine ⟨_, _, ?_, hlook, .finish happ ht rfl⟩
        rw [hst', JobLogState.close, if_neg (by simp [ht])]
        refine if_neg fun hempty => ?_
        rw [List.isEmpty_iff.mp hempty] at hlook
        simp at hlook
    · exact ⟨st, sub, by rw [LogHub.jobs_finish, if_neg hk, hst], hsub, .quiet rfl happ⟩
  | @subscribe c ch k lastStatus hc =>
    have hne : call ≠ c := fun he => ha ch (he ▸ rfl)
    have happ : ∀ d ch', Action.call c ch = .call d ch' → (s.calls d).appends = none := by
      rintro _ _ ⟨⟩
      rw [hc]
      rfl
    by_cases hk : k = j
    · refine ⟨st.attach c, sub, ?_, (JobLogState.lookup_attach hne).trans hsub, .quiet rfl happ⟩
      rw [LogHub.jobs_subscribe, if_pos hk, hget]
    · exact ⟨st, sub, by rw [LogHub.jobs_subscribe, if_neg hk, hst], hsub, .quiet rfl happ⟩
  | @unsubscribe c ch k hc =>
    have hne : call ≠ c := fun he => ha ch (he ▸ rfl)
    have happ : ∀ d ch', Action.call c ch = .call d ch' → (s.calls d).appends = none := by
      rintro _ _ ⟨⟩
      rw [hc]
      rfl
    by_cases hk : k = j
    · obtain ⟨st', hdetach, hterm, hlook⟩ := JobLogState.detach_other hne hsub
      refine ⟨st', sub, ?_, hlook, .quiet hterm happ⟩
      rw [LogHub.jobs_unsubscribe, if_pos hk, hst]
      exact hdetach
    · exact ⟨st, sub, by rw [LogHub.jobs_unsubscribe, if_neg hk, hst], hsub, .quiet rfl happ⟩
  | @receive c ch k ev _ hrecv happ =>
    have hne : call ≠ c := fun he => ha ch (he ▸ rfl)
    have happ' : ∀ d ch', Action.call c ch = .call d ch' → (s.calls d).appends = none := by
      rintro _ _ ⟨⟩
      exact happ
    by_cases hk : k = j
    · refine ⟨st.advance c, sub, ?_, (JobLogState.advance_other hne).trans hsub,
        .quiet (JobLogState.advance_frame ..).1 happ'⟩
      rw [(LogHub.receive_some hrecv).2, if_pos hk, hget]
    · exact ⟨st, sub, by rw [(LogHub.receive_some hrecv).2, if_neg hk, hst], hsub,
        .quiet rfl happ'⟩

theorem Mailbox.observe {st st' : JobLogState} {sub : LogSub} (h : Mailbox x j l st sub)
    (hterm : st'.terminal = st.terminal)
    (hquiet : ∀ c ch lines, a = .call c ch → (s.calls c).appends = some (j, lines) →
      lines = [] ∨ st.terminal.isSome = true)
    (hopen : s.mem.store.finished j = false → st.terminal = none) (hstart : a ≠ .start)
    (hcrash : a ≠ .crash) : Mailbox (x.observe s a es) j l st' sub := by
  by_cases happ : ∃ c ch k lines, a = .call c ch ∧ (s.calls c).appends = some (k, lines)
  · obtain ⟨c, ch, k, lines, rfl, happ⟩ := happ
    rw [Lines.observe_append happ]
    by_cases hk : k = j ∧ lines ≠ []
    · obtain ⟨rfl, hne⟩ := hk
      have hsome : st.terminal.isSome = true := (hquiet c ch lines rfl happ).resolve_left hne
      have hfin : s.mem.store.finished k = true := by
        cases hf : s.mem.store.finished k with
        | true => rfl
        | false => simp [hopen hf] at hsome
      rw [hfin]
      exact (h.late hsome lines).frame hterm
    · obtain ⟨hbefore, hafter⟩ := x.append_other (s.mem.store.finished k) hk
      exact (h.frame hterm).congr hbefore hafter
  · rw [Lines.observe_same hstart hcrash]
    · exact h.frame hterm
    · intro c ch hac
      cases hap : (s.calls c).appends with
      | none => rfl
      | some p => exact absurd ⟨c, ch, p.1, p.2, hac, hap⟩ happ

theorem Attached.other (h : Attached x s.mem call j l) (hb : Buffered x s)
    (hmove : HubMove s a t.mem.logHub) (ha : ∀ ch, a ≠ .call call ch) (hstart : a ≠ .start)
    (hcrash : a ≠ .crash) : Attached (x.observe s a es) t.mem call j l := by
  obtain ⟨st, sub, hst, hsub, hbox⟩ := h
  obtain ⟨st', sub', hst', hsub', hposts⟩ := hmove.posts ha hst hsub
  have hget : s.mem.logHub.get j = st := by simp [LogHub.get_eq, hst]
  refine ⟨st', sub', hst', hsub', ?_⟩
  cases hposts with
  | same hterm hquiet =>
    exact hbox.observe hterm hquiet (fun hf => hget ▸ hb.terminal j hf) hstart hcrash
  | @append c ch lines _ hac happ ht =>
    subst hac
    rw [Lines.observe_append happ]
    exact hbox.append ht (hb.after j) lines
  | finish happ ht ht' =>
    rw [Lines.observe_same hstart hcrash happ]
    exact hbox.close ht rfl ht'

/-- Where the lines of the job are while the call is at the given point. -/
def Handler.Follows (x : Lines) (m : Mem) (call : Nat) (j : String) (sent : List JobEvent) :
    Handler → Prop
  | .sendEvent _ ev evs .done => Delivered x m j (sent ++ ev :: evs)
  | .sendEvent _ ev evs k =>
    Attached x m call j (sent ++ ev :: evs) ∧ ∀ rec, k = .drain rec → m.store.finished j = true
  | .poll _ _ | .wait _ _ => Attached x m call j sent
  | .drain _ _ => Attached x m call j sent ∧ m.store.finished j = true
  | .unsubscribe _ | .idle => (∃ ev ∈ sent, ev.isResult = true) → Delivered x m j sent
  | _ => False

section Follows

variable {m m' : Mem} {sent : List JobEvent} {h h' : Handler} {stopped refused : Prop}

theorem Handler.follows_sendAll (evs : List JobEvent) {k : WatchNext}
    (hd : k = .done → Delivered x m j (sent ++ evs))
    (ha : k ≠ .done → Attached x m call j (sent ++ evs))
    (hf : ∀ rec, k = .drain rec → m.store.finished j = true) :
    (sendAll j evs k).Follows x m call j sent := by
  cases evs with
  | nil =>
    rw [List.append_nil] at hd ha
    cases k with
    | done => exact fun _ => hd rfl
    | drain rec => exact ⟨ha (by simp), hf rec rfl⟩
    | _ => exact ha (by simp)
  | cons ev evs =>
    cases k with
    | done => exact hd rfl
    | _ => exact ⟨ha (by simp), hf⟩

theorem Handler.Follows.sendEvent {k : String} {ev : JobEvent} {evs : List JobEvent}
    {next : WatchNext} (hs : (Handler.sendEvent k ev evs next).Follows x m call j sent) :
    (next = .done → Delivered x m j (sent ++ ev :: evs)) ∧
      (next ≠ .done → Attached x m call j (sent ++ ev :: evs)) ∧
      ∀ rec, next = .drain rec → m.store.finished j = true := by
  cases next with
  | done => exact ⟨fun _ => hs, fun hne => absurd rfl hne, by simp⟩
  | _ => exact ⟨by simp, fun _ => hs.1, hs.2⟩

theorem Attached.receive {logHub : LogHub} {ev : JobEvent} (h : Attached x m call j sent)
    (hrecv : m.logHub.receive j call = (logHub, some ev)) :
    Attached x { m with logHub } call j (sent ++ [ev]) ∧
      ∃ st rest dropped, m.logHub.jobs[j]? = some st ∧
        st.subs.lookup call = some ⟨ev :: rest, dropped⟩ ∧
        Mailbox x j sent st ⟨ev :: rest, dropped⟩ := by
  obtain ⟨st, sub, hst, hsub, hbox⟩ := h
  obtain ⟨⟨rest, dropped, hlook⟩, hjobs⟩ := LogHub.receive_some hrecv
  have hget : m.logHub.get j = st := by simp [LogHub.get_eq, hst]
  rw [hget, hsub, Option.some.injEq] at hlook
  subst hlook
  refine ⟨⟨st.advance call, ⟨rest, dropped⟩, ?_, JobLogState.advance_self hsub,
    hbox.advance (JobLogState.advance_frame ..).1⟩, st, rest, dropped, hst, hsub, hbox⟩
  simp only [hjobs, if_pos, hget]

theorem Attached.skip (h : Attached x m call j sent) {ev : JobEvent} (hev : ev.isLog = false) :
    Attached x m call j (sent ++ [ev]) := by
  obtain ⟨st, sub, hst, hsub, hbox⟩ := h
  exact ⟨st, sub, hst, hsub, hbox.skip hev⟩

def Roomy (m : Mem) (call : Nat) (j : String) : Prop :=
  ∀ (st : JobLogState) sub, m.logHub.jobs[j]? = some st → st.subs.lookup call = some sub →
    sub.dropped = 0

theorem Mailbox.result {ev : JobEvent} {rest : List JobEvent} {dropped : Nat} {st : JobLogState}
    (h : Mailbox x j sent st ⟨ev :: rest, dropped⟩) (hd : dropped = 0) (hev : ev.isResult = true)
    (hopen : m.store.finished j = false → st.terminal = none) :
    Delivered x m j (sent ++ [ev]) := by
  have hrest : rest = [] := by
    by_contra hne
    have := h.last ev (by simp [List.dropLast_cons_of_ne_nil hne])
    simp [hev] at this
  subst hrest
  refine ⟨?_, h.all hd, h.order hd⟩
  cases hf : m.store.finished j with
  | true => rfl
  | false =>
    have := h.quiet (hopen hf) ev (by simp)
    simp [hev] at this

theorem Attached.drained {rec : JobRecord} (h : Attached x m call j sent) (hroom : Roomy m call j)
    (hf : m.store.finished j = true) (hnone : (m.logHub.receive j call).2 = none) :
    Delivered x m j (sent ++ [jobResultEvent rec]) := by
  obtain ⟨st, sub, hst, hsub, hbox⟩ := h
  have hget : m.logHub.get j = st := by simp [LogHub.get_eq, hst]
  have hd := hroom st sub hst hsub
  have hempty : sub.ch = [] := by
    cases hch : sub.ch with
    | nil => rfl
    | cons ev rest =>
      have hlook : (m.logHub.get j).subs.lookup call = some ⟨ev :: rest, sub.dropped⟩ := by
        rw [hget, hsub, ← hch]
      simp [LogHub.receive, hlook] at hnone
  have hlogs : logsOf (sent ++ [jobResultEvent rec]) = logsOf (sent ++ sub.ch) := by
    rw [logsOf_append, logsOf_result rfl, hempty, logsOf_append, logsOf_nil]
  exact ⟨hf, hlogs ▸ hbox.all hd, hlogs ▸ hbox.order hd⟩

theorem Attached.taken {logHub : LogHub} {ev : JobEvent} (h : Attached x m call j sent)
    (hroom : Roomy m call j) (hterm : m.store.finished j = false → (m.logHub.get j).terminal = none)
    (hrecv : m.logHub.receive j call = (logHub, some ev)) (hev : ev.isResult = true) :
    Delivered x { m with logHub } j (sent ++ [ev]) := by
  obtain ⟨-, st, rest, dropped, hst, hsub, hbox⟩ := h.receive hrecv
  have hget : m.logHub.get j = st := by simp [LogHub.get_eq, hst]
  exact hbox.result (m := { m with logHub }) (hroom st _ hst hsub) hev fun hf => hget ▸ hterm hf

theorem Handler.Follows.step (hfol : h.Follows x m call j sent)
    (hs : h.Streams j stopped refused sent) (hm : Handler.Moves m ch call h m' h' es)
    (hterm : m.store.finished j = false → (m.logHub.get j).terminal = none)
    (hroom : Roomy m call j) : h'.Follows x m' call j (sent ++ watchedBy call es) := by
  have hquiet : ∀ l, (sent = [] ∨ Opened j sent) → (∃ ev ∈ sent, ev.isResult = true) →
      Delivered x m j l := by
    rintro l hopen ⟨ev, hev, hres⟩
    rcases hopen with rfl | hopen
    · simp at hev
    · simp [hopen.no_result ev hev] at hres
  cases hm with
  | aloof ha _ _ _ hend =>
    cases h <;> first | exact hfol.elim | simp [Handler.aloof] at ha; done | simp [Handler.ending] at hend
  | @sent k ev evs next =>
    obtain ⟨rfl, -, -⟩ := hs.sendEvent
    obtain ⟨hd, ha, hf⟩ := hfol.sendEvent
    simp only [watchedBy, List.filterMap_cons, if_true, List.filterMap_nil]
    refine Handler.follows_sendAll evs (fun he => ?_) (fun hne => ?_) hf
    · simpa using hd he
    · simpa using ha hne
  | @sendError k ev evs next =>
    obtain ⟨-, hd, ho⟩ := hs.sendEvent
    rw [watchedBy_nil, List.append_nil]
    refine hquiet _ ?_
    by_cases hk : next = .done
    · exact (hd hk).front
    · exact (ho hk).front
  | pollTerminal hget ht =>
    obtain ⟨rfl, -⟩ : _ ∧ _ := hs
    rw [watchedBy_nil, List.append_nil]
    exact ⟨hfol, BoltStore.finished_iff.mpr ⟨_, hget, ht⟩⟩
  | pollStatus =>
    rw [watchedBy_nil, List.append_nil]
    exact ⟨Attached.skip hfol rfl, by simp⟩
  | pollSame | waitTick =>
    rw [watchedBy_nil, List.append_nil]
    exact hfol
  | waitDone =>
    rw [watchedBy_nil, List.append_nil]
    exact hquiet _ (.inr hs.2)
  | @waitEvent k lastStatus ev logHub hrecv =>
    obtain ⟨rfl, -⟩ : k = j ∧ _ := hs
    rw [watchedBy_nil, List.append_nil]
    refine Handler.follows_sendAll [ev] ?_ ?_ ?_
    · cases hev : ev.isResult with
      | true => exact fun _ => Attached.taken hfol hroom hterm hrecv hev
      | false => simp
    · exact fun _ => (Attached.receive hfol hrecv).1
    · cases hev : ev.isResult <;> simp
  | @drainEvent k rec ev logHub hrecv =>
    obtain ⟨rfl, -⟩ : k = j ∧ _ := hs
    rw [watchedBy_nil, List.append_nil]
    refine Handler.follows_sendAll [ev] ?_ ?_ ?_
    · cases hev : ev.isResult with
      | true => exact fun _ => hfol.1.taken hroom hterm hrecv hev
      | false => simp
    · exact fun _ => (hfol.1.receive hrecv).1
    · exact fun _ _ => hfol.2
  | @drained k rec hnone =>
    obtain ⟨rfl, -⟩ : k = j ∧ _ := hs
    rw [watchedBy_nil, List.append_nil]
    exact hfol.1.drained hroom hfol.2 hnone
  | unsubscribe =>
    rw [watchedBy_nil, List.append_nil]
    intro hres
    have hd : Delivered x m j sent := hfol hres
    exact ⟨hd.finished, hd.all, hd.order⟩
  | _ => exact hfol.elim

theorem Handler.Follows.appends (hfol : h.Follows x m call j sent) : h.appends = none := by
  cases h <;> first | rfl | exact hfol.elim

theorem Handler.Follows.other (hfol : h.Follows x s.mem call j sent) (hb : Buffered x s)
    (hk : Kept s.mem.store t.mem.store) (hmove : HubMove s a t.mem.logHub)
    (ha : ∀ ch, a ≠ .call call ch) (hstart : a ≠ .start) (hcrash : a ≠ .crash) :
    h.Follows (x.observe s a es) t.mem call j sent := by
  cases h with
  | sendEvent k ev evs next =>
    cases next with
    | done => exact Delivered.step hfol hk hstart hcrash
    | _ =>
      exact ⟨hfol.1.other hb hmove ha hstart hcrash, fun rec he => hk.finished (hfol.2 rec he)⟩
  | poll | wait => exact Attached.other hfol hb hmove ha hstart hcrash
  | drain => exact ⟨hfol.1.other hb hmove ha hstart hcrash, hk.finished hfol.2⟩
  | unsubscribe | idle => exact fun hres => Delivered.step (hfol hres) hk hstart hcrash
  | _ => exact hfol.elim

theorem Handler.follows_of_subscribe {lastStatus : JobStatus} {h' : Handler}
    (hm : Handler.Moves s.mem ch call (.subscribe j lastStatus) m' h' es) (hb : Buffered x s)
    (hopen : s.mem.store.finished j = false) (hd : (s.mem.logHub.get j).dropped = 0) :
    h'.Follows x m' call j [] ∧ es = [] := by
  cases hm with
  | aloof ha => simp [Handler.aloof] at ha
  | subscribe =>
    have ht := hb.terminal j hopen
    rw [ht, Option.isSome_none, if_neg (by simp)]
    refine ⟨⟨⟨(s.mem.logHub.get j).attach call, {}, ?_, JobLogState.lookup_attach_self, ?_⟩,
      by simp⟩, rfl⟩
    · rw [LogHub.jobs_subscribe, if_pos rfl]
    · have hlogs : logsOf (([] : List JobEvent) ++ JobEvent.status j lastStatus ::
          ((s.mem.logHub.get j).lines.map (JobEvent.log j) ++ Option.toList none) ++ []) =
          (x.before j).map (JobEvent.log j) := by
        rw [hb.lines j hopen hd]
        simp [logsOf, JobEvent.isLog]
      have hafter := hb.after j hopen
      refine ⟨fun _ => ?_, fun _ => ?_, fun _ _ => ?_, by simp, by simp⟩
      · rw [hlogs]
      · rw [hlogs, hafter, List.append_nil]
      · rw [hlogs, hafter, List.append_nil]

end Follows

/-- The call keeps its number, the process stays up and the call's mailbox does not overflow. -/
def roomy (call : Nat) (j : String) (y : State × Lines) (a : Action) : Prop :=
  undisturbed call y.1 a ∧ Roomy y.1.mem call j

theorem follows_of_run {as bs : List Action} {e fs : List Event} {y z : State × Lines}
    {lastStatus : JobStatus} (hs : (logged cfg).Run Lib.Machine.Always (init, {}) as es (s, x))
    (hcall : s.calls call = .subscribe j lastStatus) (hopen : s.mem.store.finished j = false)
    (hd : (s.mem.logHub.get j).dropped = 0)
    (hst : (logged cfg).step (s, x) (.call call ch) = some (y, e))
    (hrun : (logged cfg).Run (roomy call j) y bs fs z) :
    (z.1.calls call).Follows z.2 z.1.mem call j (watchedBy call fs) ∧
      (z.1.calls call).Streams j True True (watchedBy call fs) := by
  induction hrun with
  | refl =>
    obtain ⟨-, -, hb⟩ := buffered_of_run hs
    obtain ⟨hstep, hy⟩ := Lib.Machine.record_step.mp hst
    have hm := moves_of_call hstep
    simp only [hcall] at hm
    have hx : y.2 = x := by simpa [Lines.observe, hcall, Handler.appends] using hy
    rw [hx]
    have hstreams : (Handler.subscribe j lastStatus).Streams j True True [] := ⟨rfl, rfl⟩
    have hnext := hstreams.step hm (fun ev hev => hb.result j ev hev)
    obtain ⟨hfol, rfl⟩ := Handler.follows_of_subscribe hm hb hopen hd
    exact ⟨hfol, hnext.mono (fun _ => trivial) fun _ => trivial⟩
  | @tail bs fs u a v e' hprev hok hstep ih =>
    obtain ⟨hfol, hstreams⟩ := ih
    have hreach := (hs.tail trivial hst).trans (hprev.mono fun _ _ _ => trivial)
    obtain ⟨hi, hf, hb⟩ := buffered_of_run hreach
    obtain ⟨hstep, hv⟩ := Lib.Machine.record_step.mp hstep
    have hk := (hi.step (stepped_of_step hstep)).2
    obtain ⟨hu, hroom⟩ := hok
    rw [watchedBy_append]
    rcases step_of_call hstep hu with ⟨ch', rfl, hm⟩ | ⟨hne, hcalls, hnone⟩
    · have hx : v.2 = u.2 := by simpa [Lines.observe, hfol.appends] using hv
      rw [hx]
      exact ⟨hfol.step hstreams hm (hb.terminal j) hroom,
        (hstreams.step hm fun ev hev => hb.result j ev hev).mono (fun _ => trivial) fun _ => trivial⟩
    · rw [hcalls, hnone, List.append_nil, hv]
      exact ⟨hfol.other hb hk (hubMove_of_step hf hu.2.1 hu.2.2 hstep) hne hu.2.1 hu.2.2, hstreams⟩

theorem Handler.Streams.shape {h : Handler} {stopped refused : Prop} {sent : List JobEvent}
    (hs : h.Streams j stopped refused sent) : sent = [] ∨ Opened j sent ∨ Closed j sent := by
  cases h with
  | refuse => exact .inl hs
  | loadWatch | subscribe => exact .inl hs.2
  | sendEvent k ev evs next =>
    obtain ⟨-, hd, ho⟩ := hs.sendEvent
    by_cases hk : next = .done
    · exact (hd hk).front.imp_right .inl
    · exact (ho hk).front.imp_right .inl
  | poll | wait | drain => exact .inr (.inl hs.2)
  | unsubscribe => grind [Handler.Streams]
  | idle => grind [Handler.Streams]
  | _ => exact hs.elim

theorem Handler.Follows.delivered {h : Handler} {m : Mem} {stopped refused : Prop}
    {sent : List JobEvent} (hfol : h.Follows x m call j sent)
    (hs : h.Streams j stopped refused sent) (hres : ∃ ev ∈ sent, ev.isResult = true) :
    Delivered x m j sent := by
  obtain ⟨ev, hev, hr⟩ := id hres
  have hopen : ¬ (sent = [] ∨ Opened j sent) := by
    rintro (rfl | hopen)
    · simp at hev
    · simp [hopen.no_result ev hev] at hr
  cases h with
  | unsubscribe | idle => exact hfol hres
  | sendEvent k _ _ next =>
    obtain ⟨-, hd, ho⟩ := hs.sendEvent
    by_cases hk : next = .done
    · exact absurd (hd hk).front hopen
    · exact absurd (ho hk).front hopen
  | poll | wait | drain => exact absurd (.inr hs.2) hopen
  | _ => exact hfol.elim

theorem run_of_logged {as : List Action} {y z : State × Lines}
    (h : (logged cfg).Run Lib.Machine.Always y as es z) :
    (machine cfg).Run Lib.Machine.Always y.1 as es z.1 :=
  Lib.Machine.Run.of_record h

/-- The stream of a `WatchJob` call starts with a status event and ends with one result, unless
a send fails, the client leaves or the call is refused; and when it has subscribed before the
job ended and its mailbox did not overflow, the lines appended until then are all there, each
once and in order, before the result. -/
theorem watchJob_streams (cfg : Config) {as : List Action} {es : List Event} {s : State} {x : Lines}
    (hs : (logged cfg).Run Lib.Machine.Always (init, {}) as es (s, x)) (call : Nat) (j : String) :
    (∀ t e bs fs u, (machine cfg).step s (.watchJob call j) = some (t, e) →
      (machine cfg).Run (undisturbed call) t bs fs u →
      (watchedBy call fs = [] ∨ Opened j (watchedBy call fs) ∨ Closed j (watchedBy call fs)) ∧
      (u.calls call = .idle → (∀ ch, .call call ch ∈ bs → ch.stop = false) →
        Closed j (watchedBy call fs) ∨
          (∃ st, .refused call st ∈ fs ∧ TurnsDown s call j bs st) ∧ watchedBy call fs = [])) ∧
    (∀ lastStatus ch y e bs fs z, s.calls call = .subscribe j lastStatus →
      s.mem.store.finished j = false → (s.mem.logHub.get j).dropped = 0 →
      (logged cfg).step (s, x) (.call call ch) = some (y, e) →
      (logged cfg).Run (roomy call j) y bs fs z →
      (∃ ev ∈ watchedBy call fs, ev.isResult = true) →
      Closed j (watchedBy call fs) ∧
        (z.2.before j).map (.log j) <+: logsOf (watchedBy call fs) ∧
        logsOf (watchedBy call fs) <+: (z.2.before j ++ z.2.after j).map (.log j)) := by
  constructor
  · intro t e bs fs u hst hrun
    have hstreams := (streams_of_run (run_of_logged hs) hst hrun).1
    refine ⟨hstreams.shape, fun hidle hgo => ?_⟩
    rw [hidle] at hstreams
    rcases hstreams with hclosed | ⟨⟨ch, hmem, hstop⟩, -⟩ | hrefused
    · exact .inl hclosed
    · simp [hgo ch hmem] at hstop
    · exact .inr hrefused
  · intro lastStatus ch y e bs fs z hcall hopen hd hst hrun hres
    obtain ⟨hfol, hstreams⟩ := follows_of_run hs hcall hopen hd hst hrun
    have hdel := hfol.delivered hstreams hres
    obtain ⟨ev, hev, hr⟩ := hres
    refine ⟨?_, hdel.all, hdel.order⟩
    rcases hstreams.shape with hnil | hopen | hclosed
    · simp [hnil] at hev
    · simp [hopen.no_result ev hev] at hr
    · exact hclosed

def undisturbedNow (call : Nat) : Action → Bool
  | .start | .crash => false
  | a => a.starts != some call

theorem undisturbed_of_undisturbedNow {a : Action} (h : undisturbedNow call a = true) :
    undisturbed call s a := by
  cases a <;> simp_all [undisturbedNow, undisturbed, Action.starts]

def roomyNow (call : Nat) (j : String) (y : State × Lines) (a : Action) : Bool :=
  undisturbedNow call a && (y.1.mem.logHub.jobs[j]?).all fun st =>
    (st.subs.lookup call).all fun sub => sub.dropped == 0

theorem roomy_of_roomyNow {y : State × Lines} {a : Action} (h : roomyNow call j y a = true) :
    roomy call j y a := by
  simp only [roomyNow, Bool.and_eq_true] at h
  refine ⟨undisturbed_of_undisturbedNow h.1, fun st sub hst hsub => ?_⟩
  simpa [hst, hsub] using h.2

def sampleLateLine : LogLine where
  line := [105]
  isStderr := true
  tsUnixMs := 6

def sampleWatching : (State × Lines) × List Event :=
  ((logged sampleConfig).exec (fun _ _ => true) (init, {})
    (sampleSubmit ++ sampleDispatch ++
      ([.streamTaskLogs 1, .call 1 { chunk := some ⟨"j", [sampleLine]⟩ }, .call 1 {}, .call 1 {},
        .watchJob 2 "j", .call 2 {}] : List Action))).get (by decide)

def sampleSubscribed : (State × Lines) × List Event :=
  ((logged sampleConfig).step sampleWatching.1 (.call 2 {})).get (by decide)

def sampleDelivered : (State × Lines) × List Event :=
  ((logged sampleConfig).exec (roomyNow 2 "j") sampleSubscribed.1
    (List.replicate 3 (Action.call 2 {}) ++
      sampleReport 3 4
        { jobID := "j", workerID := "w", success := true, resultBytes := [7],
          tailLines := [sampleLateLine] } ++
      List.replicate 5 (Action.call 2 {}))).get (by decide)

theorem watchJob_streams_sample :
    sampleDelivered.1.2.before "j" = [sampleLine, sampleLateLine] ∧
      Closed "j" (watchedBy 2 sampleDelivered.2) ∧
      (sampleDelivered.1.2.before "j").map (.log "j") <+:
        logsOf (watchedBy 2 sampleDelivered.2) := by
  have hs : (logged sampleConfig).Run Lib.Machine.Always (init, {}) _ sampleWatching.2
      sampleWatching.1 :=
    (Lib.Machine.run_of_exec_get (by decide)).mono fun _ _ _ => trivial
  have hst : (logged sampleConfig).step sampleWatching.1 (.call 2 {}) =
      some (sampleSubscribed.1, sampleSubscribed.2) := (Option.some_get (by decide)).symm
  -- the theorem wants the pair, and unification would run the machine to find it
  rw [← Prod.mk.eta (p := sampleWatching.1)] at hs hst
  have hrun : (logged sampleConfig).Run (roomy 2 "j") sampleSubscribed.1 _ sampleDelivered.2
      sampleDelivered.1 :=
    (Lib.Machine.run_of_exec_get (by decide)).mono fun _ _ => roomy_of_roomyNow
  have hres : ∃ ev ∈ watchedBy 2 sampleDelivered.2, ev.isResult = true :=
    ⟨.result "j" sampleResult, by decide, rfl⟩
  obtain ⟨hclosed, hall, -⟩ := (watchJob_streams sampleConfig hs 2 "j").2 .running {}
    sampleSubscribed.1 sampleSubscribed.2 _ _ _ (by decide) (by decide) (by decide) hst hrun hres
  exact ⟨by decide, hclosed, hall⟩

def sampleServing : State × List Event :=
  ((machine sampleConfig).exec (fun _ _ => true) init [.start, .main {}]).get (by decide)

def sampleUnknown : State × List Event :=
  ((machine sampleConfig).step sampleServing.1 (.watchJob 0 "x")).get (by decide)

def sampleTurnedDown : State × List Event :=
  ((machine sampleConfig).exec (fun _ a => undisturbedNow 0 a) sampleUnknown.1
    [.call 0 {}, .call 0 {}]).get (by decide)

/-- A call for a job that is not there is turned down: it ends by itself without an event. -/
theorem watchJob_unknown_sends_nothing :
    ∃ as es s t e bs fs u, (machine sampleConfig).Run Lib.Machine.Always init as es s ∧
      (machine sampleConfig).step s (.watchJob 0 "x") = some (t, e) ∧
      (machine sampleConfig).Run (undisturbed 0) t bs fs u ∧ u.calls 0 = .idle ∧
      (∀ ch, .call 0 ch ∈ bs → ch.stop = false) ∧
      ¬ ∃ ev ∈ watchedBy 0 fs, ev.isResult = true := by
  have hs : (machine sampleConfig).Run Lib.Machine.Always init _ sampleServing.2 sampleServing.1 :=
    (Lib.Machine.run_of_exec_get (by decide)).mono fun _ _ _ => trivial
  have hst : (machine sampleConfig).step sampleServing.1 (.watchJob 0 "x") =
      some (sampleUnknown.1, sampleUnknown.2) := (Option.some_get (by decide)).symm
  have hrun : (machine sampleConfig).Run (undisturbed 0) sampleUnknown.1 _ sampleTurnedDown.2
      sampleTurnedDown.1 :=
    (Lib.Machine.run_of_exec_get (by decide)).mono fun _ _ => undisturbed_of_undisturbedNow
  refine ⟨_, _, _, _, _, _, _, _, hs, hst, hrun, by decide, ?_, by decide⟩
  simp

end Server

end Minimodal
