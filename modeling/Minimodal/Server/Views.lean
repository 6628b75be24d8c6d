import Minimodal.Lib.Samples
import Minimodal.Server.Delivery

namespace Minimodal

def JobEvent.jobID : JobEvent → String
  | .status j _ | .log j _ | .result j _ => j

def JobEvent.Posts (j : String) : JobEvent → Prop
  | .status _ _ => False
  | .log k _ | .result k _ => k = j

theorem JobEvent.Posts.jobID {j : String} {ev : JobEvent} (h : ev.Posts j) : ev.jobID = j := by
  cases ev with
  | status => exact h.elim
  | log | result => exact h

@[simp] theorem jobResultEvent_jobID (rec : JobRecord) : (jobResultEvent rec).jobID = rec.id := rfl

namespace JobLogState

def About (j : String) (st : JobLogState) : Prop := st.Holds fun ev => ev.Posts j

variable {j : String} {st st' : JobLogState}

theorem About.empty : ({} : JobLogState).About j := Holds.empty

theorem About.take (h : st.About j) (maxLines : Nat) (lines : List LogLine) :
    (st.take maxLines j lines).About j := by
  unfold JobLogState.take
  split
  · exact h
  · clear * - h
    induction lines generalizing st with
    | nil => exact h
    | cons line lines ih =>
      refine ih ?_
      unfold LogHub.appendLine
      refine Holds.fanOut ?_ rfl
      split
      · exact ⟨h.terminal, h.subs⟩
      · exact ⟨h.terminal, h.subs⟩

theorem About.attach (h : st.About j) (sub : Nat) : (st.attach sub).About j := by
  refine ⟨h.terminal, fun x hx => ?_⟩
  rcases List.mem_cons.mp hx with rfl | hx
  · simp
  · exact h.subs x hx

theorem About.detach (h : st.About j) {sub : Nat} (hd : st.detach sub = some st') : st'.About j := by
  unfold JobLogState.detach at hd
  simp only [Option.ite_none_left_eq_some, Option.some.injEq] at hd
  obtain ⟨-, rfl⟩ := hd
  exact ⟨h.terminal, fun x hx => h.subs x (List.mem_of_mem_filter hx)⟩

theorem About.close (h : st.About j) {result : JobEvent} (hres : result.Posts j)
    (hc : st.close result = some st') : st'.About j := by
  unfold JobLogState.close at hc
  split at hc
  · obtain rfl := Option.some.inj hc
    exact h
  · simp only [Option.ite_none_left_eq_some, Option.some.injEq] at hc
    obtain ⟨-, rfl⟩ := hc
    have hclosed : { st with terminal := some result }.About j := by
      refine ⟨?_, h.subs⟩
      rintro ev ⟨⟩
      exact hres
    exact hclosed.fanOut hres

theorem mem_of_lookup {sub : Nat} {x : LogSub} (h : st.subs.lookup sub = some x) :
    (sub, x) ∈ st.subs := by
  obtain ⟨l, l', hsubs, -⟩ := List.lookup_eq_some_iff.mp h
  simp [hsubs]

theorem About.advance (h : st.About j) (sub : Nat) : (st.advance sub).About j := by
  unfold JobLogState.advance
  split
  · rename_i ev rest dropped hlook
    refine ⟨h.terminal, fun x hx e he => ?_⟩
    obtain ⟨y, hy, rfl⟩ := List.mem_map.mp hx
    split at he
    · exact h.subs _ (mem_of_lookup hlook) e (List.mem_cons_of_mem _ he)
    · exact h.subs y hy e he
  · exact h

end JobLogState

namespace LogHub

def Addressed (h : LogHub) : Prop := ∀ (j : String) st, h.jobs[j]? = some st → st.About j

variable {h h' : LogHub} {j : String} {sub : Nat}

theorem Addressed.get (hh : h.Addressed) (j : String) : (h.get j).About j := by
  rw [get_eq]
  cases hst : h.jobs[j]? with
  | none => exact .empty
  | some st => exact hh j st hst

theorem Addressed.new : LogHub.new.Addressed := by
  intro j st hst
  simp [LogHub.new] at hst

theorem Addressed.append (hh : h.Addressed) (lines : List LogLine) :
    (h.append j lines).Addressed := by
  intro k st hst
  rw [jobs_append] at hst
  split at hst
  · rename_i hjk
    obtain rfl := Option.some.inj hst
    rw [hjk.1]
    exact (hh.get k).take _ _
  · exact hh k st hst

theorem Addressed.subscribe (hh : h.Addressed) : (h.subscribe j sub).1.Addressed := by
  intro k st hst
  rw [jobs_subscribe] at hst
  split at hst
  · obtain rfl := Option.some.inj hst
    exact (hh.get k).attach sub
  · exact hh k st hst

theorem Addressed.unsubscribe (hh : h.Addressed) : (h.unsubscribe j sub).Addressed := by
  intro k st hst
  rw [jobs_unsubscribe] at hst
  split at hst
  · obtain ⟨st₀, hst₀, hd⟩ := Option.bind_eq_some_iff.mp hst
    exact (hh k st₀ hst₀).detach hd
  · exact hh k st hst

theorem Addressed.finish (hh : h.Addressed) {result : JobEvent} (hres : result.Posts j) :
    (h.finish j result).Addressed := by
  intro k st hst
  rw [jobs_finish] at hst
  split at hst
  · rename_i hjk
    obtain ⟨st₀, hst₀, hc⟩ := Option.bind_eq_some_iff.mp hst
    exact (hh k st₀ hst₀).close (hjk ▸ hres) hc
  · exact hh k st hst

theorem Addressed.receive (hh : h.Addressed) {ev : JobEvent}
    (hr : h.receive j sub = (h', some ev)) : h'.Addressed ∧ ev.Posts j := by
  obtain ⟨⟨rest, dropped, hlook⟩, hjobs⟩ := receive_some hr
  refine ⟨fun k st hst => ?_, ?_⟩
  · rw [hjobs] at hst
    split at hst
    · obtain rfl := Option.some.inj hst
      exact (hh.get k).advance sub
    · exact hh k st hst
  · exact (hh.get j).subs _ (JobLogState.mem_of_lookup hlook) ev (by simp)

end LogHub

namespace Server

variable {cfg : Config} {s t : State} {a : Action} {es : List Event} {m m' : Mem} {ch : Choice}
  {j : String} {call : Nat}

def Drainer.announcing : Drainer → Option (String × JobRecord)
  | .notify a _ (.finish rec) => some (a.jobID, rec)
  | _ => none

def Detector.announcing : Detector → Option (String × JobRecord)
  | .notify _ jobID (.finish rec) _ _ => some (jobID, rec)
  | _ => none

def Handler.About : Handler → Prop
  | .sendEvent j ev evs k => (∀ e ∈ ev :: evs, e.jobID = j) ∧ ∀ rec, k = .drain rec → rec.id = j
  | .drain j rec => rec.id = j
  | .notify req (.finish rec) => rec.id = req.jobID
  | _ => True

structure Addressed (s : State) : Prop where
  hub : s.mem.logHub.Addressed
  drainer : ∀ j rec, s.drainer.announcing = some (j, rec) → rec.id = j
  detector : ∀ j rec, s.detector.announcing = some (j, rec) → rec.id = j
  calls : ∀ c, (s.calls c).About

theorem NotifyPc.Moves.addressed {jobID : String} {pc : NotifyPc} {next : Option NotifyPc}
    (h : NotifyPc.Moves m ch jobID pc m' next) (hs : m.store.Sound) (hhub : m.logHub.Addressed)
    (hpc : ∀ rec, pc = .finish rec → rec.id = jobID) :
    m'.logHub.Addressed ∧ ∀ rec, next = some (.finish rec) → rec.id = jobID := by
  cases h with
  | load hget =>
    refine ⟨hhub, ?_⟩
    rintro rec ⟨⟩
    exact (hs _ _ hget).keyed
  | skip => exact ⟨hhub, by simp⟩
  | finish => exact ⟨hhub.finish (hpc _ rfl), by simp⟩

theorem Drainer.return_announcing (a : Attempt) : (return_ a).announcing = none :=
  return_ind a rfl rfl

theorem Drainer.retry_announcing (a : Attempt) : (retry cfg a).announcing = none :=
  retry_ind a rfl rfl

theorem Drainer.Steps.announcing {d d' : Drainer} (h : Drainer.Steps cfg m ch d m' d' es)
    (hs : m.store.Sound) {rec : JobRecord} (hj : d'.announcing = some (j, rec)) : rec.id = j := by
  cases h with
  | notify hget =>
    simp only [Drainer.announcing, Option.some.injEq, Prod.mk.injEq] at hj
    obtain ⟨rfl, rfl⟩ := hj
    exact (hs _ _ hget).keyed
  | loadTerminal | markSkip | accepted | backoffStop | recordFailed =>
    simp [Drainer.return_announcing] at hj
  | stall => simp [Drainer.retry_announcing] at hj
  | pickNone =>
    split at hj
    · simp [Drainer.retry_announcing] at hj
    · simp [Drainer.announcing] at hj
  | notified =>
    split at hj
    · simp [Drainer.announcing] at hj
    · simp [Drainer.return_announcing] at hj
  | _ => simp [Drainer.announcing] at hj

theorem Detector.Steps.announcing {d d' : Detector} (h : Detector.Steps cfg m ch d m' d' es)
    (hs : m.store.Sound) {rec : JobRecord} (hj : d'.announcing = some (j, rec)) : rec.id = j := by
  have hnext : ∀ w jobs dead, (next w jobs dead).announcing = none :=
    fun w jobs dead => next_ind w jobs dead rfl fun _ _ => rfl
  cases h with
  | notify hget =>
    simp only [Detector.announcing, Option.some.injEq, Prod.mk.injEq] at hj
    obtain ⟨rfl, rfl⟩ := hj
    exact (hs _ _ hget).keyed
  | list | skip | checkSkip | send | notified => simp [hnext] at hj
  | _ => simp [Detector.announcing] at hj

theorem Handler.about_sendAll {evs : List JobEvent} {k : WatchNext}
    (hevs : ∀ e ∈ evs, e.jobID = j) (hk : ∀ rec, k = .drain rec → rec.id = j) :
    (sendAll j evs k).About := by
  cases evs with
  | nil =>
    cases k with
    | drain rec => exact hk rec rfl
    | _ => trivial
  | cons ev evs => exact ⟨hevs, hk⟩

theorem Handler.Moves.about {h h' : Handler} (hm : Handler.Moves m ch call h m' h' es)
    (hs : m.store.Sound) (hhub : m.logHub.Addressed) (hh : h.About) :
    m'.logHub.Addressed ∧ h'.About := by
  cases hm with
  | aloof _ ha hsame =>
    refine ⟨hsame ▸ hhub, ?_⟩
    cases h' <;> trivial
  | putResult hsame | recordColdStart hsame | count hsame => exact ⟨hsame ▸ hhub, trivial⟩
  | appendTail | appendChunk => exact ⟨hhub.append _, trivial⟩
  | report ht | reportError ht =>
    rw [ht.mem]
    exact ⟨hhub, trivial⟩
  | notify hmove =>
    obtain ⟨hhub', hnext⟩ := hmove.addressed hs hhub (by rintro rec rfl; exact hh)
    refine ⟨hhub', ?_⟩
    rename_i next
    rcases next with _ | _ | rec
    · trivial
    · trivial
    · exact hnext rec rfl
  | subscribe =>
    refine ⟨hhub.subscribe, ?_, ?_⟩
    · intro e he
      simp only [List.mem_cons, List.mem_append, List.mem_map, Option.mem_toList] at he
      rcases he with rfl | ⟨line, -, rfl⟩ | he
      · rfl
      · rfl
      · exact ((hhub.get _).terminal e he).jobID
    · intro rec hk
      split at hk <;> simp at hk
  | sent => exact ⟨hhub, about_sendAll (fun e he => hh.1 e (List.mem_cons_of_mem _ he)) hh.2⟩
  | pollTerminal hget => exact ⟨hhub, (hs _ _ hget).keyed⟩
  | pollStatus => exact ⟨hhub, by simp [JobEvent.jobID], by simp⟩
  | waitEvent hr =>
    obtain ⟨hhub', hev⟩ := hhub.receive hr
    refine ⟨hhub', by simpa using hev.jobID, fun rec hk => ?_⟩
    split at hk <;> simp at hk
  | drainEvent hr =>
    obtain ⟨hhub', hev⟩ := hhub.receive hr
    refine ⟨hhub', by simpa using hev.jobID, fun rec hk => ?_⟩
    split at hk
    · simp at hk
    · obtain rfl := WatchNext.drain.inj hk
      exact hh
  | drained =>
    have hid : _ = _ := hh
    exact ⟨hhub, by simpa using hid, by simp⟩
  | unsubscribe => exact ⟨hhub.unsubscribe, trivial⟩
  | _ => exact ⟨hhub, trivial⟩

theorem Addressed.init : Addressed init where
  hub := .new
  drainer := by simp [Server.init, Drainer.announcing]
  detector := by simp [Server.init, Detector.announcing]
  calls _ := trivial

theorem Addressed.setCall (h : Addressed s) (c : Nat) {h' : Handler} (hh : h'.About) :
    Addressed (s.setCall c h') := by
  refine ⟨h.hub, h.drainer, h.detector, fun d => ?_⟩
  rw [setCall_calls]
  split
  · exact hh
  · exact h.calls d

theorem Addressed.step (h : Addressed s) (hi : Inv s) (hst : Stepped cfg s a t es) :
    Addressed t := by
  cases hst with
  | start _ | crash =>
    exact ⟨.new, by simp [State.lose, Drainer.announcing], by simp [State.lose, Detector.announcing],
      fun _ => trivial⟩
  | beginShutdown | cancel | close | registerWorker | heartbeat =>
    exact ⟨h.hub, h.drainer, h.detector, h.calls⟩
  | main hcode hp => exact ⟨(Main.hub hcode hp).symm ▸ h.hub, h.drainer, h.detector, h.calls⟩
  | drainer _ hcode hp =>
    refine ⟨?_, fun j rec => (Drainer.steps hcode hp).announcing hi.sound, h.detector, h.calls⟩
    rcases Drainer.hub hcode hp with ⟨a, exhausted, pc, next, hd, hmove, -⟩ | ⟨-, hhub⟩
    · refine (hmove.addressed hi.sound h.hub ?_).1
      rintro rec rfl
      exact h.drainer _ _ (by simp [hd, Drainer.announcing])
    · exact hhub.symm ▸ h.hub
  | detector _ hcode hp =>
    refine ⟨?_, h.drainer, fun j rec => (Detector.steps hcode hp).announcing hi.sound, h.calls⟩
    rcases Detector.hub hcode hp with ⟨w, jobID, pc, jobs, dead, next, hd, hmove, -⟩ | ⟨-, hhub⟩
    · refine (hmove.addressed hi.sound h.hub ?_).1
      rintro rec rfl
      exact h.detector _ _ (by simp [hd, Detector.announcing])
    · exact hhub.symm ▸ h.hub
  | call hcode hp =>
    obtain ⟨hhub, hh⟩ := (Handler.moves hcode hp).about hi.sound h.hub (h.calls _)
    have hmem : Addressed { s with mem := _ } := ⟨hhub, h.drainer, h.detector, h.calls⟩
    exact hmem.setCall _ hh
  | @invokeFunction c req uuid now =>
    have hids : Addressed { s with uuids := uuid :: s.uuids } :=
      ⟨h.hub, h.drainer, h.detector, h.calls⟩
    refine hids.setCall _ ?_
    unfold Handler.invokeFunction
    simp only
    repeat' split
    all_goals trivial
  | @accept _ _ h' _ _ hh =>
    refine h.setCall _ ?_
    cases h' <;> first | exact hh.elim | trivial

theorem addressed_of_run {as : List Action}
    (h : (machine cfg).Run Lib.Machine.Always init as es s) : Inv s ∧ Addressed s :=
  h.invariant (P := fun s => Inv s ∧ Addressed s) ⟨.init, .init⟩ fun _ _ _ _ hp _ hst =>
    ⟨(hp.1.step (stepped_of_step hst)).1, hp.2.step hp.1 (stepped_of_step hst)⟩

theorem mem_of_watchedBy {ev : JobEvent} (h : ev ∈ watchedBy call es) : .watched call ev ∈ es := by
  simp only [watchedBy, List.mem_filterMap] at h
  obtain ⟨x, hx, hev⟩ := h
  cases x with
  | watched c ev' =>
    simp only [Option.ite_none_right_eq_some, Option.some.injEq] at hev
    obtain ⟨rfl, rfl⟩ := hev
    exact hx
  | _ => simp at hev

theorem Handler.Moves.watched_about {h h' : Handler} (hm : Handler.Moves m ch call h m' h' es)
    (hh : h.About) {stopped refused : Prop} {sent : List JobEvent}
    (hs : h.Streams j stopped refused sent) : ∀ ev ∈ Server.watchedBy call es, ev.jobID = j := by
  cases hm with
  | aloof _ _ _ hes => simp [watchedBy_of_unwatched hes]
  | sent =>
    obtain ⟨rfl, -⟩ := hs.sendEvent
    simpa [Server.watchedBy] using hh.1 _ (by simp)
  | _ => simp [Server.watchedBy]

theorem watched_about_of_run {as bs : List Action} {e fs : List Event} {u : State}
    (hs : (machine cfg).Run Lib.Machine.Always init as es s)
    (hst : (machine cfg).step s (.watchJob call j) = some (t, e))
    (hrun : (machine cfg).Run (undisturbed call) t bs fs u) :
    ∀ ev ∈ watchedBy call fs, ev.jobID = j := by
  induction hrun with
  | refl => simp
  | @tail bs fs u a v e' hprev hok hstep ih =>
    have hreach := (hs.tail trivial hst).trans (hprev.mono fun _ _ _ => trivial)
    have hstreams := (streams_of_run hs hst hprev).1
    intro ev hev
    rw [watchedBy_append] at hev
    rcases List.mem_append.mp hev with hev | hev
    · exact ih ev hev
    · rcases step_of_call hstep hok with ⟨ch, rfl, hm⟩ | ⟨-, -, hnone⟩
      · exact hm.watched_about ((addressed_of_run hreach).2.calls call) hstreams ev hev
      · simp [hnone] at hev

def statusesOf (evs : List JobEvent) : List JobStatus :=
  evs.filterMap fun
    | .status _ st => some st
    | _ => none

@[simp] theorem statusesOf_append (l l' : List JobEvent) :
    statusesOf (l ++ l') = statusesOf l ++ statusesOf l' := List.filterMap_append

@[simp] theorem statusesOf_nil : statusesOf [] = [] := rfl

theorem statusesOf_posts {evs : List JobEvent} (h : ∀ ev ∈ evs, ev.Posts j) : statusesOf evs = [] := by
  rw [statusesOf, List.filterMap_eq_nil_iff]
  intro ev hev
  cases ev with
  | status => exact (h _ hev).elim
  | _ => rfl

/-- The statuses that the record of `j` has had, with the one it has in `store`. -/
def seen (j : String) (hist : List JobStatus) (store : BoltStore) : List JobStatus :=
  match store.jobs.get j with
  | some r => Lib.Samples.push hist r.status
  | none => hist

theorem seen_getLast? {store : BoltStore} {hist : List JobStatus} {r : JobRecord}
    (h : store.jobs.get j = some r) : (seen j hist store).getLast? = some r.status := by
  simp [seen, h, Lib.Samples.getLast?_push]

theorem seen_eq_append (hist : List JobStatus) (store : BoltStore) :
    ∃ post, seen j hist store = hist ++ post := by
  unfold seen
  split
  · exact Lib.Samples.push_eq_append _ _
  · exact ⟨[], by simp⟩

def chronicle (cfg : Config) (j : String) : Lib.Machine (State × List JobStatus) Action Event :=
  (machine cfg).record fun hist s _ _ => seen j hist s.mem.store

/-- What a `WatchJob` call has sent and is about to send of the statuses in `full`. -/
def Handler.Notes (full sent : List JobStatus) : Handler → Prop
  | .refuse _ | .loadWatch _ => sent = []
  | .subscribe _ last => sent = [] ∧ Lib.Samples.Tracks full [last] last
  | .sendEvent _ ev evs (.poll last) | .sendEvent _ ev evs (.wait last) =>
    Lib.Samples.Tracks full (sent ++ statusesOf (ev :: evs)) last
  | .sendEvent _ ev evs _ => (sent ++ statusesOf (ev :: evs)).Sublist full
  | .poll _ last | .wait _ last => Lib.Samples.Tracks full sent last
  | _ => sent.Sublist full

section Notes

variable {full sent : List JobStatus} {h h' : Handler}

theorem Handler.Notes.append (hn : h.Notes full sent) (post : List JobStatus) :
    h.Notes (full ++ post) sent := by
  have hsub : ∀ {l : List JobStatus}, l.Sublist full → l.Sublist (full ++ post) :=
    fun hl => hl.trans (List.sublist_append_left full post)
  cases h with
  | refuse | loadWatch => exact hn
  | subscribe => exact ⟨hn.1, hn.2.append post⟩
  | sendEvent k ev evs next =>
    cases next with
    | poll | wait => exact Lib.Samples.Tracks.append hn post
    | drain | done => exact hsub hn
  | poll | wait => exact Lib.Samples.Tracks.append hn post
  | _ => exact hsub hn

theorem Handler.notes_sendAll {evs : List JobEvent} {k : WatchNext}
    (htracks : ∀ last, k = .poll last ∨ k = .wait last →
      Lib.Samples.Tracks full (sent ++ statusesOf evs) last)
    (hsub : (sent ++ statusesOf evs).Sublist full) : (sendAll j evs k).Notes full sent := by
  cases evs with
  | nil =>
    simp only [statusesOf_nil, List.append_nil] at htracks hsub
    cases k with
    | poll last => exact htracks last (.inl rfl)
    | wait last => exact htracks last (.inr rfl)
    | drain | done => exact hsub
  | cons ev evs =>
    cases k with
    | poll last => exact htracks last (.inl rfl)
    | wait last => exact htracks last (.inr rfl)
    | drain | done => exact hsub

theorem Handler.Notes.sendEvent {k : String} {ev : JobEvent} {evs : List JobEvent}
    {next : WatchNext} (hn : (Handler.sendEvent k ev evs next).Notes full sent) :
    (∀ last, next = .poll last ∨ next = .wait last →
      Lib.Samples.Tracks full (sent ++ statusesOf (ev :: evs)) last) ∧
      (sent ++ statusesOf (ev :: evs)).Sublist full := by
  cases next with
  | poll last | wait last =>
    refine ⟨?_, Lib.Samples.Tracks.sublist hn⟩
    rintro last' (h | h) <;> cases h
    exact hn
  | drain | done => exact ⟨by simp, hn⟩

theorem Handler.Notes.sublist (hn : h.Notes full sent) : sent.Sublist full := by
  cases h with
  | refuse | loadWatch =>
    obtain rfl : sent = [] := hn
    exact List.nil_sublist _
  | subscribe =>
    obtain ⟨rfl, -⟩ := hn
    exact List.nil_sublist _
  | sendEvent => exact (List.sublist_append_left _ _).trans hn.sendEvent.2
  | poll | wait => exact Lib.Samples.Tracks.sublist hn
  | _ => exact hn

theorem Handler.Notes.poll {k : String} {last : JobStatus} {stmt : Code Handler}
    {r : stmt.op.Res} (hn : (Handler.poll k last).Notes full sent)
    (hcode : Handler.code call (.poll k last) = some stmt)
    (hp : perform cfg m ch stmt.op = some (m', r, es))
    (hfull : ∀ rec, m.store.jobs.get k = some rec → full.getLast? = some rec.status) :
    (stmt.next r).Notes full sent ∧ es = [] := by
  simp only [code, Option.some.injEq] at hcode
  subst hcode
  rcases r with e | _ | rec
  · obtain ⟨-, rfl, -⟩ := getJob_error hp rfl
    exact ⟨hn, rfl⟩
  · obtain ⟨-, rfl, -⟩ := getJob_some hp rfl
    exact ⟨hn, rfl⟩
  · obtain ⟨-, rfl, hget⟩ := getJob_some hp rfl
    refine ⟨?_, rfl⟩
    simp only
    split
    · exact Lib.Samples.Tracks.sublist hn
    · split
      · rename_i hne
        exact Lib.Samples.Tracks.note hn (hfull rec hget) hne
      · exact hn

theorem Handler.Notes.step {stmt : Code Handler} {r : stmt.op.Res} {stopped refused : Prop}
    {evs : List JobEvent} (hn : h.Notes full sent) (hs : h.Streams j stopped refused evs)
    (hcode : Handler.code call h = some stmt)
    (hp : perform cfg m ch stmt.op = some (m', r, es)) (hhub : m.logHub.Addressed)
    (hfull : ∀ rec, m.store.jobs.get j = some rec → full.getLast? = some rec.status) :
    (stmt.next r).Notes full (sent ++ statusesOf (watchedBy call es)) := by
  by_cases hpoll : ∃ k last, h = .poll k last
  · obtain ⟨k, last, rfl⟩ := hpoll
    obtain ⟨rfl, -⟩ : k = j ∧ _ := hs
    obtain ⟨hnext, rfl⟩ := hn.poll hcode hp hfull
    simpa using hnext
  have hm := Handler.moves hcode hp
  generalize stmt.next r = h' at hm ⊢
  have hsame : ∀ {h : Handler}, h.Notes full sent →
      h.Notes full (sent ++ statusesOf (watchedBy call [])) := fun hn => by simpa using hn
  cases hm with
  | aloof ha _ _ hes hend =>
    cases h <;> first | exact hs.elim | simp [Handler.aloof] at ha; done | simp [Handler.ending] at hend
  | refuse =>
    obtain rfl : sent = [] := hn
    exact List.nil_sublist _
  | loadWatch hget =>
    obtain ⟨rfl, -⟩ := hs
    obtain rfl : sent = [] := hn
    exact ⟨rfl, .start (hfull _ hget)⟩
  | loadFailed | loadMissing => exact hsame hn
  | @subscribe k last =>
    obtain ⟨rfl, htracks⟩ := hn
    have hposts : ∀ ev ∈ (m.logHub.get k).lines.map (JobEvent.log k) ++
        (m.logHub.get k).terminal.toList, ev.Posts k := by
      intro ev hev
      simp only [List.mem_append, List.mem_map, Option.mem_toList] at hev
      rcases hev with ⟨line, -, rfl⟩ | hev
      · rfl
      · exact (hhub.get k).terminal ev hev
    have hone : statusesOf (.status k last :: ((m.logHub.get k).lines.map (JobEvent.log k) ++
        (m.logHub.get k).terminal.toList)) = [last] := by
      have hnil := statusesOf_posts hposts
      simp only [statusesOf, List.filterMap_cons] at hnil ⊢
      rw [hnil]
    split
    · exact (hone ▸ htracks.sublist : (statusesOf _).Sublist full)
    · exact (hone ▸ htracks : Lib.Samples.Tracks full (statusesOf _) last)
  | @sent k ev evs' next =>
    obtain ⟨htracks, hsub⟩ := hn.sendEvent
    have hsplit : sent ++ statusesOf (watchedBy call [.watched call ev]) ++ statusesOf evs' =
        sent ++ statusesOf (ev :: evs') := by
      rw [List.append_assoc, ← statusesOf_append]
      simp [watchedBy]
    refine Handler.notes_sendAll (fun last hk => ?_) ?_
    · rw [hsplit]
      exact htracks last hk
    · rw [hsplit]
      exact hsub
  | sendError =>
    refine hsame (h := .unsubscribe _) (List.Sublist.trans ?_ hn.sendEvent.2)
    exact List.sublist_append_left _ _
  | pollTerminal | pollStatus | pollSame => exact absurd ⟨_, _, rfl⟩ hpoll
  | waitDone => exact hsame (h := .unsubscribe _) (Lib.Samples.Tracks.sublist hn)
  | waitTick => exact hsame hn
  | @waitEvent k last ev logHub hr =>
    have hnone : statusesOf [ev] = [] :=
      statusesOf_posts (j := k) (by simpa using (hhub.receive hr).2)
    refine hsame ?_
    split
    · exact (by rw [hnone, List.append_nil]; exact Lib.Samples.Tracks.sublist hn :
        (sent ++ statusesOf [ev]).Sublist full)
    · exact (by rw [hnone, List.append_nil]; exact hn :
        Lib.Samples.Tracks full (sent ++ statusesOf [ev]) last)
  | @drainEvent k rec ev logHub hr =>
    have hnone : statusesOf [ev] = [] :=
      statusesOf_posts (j := k) (by simpa using (hhub.receive hr).2)
    have hsub : (sent ++ statusesOf [ev]).Sublist full := by
      rw [hnone, List.append_nil]
      exact hn
    refine hsame ?_
    split
    · exact hsub
    · exact hsub
  | @drained k rec =>
    have hsub : (sent ++ statusesOf [jobResultEvent rec]).Sublist full := by
      rw [statusesOf_posts (j := rec.id) (by simp [jobResultEvent, JobEvent.Posts]), List.append_nil]
      exact hn
    exact hsame hsub
  | unsubscribe => exact hsame (h := .idle) hn
  | _ => exact hs.elim

end Notes

theorem notes_of_run {as bs : List Action} {e fs : List Event} {z : State × List JobStatus}
    (hs : (machine cfg).Run Lib.Machine.Always init as es s)
    (hst : (machine cfg).step s (.watchJob call j) = some (t, e))
    (hrun : (chronicle cfg j).Run (fun y a => undisturbed call y.1 a) (t, []) bs fs z) :
    (z.1.calls call).Notes (seen j z.2 z.1.mem.store) (statusesOf (watchedBy call fs)) := by
  induction hrun with
  | refl =>
    obtain ⟨-, -, rfl, -⟩ := accept_some hst
    simp only
    rw [setCall_calls, if_pos rfl]
    unfold Handler.watchJob Handler.requireJobID
    split
    · exact rfl
    · exact rfl
  | @tail bs fs y a z e' hprev hok hstep ih =>
    obtain ⟨hstep, hhist⟩ := Lib.Machine.record_step.mp hstep
    have hbefore := hprev.of_record
    have hreach := (hs.tail trivial hst).trans (hbefore.mono fun _ _ _ => trivial)
    have hstreams := (streams_of_run hs hst hbefore).1
    obtain ⟨post, hpost⟩ := seen_eq_append (j := j) (seen j y.2 y.1.mem.store) z.1.mem.store
    rw [watchedBy_append, statusesOf_append, hhist, hpost]
    refine Handler.Notes.append ?_ post
    rcases step_of_call hstep hok with ⟨ch, rfl, -⟩ | ⟨-, hcalls, hnone⟩
    · obtain ⟨stmt, mem, r, hcode, hp, hz⟩ := step_call hstep
      rw [hz, setCall_calls, if_pos rfl]
      exact ih.step hstreams hcode hp (addressed_of_run hreach).2.hub fun rec => seen_getLast?
    · rw [hcalls, hnone, statusesOf_nil, List.append_nil]
      exact ih

/-- Each watcher sees its job only: every event that a `WatchJob` call sends is about the job it
asked for, its status events show statuses that the record has had, in that order, and a result
shows the status that the record has for good. -/
theorem watchJob_view (cfg : Config) {as bs : List Action} {es e fs : List Event} {s t : State}
    {call : Nat} {j : String} (hs : (machine cfg).Run Lib.Machine.Always init as es s)
    (hst : (machine cfg).step s (.watchJob call j) = some (t, e)) {z : State × List JobStatus}
    (hrun : (chronicle cfg j).Run (fun y a => undisturbed call y.1 a) (t, []) bs fs z) :
    (∀ ev ∈ watchedBy call fs, ev.jobID = j) ∧
      (statusesOf (watchedBy call fs)).Sublist (seen j z.2 z.1.mem.store) ∧
      ∀ res, .result j res ∈ watchedBy call fs →
        (seen j z.2 z.1.mem.store).getLast? = some res.status := by
  have hbefore := hrun.of_record
  have hreach := (hs.tail trivial hst).trans (hbefore.mono fun _ _ _ => trivial)
  refine ⟨watched_about_of_run hs hst hbefore, ?_, fun res hres => ?_⟩
  · exact (notes_of_run hs hst hrun).sublist
  · have hev : .watched call (.result j res) ∈ fs := mem_of_watchedBy hres
    obtain ⟨-, -, hes⟩ := announced_of_run hreach
    obtain ⟨r, hget, -, hr⟩ := hes _ (List.mem_append_right _ hev)
    simp only [jobResultEvent, JobEvent.result.injEq] at hr
    rw [seen_getLast? hget, ← hr.2]

def sampleSubmitted : State × List Event :=
  ((machine sampleConfig).exec (fun _ _ => true) init sampleSubmit).get (by decide)

def sampleAwaited : State × List Event :=
  ((machine sampleConfig).step sampleSubmitted.1 (.watchJob 1 "j")).get (by decide)

def sampleViewed : (State × List JobStatus) × List Event :=
  ((chronicle sampleConfig "j").exec (fun _ a => undisturbedNow 1 a) (sampleAwaited.1, [])
    (List.replicate 4 (Action.call 1 {}) ++ sampleDispatch ++
      List.replicate 3 (Action.call 1 { tick := true }) ++
      sampleReport 2 4 { jobID := "j", workerID := "w", success := true, resultBytes := [7] } ++
      List.replicate 2 (Action.call 1 {}))).get (by decide)

theorem watchJob_view_sample :
    statusesOf (watchedBy 1 sampleViewed.2) = [.pending, .running] ∧
      .result "j" sampleResult ∈ watchedBy 1 sampleViewed.2 ∧
      (statusesOf (watchedBy 1 sampleViewed.2)).Sublist
        (seen "j" sampleViewed.1.2 sampleViewed.1.1.mem.store) ∧
      (seen "j" sampleViewed.1.2 sampleViewed.1.1.mem.store).getLast? = some .done := by
  have hs : (machine sampleConfig).Run Lib.Machine.Always init _ sampleSubmitted.2 sampleSubmitted.1 :=
    (Lib.Machine.run_of_exec_get (by decide)).mono fun _ _ _ => trivial
  have hst : (machine sampleConfig).step sampleSubmitted.1 (.watchJob 1 "j") =
      some (sampleAwaited.1, sampleAwaited.2) := (Option.some_get (by decide)).symm
  have hrun : (chronicle sampleConfig "j").Run (fun y a => undisturbed 1 y.1 a)
      (sampleAwaited.1, []) _ sampleViewed.2 sampleViewed.1 :=
    (Lib.Machine.run_of_exec_get (by decide)).mono fun _ _ => undisturbed_of_undisturbedNow
  have hres : .result "j" sampleResult ∈ watchedBy 1 sampleViewed.2 := by decide
  obtain ⟨-, hsub, hlast⟩ := watchJob_view sampleConfig hs hst hrun
  exact ⟨by decide, hres, hsub, hlast _ hres⟩

end Server

end Minimodal
