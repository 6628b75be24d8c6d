import Minimodal.Server.Payload
import Minimodal.Server.Reaper

namespace Minimodal.Server

variable {cfg : Config} {s t : State} {a : Action} {es fs : List Event} {m m' : Mem} {ch : Choice}
  {j w : String}

def Drainer.active : Drainer → Option String
  | .dispatch a _ | .stall a | .backoff a => some a.jobID
  | _ => none

def Drainer.marked : Drainer → Option (String × String)
  | .dispatch a (.dial _ _ workerID _) | .dispatch a (.send _ _ workerID _)
  | .dispatch a (.await _ _ workerID) => some (a.jobID, workerID)
  | _ => none

theorem Drainer.active_return (a : Attempt) : (return_ a).active = none :=
  return_ind a rfl rfl

theorem Drainer.active_retry {a : Attempt} (h : (retry cfg a).active = some j) :
    a.jobID = j := by
  unfold retry at h
  split at h
  · simp [active] at h
  · exact Option.some.inj h

def Detector.Handles (d : Detector) (j : String) : Prop :=
  d.enqueuing = some j ∨ ∃ p, d.batch = some p ∧ j ∈ p.2

def Seen (s : State) (j : String) : Prop :=
  (j ∈ s.mem.pendingQueue ∨ s.drainer.active = some j) ∨ s.detector.Handles j

theorem Drainer.Steps.seen {d d' : Drainer} (h : Drainer.Steps cfg m ch d m' d' es)
    (hj : j ∈ m'.pendingQueue ∨ d'.active = some j) :
    j ∈ m.pendingQueue ∨ d.active = some j := by
  cases h with
  | receive hq =>
    rw [hq]
    rcases hj with hj | hj
    · exact .inl (List.mem_cons_of_mem _ hj)
    · obtain rfl := Option.some.inj hj
      exact .inl (List.mem_cons_self ..)
  | mark ht | revert ht => exact ht.queue ▸ hj
  | missingPayload ht | markError ht | fail ht =>
    rw [ht.queue] at hj
    exact hj.imp_right fun hj => by simp [active] at hj
  | markSkip ht =>
    rw [ht.queue] at hj
    exact hj.imp_right fun hj => by simp [active_return] at hj
  | loadTerminal | accepted | backoffStop | recordFailed =>
    exact hj.imp_right fun hj => by simp [active_return] at hj
  | pickNone =>
    refine hj.imp_right fun hj => ?_
    split at hj
    · exact congrArg some (active_retry hj)
    · exact hj
  | @stall a =>
    refine hj.imp_right fun hj => ?_
    exact congrArg some (active_retry (a := { a with stalled := true }) hj)
  | backoff hid => exact hj.imp_right fun hj => by rwa [active, ← hid]
  | notified =>
    refine hj.imp_right fun hj => ?_
    split at hj
    · exact hj
    · simp [active_return] at hj
  | stop | loadError | notify | unstall => exact hj.imp_right fun hj => by simp [active] at hj
  | _ => exact hj

theorem Detector.handles_next {w' : String} {jobs : List JobRecord} {dead : List String}
    (h : (next w' jobs dead).Handles j) : j ∈ jobs.map (·.id) := by
  cases jobs with
  | nil => simp [next, Handles, enqueuing, batch] at h
  | cons job jobs =>
    rcases h with h | ⟨p, hb, hj⟩
    · simp [next, enqueuing] at h
    · obtain rfl := Option.some.inj hb
      exact hj

theorem Detector.Steps.seen {d d' : Detector} (h : Detector.Steps cfg m ch d m' d' es)
    (hs : m.store.Sound) (hj : j ∈ m'.pendingQueue ∨ d'.Handles j) :
    (j ∈ m.pendingQueue ∨ d.Handles j) ∨ ∃ w ∈ d.unlisted, m.store.RunningOn j w := by
  cases h with
  | stop | sweep | listError =>
    exact .inl (hj.imp_right fun hj => by simp [Handles, enqueuing, batch] at hj)
  | @list workerID dead =>
    rcases hj with hj | hj
    · exact .inl (.inl hj)
    · refine .inr ⟨workerID, List.mem_cons_self .., ?_⟩
      exact (BoltStore.mem_listRunningOnWorker hs.keyedById).mp (handles_next hj)
  | requeue ht hc =>
    refine .inl (hj.imp (fun hj => ht.queue ▸ hj) ?_)
    rintro (he | ⟨p, hb, hj⟩)
    · obtain rfl := Option.some.inj he
      exact .inr ⟨_, rfl, List.mem_cons_self ..⟩
    · obtain rfl := Option.some.inj hb
      exact .inr ⟨_, rfl, List.mem_cons_of_mem _ hj⟩
  | giveUp ht hc =>
    refine .inl (hj.imp (fun hj => ht.queue ▸ hj) ?_)
    rintro (he | ⟨p, hb, hj⟩)
    · simp [enqueuing] at he
    · obtain rfl := Option.some.inj hb
      exact .inr ⟨_, rfl, List.mem_cons_of_mem _ hj⟩
  | skip ht hb =>
    refine .inl (hj.imp (fun hj => ht.queue ▸ hj) fun hj => ?_)
    exact .inr ⟨_, rfl, List.mem_cons_of_mem _ (handles_next hj)⟩
  | check | notify => exact .inl hj
  | checkSkip | notified =>
    exact .inl (hj.imp_right fun hj => .inr ⟨_, rfl, handles_next hj⟩)
  | send =>
    rcases hj with hj | hj
    · rcases List.mem_append.mp hj with hj | hj
      · exact .inl (.inl hj)
      · exact .inl (.inr (.inl (congrArg some (List.mem_singleton.mp hj).symm)))
    · exact .inl (.inr (.inr ⟨_, rfl, handles_next hj⟩))

theorem Handler.Steps.seen {c : Nat} {h h' : Handler} (hst : Handler.Steps m ch c h m' h' es)
    (hj : j ∈ m'.pendingQueue) :
    j ∈ m.pendingQueue ∨ h.enqueuing = some j ∧ h'.enqueuing = none := by
  cases hst with
  | send =>
    rcases List.mem_append.mp hj with hj | hj
    · exact .inl hj
    · exact .inr ⟨congrArg some (List.mem_singleton.mp hj).symm, rfl⟩
  | report ht | reportError ht => exact .inl (ht.queue ▸ hj)
  | quiet _ _ hm _ => exact .inl (hm.pendingQueue ▸ hj)
  | _ => exact .inl hj

theorem Handler.Steps.enqueuing {c : Nat} {h h' : Handler} (hst : Handler.Steps m ch c h m' h' es)
    (hnew : ∀ req rec, h = .submit req rec → m.store.jobs.get rec.id = none)
    (hj : h'.enqueuing = some j) :
    h.enqueuing = some j ∨ m.store.jobs.get j = none ∧ ∃ r, m'.store.jobs.get j = some r := by
  cases hst with
  | @created req rec _ _ _ hres =>
    obtain rfl := Option.some.inj hj
    obtain ⟨hid, hget⟩ := BoltStore.submitTx_created hres
    simp only [JobRecord.stamp_id] at hid hget
    exact .inr ⟨hid ▸ hnew req rec rfl, _, hid ▸ hget⟩
  | check => exact .inl hj
  | quiet _ hq _ _ => simp [enqueuing_of_quiet hq] at hj
  | _ => simp [Handler.enqueuing] at hj

theorem Main.Steps.seen {pc pc' : Main} (h : Main.Steps m ch pc m' pc' es)
    (hj : j ∈ m'.pendingQueue) :
    j ∈ m.pendingQueue ∨ ∃ js, pc.remaining = some js ∧ j ∈ js := by
  cases h with
  | replay ht | replayError ht => exact .inl (ht.queue ▸ hj)
  | send =>
    rcases List.mem_append.mp hj with hj | hj
    · exact .inl hj
    · exact .inr ⟨_, rfl, List.mem_cons.mpr (.inl (List.mem_singleton.mp hj))⟩
  | _ => exact .inl hj

theorem Main.Steps.remaining {pc pc' : Main} (h : Main.Steps m ch pc m' pc' es)
    (hs : m.store.Sound) {js : List String} (hjs : pc'.remaining = some js) (hj : j ∈ js) :
    (∃ js, pc.remaining = some js ∧ j ∈ js) ∨ ∃ r, m.store.jobs.get j = some r := by
  cases h with
  | list =>
    simp only [remaining_next, Option.some.injEq] at hjs
    obtain ⟨r, hr, -⟩ := (BoltStore.mem_listUnfinished hs.keyedById).mp (hjs ▸ hj)
    exact .inr ⟨r, hr⟩
  | listError => simp [Main.remaining] at hjs
  | replay | check =>
    obtain rfl := Option.some.inj hjs
    exact .inl ⟨_, rfl, hj⟩
  | replayError | checkSkip | send =>
    simp only [remaining_next, Option.some.injEq] at hjs
    exact .inl ⟨_, rfl, List.mem_cons_of_mem _ (hjs ▸ hj)⟩

theorem Seen.of_step (hi : Inv s) (hst : Stepped cfg s a t fs) (h : Seen t j) :
    Seen s j ∨ (∃ w ∈ s.detector.unlisted, s.mem.store.RunningOn j w) ∨
      (∃ c, (s.calls c).enqueuing = some j ∧ (t.calls c).enqueuing = none) ∨
      ∃ js, s.main.remaining = some js ∧ j ∈ js := by
  cases hst with
  | start | crash =>
    simp [Seen, State.lose, Drainer.active, Detector.Handles, Detector.enqueuing,
      Detector.batch] at h
  | beginShutdown | cancel | close | registerWorker | heartbeat | invokeFunction | accept =>
    exact .inl h
  | main hcode hp =>
    rcases h with (hq | hd) | hd
    · rcases (Main.steps hcode hp).seen hq with hq | hr
      · exact .inl (.inl (.inl hq))
      · exact .inr (.inr (.inr hr))
    · exact .inl (.inl (.inr hd))
    · exact .inl (.inr hd)
  | drainer _ hcode hp => exact .inl (h.imp_left (Drainer.steps hcode hp).seen)
  | detector _ hcode hp =>
    rcases h with (hq | hd) | hd
    · rcases (Detector.steps hcode hp).seen hi.sound (.inl hq) with (hq | hd) | hr
      · exact .inl (.inl (.inl hq))
      · exact .inl (.inr hd)
      · exact .inr (.inl hr)
    · exact .inl (.inl (.inr hd))
    · rcases (Detector.steps hcode hp).seen hi.sound (.inr hd) with (hq | hd) | hr
      · exact .inl (.inl (.inl hq))
      · exact .inl (.inr hd)
      · exact .inr (.inl hr)
  | @call c _ stmt _ r _ hcode hp =>
    rcases h with (hq | hd) | hd
    · rcases (Handler.steps hcode hp).seen hq with hq | ⟨he, hn⟩
      · exact .inl (.inl (.inl hq))
      · refine .inr (.inr (.inl ⟨c, he, ?_⟩))
        rw [setCall_calls, if_pos rfl]
        exact hn
    · exact .inl (.inl (.inr hd))
    · exact .inl (.inr hd)

theorem enqueuing_of_step (hi : Inv s) (hst : Stepped cfg s a t fs) {c : Nat}
    (h : (t.calls c).enqueuing = some j) :
    (s.calls c).enqueuing = some j ∨ s.mem.store.jobs.get j = none ∧
      (∃ r, t.mem.store.jobs.get j = some r) ∧ ∃ ch, a = .call c ch := by
  cases hst with
  | start | crash => simp [State.lose, Handler.enqueuing] at h
  | @call d ch stmt _ r _ hcode hp =>
    rw [setCall_calls] at h
    split at h
    · rename_i hcd
      subst hcd
      rcases (Handler.steps hcode hp).enqueuing
        (fun req rec he => (hi.submitting _ req rec he).2.2) h with hold | ⟨hnone, hsome⟩
      · exact .inl hold
      · exact .inr ⟨hnone, hsome, ch, rfl⟩
    · exact .inl h
  | @invokeFunction d req uuid now =>
    rw [setCall_calls] at h
    split at h
    · simp only [Handler.invokeFunction] at h
      repeat' split at h
      all_goals simp [Handler.enqueuing] at h
    · exact .inl h
  | @accept _ d h' _ _ hh =>
    rw [setCall_calls] at h
    split at h
    · cases h' <;> first | (simp [Handler.enqueuing] at h; done) | exact hh.elim
    · exact .inl h
  | _ => exact .inl h

theorem remaining_of_step (hi : Inv s) (hst : Stepped cfg s a t fs) {js : List String}
    (h : t.main.remaining = some js) (hj : j ∈ js) :
    (∃ js, s.main.remaining = some js ∧ j ∈ js) ∨ ∃ r, s.mem.store.jobs.get j = some r := by
  cases hst with
  | start | crash => simp [State.lose, Main.remaining] at h
  | main hcode hp => exact (Main.steps hcode hp).remaining hi.sound h hj
  | _ => exact .inl ⟨js, h, hj⟩

theorem Drainer.active_of_marking {d : Drainer} (h : d.marking = some (j, w)) :
    d.active = some j := by
  cases d with
  | dispatch a pc =>
    cases pc with
    | mark => exact congrArg (Option.map Prod.fst) h
    | _ => simp [marking] at h
  | _ => simp [marking] at h

/-- Jobs that somebody holds are in the store, and until `InvokeFunction` has enqueued the
job it created, nobody else has heard of it. -/
structure Tidy (s : State) : Prop where
  known : ∀ j, (Seen s j ∨ (∃ c, (s.calls c).enqueuing = some j) ∨
    ∃ js, s.main.remaining = some js ∧ j ∈ js) → ∃ r, s.mem.store.jobs.get j = some r
  fresh : ∀ c j, (s.calls c).enqueuing = some j →
    ¬ Seen s j ∧ (∀ w, ¬ s.mem.store.RunningOn j w) ∧ ∀ d, (s.calls d).enqueuing = some j → d = c

theorem Tidy.init : Tidy init where
  known j h := by
    simp [Seen, Server.init, Drainer.active, Detector.Handles, Detector.enqueuing, Detector.batch,
      Handler.enqueuing, Main.remaining] at h
  fresh c j h := by simp [Server.init, Handler.enqueuing] at h

theorem Tidy.step (h : Tidy s) (hi : Inv s) (hst : Stepped cfg s a t fs) : Tidy t := by
  have hkept : ∀ j, (∃ r, s.mem.store.jobs.get j = some r) → ∃ r, t.mem.store.jobs.get j = some r := by
    rintro j ⟨r, hr⟩
    obtain ⟨r', hr', -⟩ := (hi.step hst).2 j r hr
    exact ⟨r', hr'⟩
  have hunknown : ∀ j, s.mem.store.jobs.get j = none → ¬ (Seen s j ∨
      (∃ c, (s.calls c).enqueuing = some j) ∨ ∃ js, s.main.remaining = some js ∧ j ∈ js) := by
    intro j hnone hk
    obtain ⟨r, hr⟩ := h.known j hk
    simp [hnone] at hr
  refine ⟨?_, ?_⟩
  · rintro j (hseen | ⟨c, hc⟩ | ⟨js, hjs, hj⟩)
    · rcases hseen.of_step hi hst with hs | ⟨w, -, r, hr, -⟩ | ⟨c, hc, -⟩ | hrem
      · exact hkept j (h.known j (.inl hs))
      · exact hkept j ⟨r, hr⟩
      · exact hkept j (h.known j (.inr (.inl ⟨c, hc⟩)))
      · exact hkept j (h.known j (.inr (.inr hrem)))
    · rcases enqueuing_of_step hi hst hc with hold | ⟨-, hnew, -⟩
      · exact hkept j (h.known j (.inr (.inl ⟨c, hold⟩)))
      · exact hnew
    · rcases remaining_of_step hi hst hjs hj with hrem | hr
      · exact hkept j (h.known j (.inr (.inr hrem)))
      · exact hkept j hr
  · intro c j hc
    rcases enqueuing_of_step hi hst hc with hold | ⟨hnone, -, ch, rfl⟩
    · obtain ⟨hns, hnr, huniq⟩ := h.fresh c j hold
      refine ⟨fun hseen => ?_, fun w hr => ?_, fun d hd => ?_⟩
      · rcases hseen.of_step hi hst with hs | ⟨w, -, hr⟩ | ⟨d, hd, hd'⟩ | ⟨js, hjs, hj⟩
        · exact hns hs
        · exact hnr w hr
        · rw [huniq d hd, hc] at hd'
          simp at hd'
        · have hserv : s.main = .serving := hi.serving (c := c) fun he => by
            simp [he, Handler.enqueuing] at hold
          rw [hserv] at hjs
          obtain rfl := Option.some.inj hjs
          simp at hj
      · rcases running_of_step hi.newborn hst hr with hr | hmark
        · exact hnr w hr
        · exact hns (.inl (.inr (Drainer.active_of_marking hmark)))
      · rcases enqueuing_of_step hi hst hd with hd | ⟨hnone, -⟩
        · exact huniq d hd
        · exact absurd (.inr (.inl ⟨c, hold⟩)) (hunknown j hnone)
    · have hk := hunknown j hnone
      refine ⟨fun hseen => ?_, fun w hr => ?_, fun d hd => ?_⟩
      · rcases hseen.of_step hi hst with hs | ⟨w, -, r, hr, -⟩ | ⟨d, hd, -⟩ | hrem
        · exact hk (.inl hs)
        · simp [hnone] at hr
        · exact hk (.inr (.inl ⟨d, hd⟩))
        · exact hk (.inr (.inr hrem))
      · rcases running_of_step hi.newborn hst hr with ⟨r, hr, -⟩ | hmark
        · simp [hnone] at hr
        · exact hk (.inl (.inl (.inr (Drainer.active_of_marking hmark))))
      · rcases enqueuing_of_step hi hst hd with hd | ⟨-, -, ch', he⟩
        · exact absurd (.inr (.inl ⟨d, hd⟩)) hk
        · exact (Action.call.inj he).1.symm

theorem Drainer.Steps.marked {d d' : Drainer} (h : Drainer.Steps cfg m ch d m' d' es) {w' : String}
    (hm : d'.marked = some (j, w)) (hr : m'.store.RunningOn j w') :
    w' = w ∨ d.marked = some (j, w) ∧ m.store.RunningOn j w' := by
  cases h with
  | mark ht =>
    obtain ⟨rfl, rfl⟩ := Prod.mk.inj (Option.some.inj hm)
    obtain ⟨r, hget, hst, hw⟩ := hr
    rcases ht.get hget with ⟨-, hne⟩ | ⟨-, -, r₀, r₁, -, hrun, rfl⟩
    · exact absurd rfl (hne rfl)
    · have he := Mutator.markRunning.inj (Mutator.run_running hrun hst)
      exact .inl (hw.symm.trans he.symm)
  | dial | send => exact .inr ⟨hm, hr⟩
  | pickNone =>
    exfalso
    split at hm
    · unfold retry at hm
      split at hm <;> simp [Drainer.marked] at hm
    · simp [Drainer.marked] at hm
  | stall =>
    exfalso
    unfold retry at hm
    split at hm <;> simp [Drainer.marked] at hm
  | notified =>
    exfalso
    split at hm
    · simp [Drainer.marked] at hm
    · unfold return_ at hm
      split at hm <;> simp [Drainer.marked] at hm
  | loadTerminal | markSkip | accepted | backoffStop | recordFailed =>
    exfalso
    unfold return_ at hm
    split at hm <;> simp [Drainer.marked] at hm
  | _ => simp [Drainer.marked] at hm

theorem Drainer.marking_of_marked {d : Drainer} {p : String × String} (h : d.marked = some p) :
    d.marking = none := by
  cases d with
  | dispatch a pc => cases pc <;> simp_all [marked, marking]
  | _ => rfl

def Drainer.Keyed (d : Drainer) : Prop := ∀ rec, d.loaded = some rec → d.active = some rec.id

theorem Drainer.Steps.keyed {d d' : Drainer} (h : Drainer.Steps cfg m ch d m' d' es)
    (hs : m.store.Sound) (hk : d.Keyed) : d'.Keyed := by
  intro rec hrec
  cases h with
  | load hget _ _ =>
    obtain rfl := Option.some.inj hrec
    exact congrArg some (hs _ _ hget).keyed.symm
  | pick | mark | dial | dialError | send | sendError | rejected | failed | drop | revert =>
    exact hk rec hrec
  | pickNone =>
    split at hrec
    · simp at hrec
    · simp [Drainer.loaded] at hrec
  | notified =>
    split at hrec
    · simp [Drainer.loaded] at hrec
    · simp at hrec
  | loadTerminal | markSkip | accepted | backoffStop | recordFailed | stall => simp at hrec
  | _ => simp [Drainer.loaded] at hrec

structure Aware (s : State) : Prop where
  marked : ∀ j w w', s.drainer.marked = some (j, w) → s.mem.store.RunningOn j w' → w' = w
  keyed : s.drainer.Keyed

theorem Aware.init : Aware init where
  marked := by simp [Server.init, Drainer.marked]
  keyed := by simp [Server.init, Drainer.Keyed, Drainer.loaded]

theorem Aware.step (h : Aware s) (hi : Inv s) (hst : Stepped cfg s a t fs) : Aware t := by
  have hsame : t.drainer = s.drainer → Aware t := by
    intro hd
    refine ⟨fun j w w' hm hr => ?_, hd ▸ h.keyed⟩
    rw [hd] at hm
    refine h.marked j w w' hm ((running_of_step hi.newborn hst hr).resolve_right ?_)
    simp [Drainer.marking_of_marked hm]
  cases hst with
  | start | crash =>
    exact ⟨by simp [State.lose, Drainer.marked], by simp [State.lose, Drainer.Keyed, Drainer.loaded]⟩
  | drainer _ hcode hp =>
    refine ⟨fun j w w' hm hr => ?_, (Drainer.steps hcode hp).keyed hi.sound h.keyed⟩
    rcases (Drainer.steps hcode hp).marked hm hr with he | ⟨hm, hr⟩
    · exact he
    · exact h.marked j w w' hm hr
  | _ => exact hsame rfl

/-- What ends the healthy execution of `j` by `w`: the server crashes, a sweep declares `w`
dead, or a report for `j` is processed. -/
def Event.ends (j w : String) : Event → Bool
  | .crashed => true
  | .declaredDead w' => w' = w
  | .transitioned j' (.report _) _ => j' = j
  | _ => false

/-- `w` has accepted `j`, and nothing since has ended its execution. -/
def Executing (j w : String) (es : List Event) : Prop :=
  ∃ es₁ es₂, es = es₁ ++ .answered w j .accepted :: es₂ ∧ ∀ ev ∈ es₂, ev.ends j w = false

theorem Executing.of_append (h : Executing j w (es ++ fs)) :
    (Executing j w es ∧ ∀ ev ∈ fs, ev.ends j w = false) ∨ .answered w j .accepted ∈ fs := by
  obtain ⟨es₁, es₂, he, hes₂⟩ := h
  rcases List.append_eq_append_iff.mp he with ⟨as, rfl, hfs⟩ | ⟨cs, rfl, hcs⟩
  · exact .inr (by simp [hfs])
  · cases cs with
    | nil => exact .inr (by simp [← show _ :: es₂ = fs from hcs])
    | cons ev cs =>
      obtain ⟨rfl, rfl⟩ := List.cons.inj hcs
      refine .inl ⟨⟨es₁, cs, rfl, fun ev hev => hes₂ ev ?_⟩, fun ev hev => hes₂ ev ?_⟩
      · exact List.mem_append_left _ hev
      · exact List.mem_append_right _ hev

/-- When a worker accepts a job, the job is not queued once more, the reaper neither is about
to enqueue it nor has it in its batch, and no earlier death of the worker is still owed. -/
def acceptsAlone (s : State) : Action → Bool
  | .drainer ch =>
    match s.drainer, ch.answer with
    | .dispatch a (.await _ _ w), .accepted =>
      !s.mem.pendingQueue.contains a.jobID && s.detector.enqueuing != some a.jobID &&
        s.detector.batch.all (fun (_, js) => !js.contains a.jobID) &&
        !s.detector.unlisted.contains w
    | _, _ => true
  | _ => true

structure Undisturbed (s : State) (j w : String) : Prop where
  serving : s.main = .serving
  known : ∃ r, s.mem.store.jobs.get j = some r
  unseen : ¬ Seen s j
  calls : ∀ c, (s.calls c).enqueuing ≠ some j
  listed : w ∉ s.detector.unlisted
  running : ∀ w', s.mem.store.RunningOn j w' → w' = w

theorem Detector.Steps.unlisted_or_declared {d d' : Detector}
    (h : Detector.Steps cfg m ch d m' d' es) (hw : w ∈ d'.unlisted) :
    w ∈ d.unlisted ∨ .declaredDead w ∈ es := by
  cases h with
  | stop => simp [Detector.unlisted] at hw
  | sweep => exact .inr (List.mem_map.mpr ⟨w, hw, rfl⟩)
  | list =>
    rw [unlisted_next] at hw
    exact .inl (List.mem_cons_of_mem _ hw)
  | listError => exact .inl (List.mem_cons_of_mem _ hw)
  | requeue | giveUp | check | notify => exact .inl hw
  | skip | checkSkip | send | notified =>
    rw [unlisted_next] at hw
    exact .inl hw

theorem Undisturbed.step (h : Undisturbed s j w) (hi : Inv s) (hst : Stepped cfg s a t fs)
    (hends : ∀ ev ∈ fs, ev.ends j w = false) : Undisturbed t j w := by
  obtain ⟨r, hr⟩ := h.known
  refine ⟨?_, ?_, fun hseen => ?_, fun c hc => ?_, fun hw => ?_, fun w' hw' => ?_⟩
  · cases hst with
    | start hd => simp [h.serving] at hd
    | crash => simpa [Event.ends] using hends .crashed (by simp)
    | main hcode => simp [h.serving, Main.code] at hcode
    | _ => exact h.serving
  · obtain ⟨r', hr', -⟩ := (hi.step hst).2 j r hr
    exact ⟨r', hr'⟩
  · rcases hseen.of_step hi hst with hs | ⟨w', hw', hrun⟩ | ⟨c, hc, -⟩ | ⟨js, hjs, hj⟩
    · exact h.unseen hs
    · exact h.listed (h.running w' hrun ▸ hw')
    · exact h.calls c hc
    · rw [h.serving] at hjs
      obtain rfl := Option.some.inj hjs
      simp at hj
  · rcases enqueuing_of_step hi hst hc with hold | ⟨hnone, -⟩
    · exact h.calls c hold
    · simp [hr] at hnone
  · cases hst with
    | start | crash => simp [State.lose, Detector.unlisted] at hw
    | detector _ hcode hp =>
      rcases (Detector.steps hcode hp).unlisted_or_declared hw with hw | hev
      · exact h.listed hw
      · simpa [Event.ends] using hends _ hev
    | _ => exact h.listed hw
  · rcases running_of_step hi.newborn hst hw' with hold | hmark
    · exact h.running w' hold
    · exact absurd (.inl (.inr (Drainer.active_of_marking hmark))) h.unseen

def Event.ofDrainer : Event → Bool
  | .executeTask _ _ _ | .answered _ _ _ => true
  | _ => false

theorem Main.Steps.not_ofDrainer {pc pc' : Main} (h : Main.Steps m ch pc m' pc' es) :
    ∀ ev ∈ es, ev.ofDrainer = false := by
  cases h <;> simp [Event.ofDrainer]

theorem Detector.Steps.not_ofDrainer {d d' : Detector} (h : Detector.Steps cfg m ch d m' d' es) :
    ∀ ev ∈ es, ev.ofDrainer = false := by
  cases h <;> simp [Event.ofDrainer]

theorem Event.not_ofDrainer_of_quiet {ev : Event} (h : ev.Quiet = true) : ev.ofDrainer = false := by
  cases ev <;> first | rfl | simp [Event.Quiet] at h

theorem Handler.Steps.not_ofDrainer {c : Nat} {h h' : Handler}
    (hst : Handler.Steps m ch c h m' h' es) : ∀ ev ∈ es, ev.ofDrainer = false := by
  cases hst with
  | quiet _ _ _ hes => exact fun ev hev => Event.not_ofDrainer_of_quiet (hes ev hev)
  | _ => simp [Event.ofDrainer]

theorem Stepped.drainer_of_event (hst : Stepped cfg s a t fs) {ev : Event} (hev : ev ∈ fs)
    (h : ev.ofDrainer = true) : s.main = .serving ∧ ∃ ch mem d, a = .drainer ch ∧
      t = { s with mem, drainer := d } ∧ Drainer.Steps cfg s.mem ch s.drainer mem d fs := by
  have hno : ¬ ∀ ev ∈ fs, ev.ofDrainer = false := fun hall => by simp [hall ev hev] at h
  cases hst with
  | drainer hm hcode hp => exact ⟨hm, _, _, _, rfl, rfl, Drainer.steps hcode hp⟩
  | main hcode hp => exact absurd (Main.steps hcode hp).not_ofDrainer hno
  | detector _ hcode hp => exact absurd (Detector.steps hcode hp).not_ofDrainer hno
  | call hcode hp => exact absurd (Handler.steps hcode hp).not_ofDrainer hno
  | _ => simp [Event.ofDrainer] at hno

theorem Drainer.Steps.acceptance {d d' : Drainer} (h : Drainer.Steps cfg m ch d m' d' es)
    (hev : .answered w j .accepted ∈ es) :
    ch.answer = .accepted ∧ m' = m ∧ ∃ a rec tried, d = .dispatch a (.await rec tried w) ∧
      a.jobID = j ∧ d' = .return_ a := by
  cases h with
  | @accepted a rec tried w' hans _ =>
    simp only [List.mem_singleton, Event.answered.injEq] at hev
    obtain ⟨rfl, rfl, -⟩ := hev
    exact ⟨hans, rfl, a, rec, tried, rfl, rfl, rfl⟩
  | _ => simp at hev

theorem Undisturbed.of_accept (ht : Tidy s) (haw : Aware s)
    (hst : Stepped cfg s a t fs) (halone : acceptsAlone s a = true)
    (hev : .answered w j .accepted ∈ fs) : Undisturbed t j w := by
  obtain ⟨hserv, ch, mem, d, rfl, rfl, hd⟩ := hst.drainer_of_event hev rfl
  obtain ⟨hans, rfl, att, rec, tried, hdr, rfl, rfl⟩ := hd.acceptance hev
  have hactive : s.drainer.active = some att.jobID := by rw [hdr]; rfl
  simp only [acceptsAlone, hdr, hans, Bool.and_eq_true, Bool.not_eq_true', bne_iff_ne, ne_eq,
    List.contains_eq_mem, decide_eq_false_iff_not] at halone
  obtain ⟨⟨⟨hqueue, henq⟩, hbatch⟩, hlisted⟩ := halone
  refine ⟨hserv, ht.known _ (.inl (.inl (.inr hactive))), ?_, ?_, hlisted, ?_⟩
  · rintro ((hq | ha) | (he | ⟨p, hp, hj⟩))
    · exact hqueue hq
    · simp [Drainer.active_return] at ha
    · exact henq he
    · simp only [show s.detector.batch = some p from hp, Option.all_some, Bool.not_eq_true',
        decide_eq_false_iff_not] at hbatch
      exact hbatch hj
  · intro c hc
    exact (ht.fresh c _ hc).1 (.inl (.inr hactive))
  · intro w' hr
    exact haw.marked _ w w' (by rw [hdr]; rfl) hr

/-- In every run in which each acceptance finds nobody else at the job, a job that a worker
is executing is sent to no worker again. -/
theorem executing_not_resent (cfg : Config) {as : List Action} {es fs : List Event} {s t : State}
    {a : Action} (h : (machine cfg).Run (fun s a => acceptsAlone s a = true) init as es s)
    {j w : String} (hex : Executing j w es) (hst : (machine cfg).step s a = some (t, fs)) :
    ∀ w' address q, .executeTask w' address q ∈ fs → q.jobID ≠ j := by
  have hinv : Inv s ∧ Tidy s ∧ Aware s ∧ ∀ j w, Executing j w es → Undisturbed s j w := by
    refine h.invariant_trace (P := fun es s => Inv s ∧ Tidy s ∧ Aware s ∧
      ∀ j w, Executing j w es → Undisturbed s j w) ⟨.init, .init, .init, ?_⟩ ?_
    · rintro j w ⟨es₁, es₂, he, -⟩
      simp at he
    · intro es u a v e ⟨hi, ht, haw, hun⟩ halone hst
      have hst := stepped_of_step hst
      refine ⟨(hi.step hst).1, ht.step hi hst, haw.step hi hst, fun j w hex => ?_⟩
      rcases hex.of_append with ⟨hold, hends⟩ | hev
      · exact (hun j w hold).step hi hst hends
      · exact .of_accept ht haw hst halone hev
  obtain ⟨-, -, haw, hun⟩ := hinv
  intro w' address q hq hj
  obtain ⟨-, ch, mem, d, -, -, hd⟩ := (stepped_of_step hst).drainer_of_event hq rfl
  rcases hd.minor with hminor | ⟨w'', address', rec, rfl, hrec⟩
  · exact hminor _ hq
  · simp only [List.mem_singleton, Event.executeTask.injEq] at hq
    obtain ⟨-, -, rfl⟩ := hq
    have hactive := haw.keyed rec hrec
    exact (hun j w hex).unseen (.inl (.inr (hj ▸ hactive)))

def sampleTwoJobs : State × List Event :=
  ((machine sampleConfig).exec acceptsAlone init
    (sampleSubmit ++ sampleDispatch ++
      ([.invokeFunction 1 { functionBytes := [3] } "k" 5, .call 1 {}, .call 1 {}, .call 1 {},
        .drainer {}, .drainer {}, .drainer { order := ["w"] }, .drainer { now := 6 },
        .drainer {}] : List Action))).get (by decide)

theorem executing_not_resent_sampleTwoJobs :
    Executing "j" "w" sampleTwoJobs.2 ∧ ∃ t fs, step sampleConfig sampleTwoJobs.1 (.drainer {}) =
      some (t, fs) ∧ .executeTask "w" "host:1" ⟨"k", [3], [], ""⟩ ∈ fs ∧
      ∀ w' address q, .executeTask w' address q ∈ fs → q.jobID ≠ "j" := by
  have hrun : (machine sampleConfig).Run (fun s a => acceptsAlone s a = true) init _
      sampleTwoJobs.2 sampleTwoJobs.1 := Lib.Machine.run_of_exec_get (by decide)
  have hex : Executing "j" "w" sampleTwoJobs.2 :=
    ⟨sampleTwoJobs.2.take 5, sampleTwoJobs.2.drop 6, by decide, by decide⟩
  exact ⟨hex, _, _, rfl, by decide,
    executing_not_resent sampleConfig (a := .drainer {}) hrun hex rfl⟩

/-- The reaper and `Dispatch` both see the death of `v`: the reaper queues the job again
while `Dispatch` goes on to `w`, which accepts; the queued copy is then dispatched too. -/
def sampleResentTwice : State × List Event :=
  ((machine sampleConfig).exec (fun _ a => a.storeSucceeds) init
    ([.start, .main {}, .registerWorker ⟨"v", "host:1", 1⟩ 0,
      .invokeFunction 0 { functionBytes := [1] } "j" 1, .call 0 { now := 2 }, .call 0 {}, .call 0 {},
      .drainer {}, .drainer {}, .drainer { order := ["v"] }, .drainer { now := 3 }, .drainer {},
      .drainer {}, .registerWorker ⟨"w", "host:2", 1⟩ 8,
      .detector { order := ["v", "w"], now := 10 }, .detector {}, .detector { now := 11 },
      .detector {}, .detector {},
      .drainer { answer := .failed }, .drainer {}, .drainer { now := 12 },
      .drainer { order := ["v", "w"] }, .drainer { now := 13 }, .drainer {}, .drainer {},
      .drainer {}, .drainer {}, .drainer {}, .drainer { order := ["v", "w"] },
      .drainer { now := 14 }, .drainer {}])).get (by decide)

theorem executing_resent : ∃ as es s t fs,
    (machine sampleConfig).Run (fun _ a => a.storeSucceeds = true) init as es s ∧
      Executing "j" "w" es ∧ step sampleConfig s (.drainer {}) = some (t, fs) ∧
      .executeTask "w" "host:2" ⟨"j", [1], [], ""⟩ ∈ fs := by
  refine ⟨_, sampleResentTwice.2, sampleResentTwice.1, _, _,
    Lib.Machine.run_of_exec_get (by decide), ?_, rfl, by decide⟩
  exact ⟨sampleResentTwice.2.take 11, sampleResentTwice.2.drop 12, by decide, by decide⟩

end Minimodal.Server
