import Minimodal.Server.Causes
import Minimodal.Server.Views

namespace Minimodal.Server

variable {cfg : Config} {s t : State} {a : Action} {as : List Action} {es fs : List Event}
  {m m' : Mem} {ch : Choice} {j : String} {c : Nat}

def Event.call : Event → Option Nat
  | .invoked c _ _ _ | .acknowledged c _ | .jobStatus c _ | .watched c _ | .refused c _ => some c
  | _ => none

theorem Main.Steps.call_none {pc pc' : Main} (h : Main.Steps m ch pc m' pc' es) :
    ∀ ev ∈ es, ev.call = none := by
  cases h <;> simp [Event.call]

theorem Drainer.Steps.call_none {d d' : Drainer} (h : Drainer.Steps cfg m ch d m' d' es) :
    ∀ ev ∈ es, ev.call = none := by
  cases h <;> simp [Event.call]

theorem Detector.Steps.call_none {d d' : Detector} (h : Detector.Steps cfg m ch d m' d' es) :
    ∀ ev ∈ es, ev.call = none := by
  cases h <;> simp [Event.call]

theorem perform_call {op : Op} {r : op.Res} {ev : Event}
    (hp : perform cfg m ch op = some (m', r, es)) (hev : ev ∈ es) (hc : ev.call = some c) :
    op = .reply ev ∨ ∃ e, op = .sendEvent c e := by
  cases performs_of_perform hp with
  | reply =>
    obtain rfl := List.mem_singleton.mp hev
    exact .inl rfl
  | sendEvent =>
    obtain rfl := List.mem_singleton.mp hev
    obtain rfl := Option.some.inj hc
    exact .inr ⟨_, rfl⟩
  | tick =>
    obtain ⟨w, -, rfl⟩ := List.mem_map.mp hev
    simp [Event.call] at hc
  | _ => simp_all [Event.call]

theorem Handler.call_eq {h : Handler} {stmt : Code Handler} {r : stmt.op.Res} {d : Nat} {ev : Event}
    (hcode : Handler.code c h = some stmt) (hp : perform cfg m ch stmt.op = some (m', r, es))
    (hev : ev ∈ es) (hd : ev.call = some d) : d = c := by
  have hop := perform_call hp hev hd
  cases h with
  | idle => cases hcode
  | enqueue req j pc =>
    obtain rfl := Option.some.inj hcode
    cases pc <;> simp [EnqueuePc.code] at hop
  | notify req pc =>
    obtain rfl := Option.some.inj hcode
    cases pc <;> simp [NotifyPc.code] at hop
  | count req =>
    simp only [code] at hcode
    split at hcode
    all_goals
      obtain rfl := Option.some.inj hcode
      simp at hop
  | refuse | invoked | acknowledge | replyStatus =>
    obtain rfl := Option.some.inj hcode
    simp only [Op.reply.injEq, reduceCtorEq, exists_false, or_false] at hop
    subst hop
    exact (Option.some.inj hd).symm
  | sendEvent =>
    obtain rfl := Option.some.inj hcode
    simp only [Op.sendEvent.injEq, reduceCtorEq, false_or, exists_and_left] at hop
    exact hop.1.symm
  | _ =>
    obtain rfl := Option.some.inj hcode
    simp at hop

theorem call_of_event (hst : step cfg s a = some (t, fs)) {ev : Event} (hev : ev ∈ fs)
    (hc : ev.call = some c) :
    ∃ (ch : Choice) (stmt : Code Handler) (mem : Mem) (r : stmt.op.Res), a = .call c ch ∧
      Handler.code c (s.calls c) = some stmt ∧ perform cfg s.mem ch stmt.op = some (mem, r, fs) ∧
      t = { s with mem }.setCall c (stmt.next r) := by
  cases stepped_of_step hst with
  | main hcode hp => simp [(Main.steps hcode hp).call_none ev hev] at hc
  | drainer _ hcode hp => simp [(Drainer.steps hcode hp).call_none ev hev] at hc
  | detector _ hcode hp => simp [(Detector.steps hcode hp).call_none ev hev] at hc
  | call hcode hp =>
    obtain rfl := Handler.call_eq hcode hp hev hc
    exact ⟨_, _, _, _, rfl, hcode, hp, rfl⟩
  | crash | registerWorker | heartbeat =>
    obtain rfl := List.mem_singleton.mp hev
    cases hc
  | _ => simp at hev

inductive Served
  | invoking (req : InvokeFunctionRequest)
  | watching (jobID : String)
  deriving DecidableEq

def Handler.serves : Handler → Option Served
  | .submit req _ | .enqueue req _ _ | .recordInvocation req _ | .invoked req _ _ =>
    some (.invoking req)
  | .loadWatch j | .subscribe j _ | .sendEvent j _ _ _ | .poll j _ | .wait j _ | .drain j _
  | .unsubscribe j => some (.watching j)
  | _ => none

def Action.dials : Action → Option (Nat × Served)
  | .invokeFunction c req _ _ => some (c, .invoking req)
  | .watchJob c jobID => some (c, .watching jobID)
  | _ => none

theorem Action.opens_serves {h : Handler} {p : Served} (ha : a.opens cfg = some (c, h))
    (hp : h.serves = some p) : a.dials = some (c, p) := by
  cases a with
  | invokeFunction | getJobStatus | watchJob | reportTaskResult =>
    obtain ⟨rfl, rfl⟩ := Prod.mk.inj (Option.some.inj ha)
    simp only [Handler.invokeFunction, Handler.getJobStatus, Handler.watchJob,
      Handler.reportTaskResult, Handler.requireJobID] at hp
    repeat' split at hp
    all_goals cases hp <;> rfl
  | streamTaskLogs =>
    obtain ⟨rfl, rfl⟩ := Prod.mk.inj (Option.some.inj ha)
    cases hp
  | _ => cases ha

theorem Handler.serves_sendAll (evs : List JobEvent) (k : WatchNext) :
    (sendAll j evs k).serves = some (.watching j) := by
  unfold sendAll
  split <;> rfl

theorem Handler.not_invoking_of_quiet {h : Handler} {req : InvokeFunctionRequest}
    (hq : h.Quiet = true) : h.serves ≠ some (.invoking req) := by
  cases h <;> simp_all [Handler.Quiet, Handler.serves]

theorem Handler.Steps.invoking {h h' : Handler} (hst : Handler.Steps m ch c h m' h' es)
    {req : InvokeFunctionRequest} (hr : h'.serves = some (.invoking req)) :
    h.serves = some (.invoking req) := by
  cases hst with
  | quiet _ hq => exact absurd hr (not_invoking_of_quiet hq)
  | submitError | invoked | putResult | appendTail | report | reportError => cases hr
  | _ => exact hr

theorem Handler.not_watching_of_aloof {h : Handler} (ha : h.aloof = true) :
    h.serves ≠ some (.watching j) := by
  cases h <;> simp_all [Handler.aloof, Handler.serves]

theorem Handler.Moves.watching {h h' : Handler} (hm : Handler.Moves m ch c h m' h' es)
    (hr : h'.serves = some (.watching j)) : h.serves = some (.watching j) := by
  cases hm with
  | aloof _ ha => exact absurd hr (not_watching_of_aloof ha)
  | @notify req pc m' next => cases next <;> cases hr
  | sent =>
    rw [serves_sendAll] at hr
    exact hr
  | loadWatch | subscribe | sendError | pollTerminal | pollStatus | pollSame | waitDone | waitEvent
  | waitTick | drainEvent | drained => exact hr
  | _ => cases hr

theorem Handler.serves_kept {h : Handler} {stmt : Code Handler} {r : stmt.op.Res} {p : Served}
    (hcode : Handler.code c h = some stmt) (hp : perform cfg m ch stmt.op = some (m', r, es))
    (hr : (stmt.next r).serves = some p) : h.serves = some p := by
  cases p with
  | invoking req => exact (Handler.steps hcode hp).invoking hr
  | watching j => exact (Handler.moves hcode hp).watching hr

theorem Handler.Steps.invoked_eq {h h' : Handler} (hst : Handler.Steps m ch c h m' h' es) {d : Nat}
    {req : InvokeFunctionRequest} {created : Bool} (hev : .invoked d req j created ∈ es) :
    h = .invoked req j created := by
  cases hst with
  | invoked =>
    simp only [List.mem_singleton, Event.invoked.injEq] at hev
    obtain ⟨-, rfl, rfl, rfl⟩ := hev
    rfl
  | quiet _ _ _ hes => simpa [Event.Quiet] using hes _ hev
  | _ => simp at hev

theorem Handler.Moves.watched_eq {h h' : Handler} (hm : Handler.Moves m ch c h m' h' es) {d : Nat}
    {ev : JobEvent} (hev : .watched d ev ∈ es) : ∃ k evs next, h = .sendEvent k ev evs next := by
  cases hm with
  | aloof _ _ _ hes => simpa [Event.isWatched] using hes _ hev
  | sent =>
    simp only [List.mem_singleton, Event.watched.injEq] at hev
    obtain ⟨-, rfl⟩ := hev
    exact ⟨_, _, _, rfl⟩
  | _ => simp at hev

/-- What goes out on a call answers what the call was made for; `P` says what that was. -/
structure Answering (P : Nat → Served → Prop) (es : List Event) (s : State) : Prop where
  calls : ∀ c p, (s.calls c).serves = some p → P c p
  invoked : ∀ c req j created, .invoked c req j created ∈ es → P c (.invoking req)
  watched : ∀ c ev, .watched c ev ∈ es → P c (.watching ev.jobID)

section Answering

variable {P : Nat → Served → Prop}

theorem Answering.step (h : Answering P es s) (haddr : Addressed s)
    (ha : ∀ c p, a.dials = some (c, p) → P c p) (hst : step cfg s a = some (t, fs)) :
    Answering P (es ++ fs) t where
  calls d p hp := by
    cases callsStep_of_step hst with
    | opens hopens _ hcalls =>
      rw [hcalls, Function.update_apply] at hp
      split at hp
      · rename_i hd
        exact ha d p (hd ▸ Action.opens_serves hopens hp)
      · exact h.calls d p hp
    | call _ hcode hperf ht =>
      rw [ht, setCall_calls] at hp
      split at hp
      · rename_i hd
        exact h.calls d p (hd ▸ Handler.serves_kept hcode hperf hp)
      · exact h.calls d p hp
    | kept _ hcalls => exact h.calls d p (hcalls ▸ hp)
    | lost _ hidle => simp [hidle, Handler.serves] at hp
  invoked d req j created hev := by
    rcases List.mem_append.mp hev with hev | hev
    · exact h.invoked d req j created hev
    · obtain ⟨ch, stmt, mem, r, -, hcode, hp, -⟩ := call_of_event hst hev rfl
      refine h.calls d _ ?_
      rw [(Handler.steps hcode hp).invoked_eq hev]
      rfl
  watched d ev hev := by
    rcases List.mem_append.mp hev with hev | hev
    · exact h.watched d ev hev
    · obtain ⟨ch, stmt, mem, r, -, hcode, hp, -⟩ := call_of_event hst hev rfl
      obtain ⟨k, evs, next, hc⟩ := (Handler.moves hcode hp).watched_eq hev
      have habout := haddr.calls d
      rw [hc] at habout
      obtain rfl := habout.1 ev (by simp)
      refine h.calls d _ ?_
      rw [hc]
      rfl

theorem answering_of_run
    (h : (machine cfg).Run (fun _ a => ∀ c p, a.dials = some (c, p) → P c p) init as es s) :
    Answering P es s := by
  have hinv := h.invariant_trace (P := fun es s => (Inv s ∧ Addressed s) ∧ Answering P es s)
    ⟨⟨.init, .init⟩, by simp [init, Handler.serves], by simp, by simp⟩ ?_
  · exact hinv.2
  · rintro es s a t fs ⟨⟨hi, haddr⟩, hans⟩ ha hst
    have hstepped := stepped_of_step hst
    exact ⟨⟨(hi.step hstepped).1, haddr.step hi hstepped⟩, hans.step haddr ha hst⟩

end Answering

inductive Indexes (st st' : BoltStore) : List Event → Prop
  | kept {events} : st'.idempotency = st.idempotency → Indexes st st' events
  | added {rec key} (hkey : validKey key = true) : st.idempotency.get key = none →
      st'.idempotency = st.idempotency.insert key rec.id hkey →
      Indexes st st' [.submitted rec key (.ok (rec.id, true))]

theorem Transits.idempotency {mutate : Mutator} {k : Captured} {b : Except Err Bool}
    (h : Transits m ch j mutate m' k b) : m'.store.idempotency = m.store.idempotency := by
  cases h <;> rfl

theorem submit_indexes {st st' : BoltStore} {rec : JobRecord} {key : String} {now : Nat}
    (h : st.submitWithIdempotency rec key now = (st', .ok (j, true))) :
    Indexes st st' [.submitted rec key (.ok (j, true))] := by
  rw [BoltStore.submitWithIdempotency] at h
  rcases st.submitTx_cases ({ rec with idempotencyKey := key }.stamp now) key with
    ⟨existing, -, -, heq⟩ | ⟨e, heq⟩ | ⟨hv, ⟨hkey, heq⟩ | ⟨hk, hnone, heq⟩⟩
  all_goals
    rw [heq] at h
    obtain ⟨rfl, hres⟩ := Prod.mk.inj h
  · simp at hres
  · simp at hres
  · exact .kept rfl
  · simp only [Except.ok.injEq, Prod.mk.injEq, and_true] at hres
    subst hres
    exact .added hk hnone rfl

theorem Handler.Steps.indexes {h h' : Handler} (hst : Handler.Steps m ch c h m' h' es) :
    Indexes m.store m'.store es := by
  cases hst with
  | created _ hres => exact submit_indexes hres
  | existing _ hres =>
    have hsame := BoltStore.submitTx_existing (congrArg Prod.snd hres)
    exact .kept (congrArg BoltStore.idempotency ((congrArg Prod.fst hres).symm.trans hsame))
  | report ht | reportError ht => exact .kept ht.idempotency
  | quiet _ _ hm => exact .kept (congrArg BoltStore.idempotency hm.store)
  | _ => exact .kept rfl

theorem Drainer.Steps.idempotency {d d' : Drainer} (h : Drainer.Steps cfg m ch d m' d' es) :
    m'.store.idempotency = m.store.idempotency := by
  cases h with
  | missingPayload ht | mark ht | markSkip ht | markError ht | revert ht | fail ht =>
    exact ht.idempotency
  | _ => rfl

theorem Detector.Steps.idempotency {d d' : Detector} (h : Detector.Steps cfg m ch d m' d' es) :
    m'.store.idempotency = m.store.idempotency := by
  cases h with
  | requeue ht | giveUp ht | skip ht => exact ht.idempotency
  | _ => rfl

theorem Main.Steps.idempotency {pc pc' : Main} (h : Main.Steps m ch pc m' pc' es) :
    m'.store.idempotency = m.store.idempotency := by
  cases h with
  | replay ht | replayError ht => exact ht.idempotency
  | _ => rfl

theorem Stepped.indexes (h : Stepped cfg s a t fs) : Indexes s.mem.store t.mem.store fs := by
  cases h with
  | main hcode hp => exact .kept (Main.steps hcode hp).idempotency
  | drainer _ hcode hp => exact .kept (Drainer.steps hcode hp).idempotency
  | detector _ hcode hp => exact .kept (Detector.steps hcode hp).idempotency
  | call hcode hp => exact (Handler.steps hcode hp).indexes
  | _ => exact .kept rfl

theorem Indexes.permanent {st st' : BoltStore} (h : Indexes st st' fs) {key id : String}
    (hid : st.idempotency.get key = some id) : st'.idempotency.get key = some id := by
  cases h with
  | kept heq => rw [heq, hid]
  | @added rec key' hkey hnone heq =>
    rw [heq, Lib.Bucket.get_insert_ne, hid]
    rintro rfl
    simp [hnone] at hid

/-- The answer `j` to `req` is right: the job has been submitted with the key of `req`, with its
payload if there is no key, and a key has no other job. -/
structure Assigned (es : List Event) (st : BoltStore) (req : InvokeFunctionRequest) (j : String) :
    Prop where
  submitted : ∃ rec, Submitted es rec req.idempotencyKey ∧ rec.id = j ∧ (req.idempotencyKey = "" →
    rec.functionBytes = req.functionBytes ∧ rec.argsBytes = req.argsBytes)
  indexed : req.idempotencyKey ≠ "" → st.idempotency.get req.idempotencyKey = some j

theorem Assigned.mono {st st' : BoltStore} {req : InvokeFunctionRequest} (h : Assigned es st req j)
    (hst : Indexes st st' fs) : Assigned (es ++ fs) st' req j where
  submitted := by
    obtain ⟨rec, hsub, hrec⟩ := h.submitted
    exact ⟨rec, hsub.mono, hrec⟩
  indexed hkey := hst.permanent (h.indexed hkey)

def Handler.answer : Handler → Option (InvokeFunctionRequest × String)
  | .enqueue req j _ | .recordInvocation req j | .invoked req j _ => some (req, j)
  | _ => none

structure Keyed (es : List Event) (s : State) : Prop where
  known : ∀ key id, s.mem.store.idempotency.get key = some id →
    ∃ rec, Submitted es rec key ∧ rec.id = id
  answer : ∀ c req j, (s.calls c).answer = some (req, j) → Assigned es s.mem.store req j
  invoked : ∀ c req j created, .invoked c req j created ∈ es → Assigned es s.mem.store req j

theorem Handler.answer_of_quiet {h : Handler} (hq : h.Quiet = true) : h.answer = none := by
  cases h <;> first | rfl | simp [Handler.Quiet] at hq

theorem Action.opens_answer {h : Handler} (ha : a.opens cfg = some (c, h)) : h.answer = none := by
  cases a with
  | invokeFunction | getJobStatus | watchJob | reportTaskResult =>
    obtain ⟨-, rfl⟩ := Prod.mk.inj (Option.some.inj ha)
    simp only [Handler.invokeFunction, Handler.getJobStatus, Handler.watchJob,
      Handler.reportTaskResult, Handler.requireJobID]
    repeat' split
    all_goals rfl
  | streamTaskLogs =>
    obtain ⟨-, rfl⟩ := Prod.mk.inj (Option.some.inj ha)
    rfl
  | _ => cases ha

theorem Handler.Steps.answer {h h' : Handler} (hst : Handler.Steps m ch c h m' h' es)
    {req : InvokeFunctionRequest} (hr : h'.answer = some (req, j)) :
    h.answer = some (req, j) ∨ ∃ rec created, h = .submit req rec ∧
      m.store.submitWithIdempotency rec req.idempotencyKey ch.now = (m'.store, .ok (j, created)) ∧
      es = [.submitted rec req.idempotencyKey (.ok (j, created))] := by
  cases hst with
  | created _ hres | existing _ hres =>
    obtain ⟨rfl, rfl⟩ := Prod.mk.inj (Option.some.inj hr)
    exact .inr ⟨_, _, rfl, hres, rfl⟩
  | quiet _ hq => simp [answer_of_quiet hq] at hr
  | submitError | invoked | putResult | appendTail | report | reportError => cases hr
  | _ => exact .inl hr

theorem Keyed.assigned (h : Keyed es s) {req : InvokeFunctionRequest} {rec : JobRecord} {now : Nat}
    {st : BoltStore} {created : Bool} (hbuilt : ∃ now, rec = builtRecord req rec.id now)
    (hres : s.mem.store.submitWithIdempotency rec req.idempotencyKey now = (st, .ok (j, created))) :
    Assigned (es ++ [.submitted rec req.idempotencyKey (.ok (j, created))]) st req j := by
  have hbytes : rec.functionBytes = req.functionBytes ∧ rec.argsBytes = req.argsBytes := by
    obtain ⟨now', hbuilt⟩ := hbuilt
    rw [hbuilt]
    exact ⟨rfl, rfl⟩
  rw [BoltStore.submitWithIdempotency] at hres
  rcases s.mem.store.submitTx_cases ({ rec with idempotencyKey := req.idempotencyKey }.stamp now)
    req.idempotencyKey with
    ⟨existing, hkey, hget, heq⟩ | ⟨e, heq⟩ | ⟨hv, ⟨hkey, heq⟩ | ⟨hk, hnone, heq⟩⟩
  all_goals
    rw [heq, Prod.mk.injEq] at hres
    obtain ⟨rfl, hres⟩ := hres
  · simp only [Except.ok.injEq, Prod.mk.injEq] at hres
    obtain ⟨rfl, -⟩ := hres
    obtain ⟨rec', hsub, hid⟩ := h.known _ _ hget
    exact ⟨⟨rec', hsub.mono, hid, fun he => absurd he hkey⟩, fun _ => hget⟩
  · simp at hres
  all_goals
    simp only [Except.ok.injEq, Prod.mk.injEq] at hres
    obtain ⟨rfl, rfl⟩ := hres
    refine ⟨⟨rec, List.mem_append_right _ (List.mem_singleton_self _), rfl, fun _ => hbytes⟩, ?_⟩
  · exact fun hne => absurd hkey hne
  · exact fun _ => Lib.Bucket.get_insert_self _ _ _ hk

theorem Keyed.step (h : Keyed es s) (htr : Traced es s) (hst : step cfg s a = some (t, fs)) :
    Keyed (es ++ fs) t := by
  have hidx := (stepped_of_step hst).indexes
  refine ⟨fun key id hget => ?_, fun d req j hr => ?_, fun d req j created hev => ?_⟩
  · cases hidx with
    | kept heq =>
      obtain ⟨rec, hsub, hid⟩ := h.known key id (heq ▸ hget)
      exact ⟨rec, hsub.mono, hid⟩
    | @added rec key' hkey hnone heq =>
      rw [heq, Lib.Bucket.get_insert] at hget
      split at hget
      · rename_i hk
        subst hk
        exact ⟨rec, List.mem_append_right _ (List.mem_singleton_self _), Option.some.inj hget⟩
      · obtain ⟨rec', hsub, hid⟩ := h.known key id hget
        exact ⟨rec', hsub.mono, hid⟩
  · cases callsStep_of_step hst with
    | opens hopens _ hcalls =>
      rw [hcalls, Function.update_apply] at hr
      split at hr
      · simp [Action.opens_answer hopens] at hr
      · exact (h.answer d req j hr).mono hidx
    | call _ hcode hp ht =>
      subst ht
      rw [setCall_calls] at hr
      split at hr
      · rcases (Handler.steps hcode hp).answer hr with hold | ⟨rec, created, hc, hres, rfl⟩
        · exact (h.answer _ req j hold).mono hidx
        · exact h.assigned (htr.built _ req rec hc) hres
      · exact (h.answer d req j hr).mono hidx
    | kept _ hcalls => exact (h.answer d req j (hcalls ▸ hr)).mono hidx
    | lost _ hidle => simp [hidle, Handler.answer] at hr
  · rcases List.mem_append.mp hev with hev | hev
    · exact (h.invoked d req j created hev).mono hidx
    · obtain ⟨ch, stmt, mem, r, -, hcode, hp, -⟩ := call_of_event hst hev rfl
      refine (h.answer d req j ?_).mono hidx
      rw [(Handler.steps hcode hp).invoked_eq hev]
      rfl

theorem keyed_of_run (h : (machine cfg).Run Lib.Machine.Always init as es s) : Keyed es s := by
  have hinv := h.invariant_trace (P := fun es s => (Inv s ∧ Traced es s) ∧ Keyed es s)
    ⟨⟨.init, .init⟩, by simp [init], by simp [init, Handler.answer], by simp⟩ ?_
  · exact hinv.2
  · rintro es s a t fs ⟨⟨hi, htr⟩, hk⟩ - hst
    have hstepped := stepped_of_step hst
    exact ⟨⟨(hi.step hstepped).1, htr.step hi hstepped⟩, hk.step htr hst⟩

end Minimodal.Server
