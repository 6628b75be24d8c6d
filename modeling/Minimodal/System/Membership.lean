import Minimodal.Server.Reaper
import Minimodal.Worker.Heartbeat

namespace Minimodal

namespace WorkerPool

variable {p : WorkerPool} {id : String}

theorem get_foldl_markDead {dead : List String} (h : id ∉ dead) :
    (dead.foldl markDead p).workers.get id = p.workers.get id := by
  induction dead generalizing p with
  | nil => rfl
  | cons x dead ih =>
    simp only [List.mem_cons, not_or] at h
    rw [List.foldl_cons, ih h.2, markDead, Lib.Bucket.get_modify, if_neg (Ne.symm h.1)]

theorem sweep_of_fresh {order : List String} {entries : List (String × WorkerState)}
    {timeout now : Nat} (hrange : p.range order = some entries)
    (hfresh : ∀ st, p.workers.get id = some st → expired timeout now st = false) :
    id ∉ (p.sweep timeout now entries).2 ∧
      (p.sweep timeout now entries).1.workers.get id = p.workers.get id := by
  have hdead : id ∉ (p.sweep timeout now entries).2 := by
    intro hmem
    obtain ⟨⟨x, st⟩, hentry, rfl⟩ := List.mem_map.mp hmem
    obtain ⟨hentry, hexpired⟩ := List.mem_filter.mp hentry
    simp [hfresh st (get_of_mem_range hrange hentry)] at hexpired
  exact ⟨hdead, get_foldl_markDead hdead⟩

end WorkerPool

namespace Server

variable {cfg : Config} {s t : State} {a : Action} {m m' : Mem} {ch : Choice} {es : List Event}
  {w : String}

def State.entry (s : State) (w : String) : Option WorkerState := s.mem.pool.workers.get w

def Action.contacts (w : String) : Action → Bool
  | .registerWorker req _ => req.workerID = w
  | .heartbeat req _ => req.workerID = w
  | _ => false

def Action.restarts : Action → Bool
  | .start | .crash => true
  | _ => false

theorem Main.Steps.pool {pc pc' : Main} (h : Main.Steps m ch pc m' pc' es) : m'.pool = m.pool := by
  cases h with
  | replay ht | replayError ht => rw [ht.mem]
  | _ => rfl

theorem Main.Steps.not_declaredDead {pc pc' : Main} (h : Main.Steps m ch pc m' pc' es) :
    .declaredDead w ∉ es := by
  cases h <;> simp

theorem Drainer.Steps.not_declaredDead {d d' : Drainer} (h : Drainer.Steps cfg m ch d m' d' es) :
    .declaredDead w ∉ es := by
  cases h <;> simp

theorem Detector.Steps.entry {d d' : Detector} (h : Detector.Steps cfg m ch d m' d' es)
    (hfresh : ∀ st, m.pool.workers.get w = some st →
      WorkerPool.expired cfg.workerTimeout ch.now st = false) :
    m'.pool.workers.get w = m.pool.workers.get w ∧ .declaredDead w ∉ es := by
  cases h with
  | sweep hrange =>
    obtain ⟨hdead, hget⟩ := WorkerPool.sweep_of_fresh hrange hfresh
    exact ⟨hget, by simpa using hdead⟩
  | requeue ht | giveUp ht | skip ht => exact ⟨by rw [ht.mem], by simp⟩
  | _ => exact ⟨rfl, by simp⟩

theorem Handler.Steps.not_declaredDead {c : Nat} {h h' : Handler}
    (hst : Handler.Steps m ch c h m' h' es) : .declaredDead w ∉ es := by
  cases hst with
  | quiet _ _ _ hes =>
    intro hev
    cases hes _ hev
  | _ => simp

theorem entry_of_step (h : step cfg s a = some (t, es)) (ha : a.contacts w = false)
    (hfresh : ∀ ch st, a = .detector ch → s.entry w = some st →
      WorkerPool.expired cfg.workerTimeout ch.now st = false) :
    (t.entry w = s.entry w ∨ a.restarts = true ∧ t.entry w = none) ∧ .declaredDead w ∉ es := by
  cases stepped_of_step h with
  | start | crash => exact ⟨.inr ⟨rfl, Lib.Bucket.get_empty w⟩, by simp⟩
  | main hcode hp =>
    have hst := Main.steps hcode hp
    exact ⟨.inl (congrArg (fun p : WorkerPool => p.workers.get w) hst.pool), hst.not_declaredDead⟩
  | drainer _ hcode hp =>
    have hst := Drainer.steps hcode hp
    exact ⟨.inl (congrArg (fun p : WorkerPool => p.workers.get w) hst.pool), hst.not_declaredDead⟩
  | detector _ hcode hp =>
    obtain ⟨hentry, hdead⟩ := (Detector.steps hcode hp).entry fun st => hfresh _ st rfl
    exact ⟨.inl hentry, hdead⟩
  | call hcode hp =>
    have hst := Handler.steps hcode hp
    exact ⟨.inl (congrArg (fun p : WorkerPool => p.workers.get w) hst.pool), hst.not_declaredDead⟩
  | @registerWorker req now _ =>
    simp only [Action.contacts, decide_eq_false_iff_not] at ha
    refine ⟨.inl ?_, by simp⟩
    simp only [State.entry, Server.registerWorker]
    split
    · simp [WorkerPool.register, Lib.Bucket.get_insert, ha]
    · rfl
  | @heartbeat req now _ =>
    simp only [Action.contacts, decide_eq_false_iff_not] at ha
    refine ⟨.inl ?_, by simp⟩
    simp only [State.entry, Server.heartbeat]
    split
    · rfl
    · simp only [WorkerPool.recordHeartbeat]
      split
      · rfl
      · simp [Lib.Bucket.get_modify, ha]
  | _ => exact ⟨.inl rfl, by simp⟩

theorem registerWorker_entry (cfg : Config) (p : WorkerPool) (w : Worker.Identity) (now : Nat) :
    (registerWorker cfg p w.registerWorkerRequest now).2 =
        .ok ⟨w.workerID, int32 cfg.heartbeatIntervalMs⟩ ∧
      ∃ st, (registerWorker cfg p w.registerWorkerRequest now).1.workers.get w.workerID = some st ∧
        st.alive = true ∧ st.lastHeartbeat = now := by
  have hvalid : validWorkerID w.registerWorkerRequest.workerID = true ∧
      w.registerWorkerRequest.address ≠ "" := ⟨w.validID, w.validAddress⟩
  rw [registerWorker, dif_pos hvalid]
  exact ⟨rfl, _, Lib.Bucket.get_insert_self _ _ _ w.validID, rfl, rfl⟩

theorem heartbeat_unknown {p : WorkerPool} {activeTasks : Int} {now : Nat}
    (hvalid : validWorkerID w = true) (h : p.workers.get w = none) :
    heartbeat p ⟨w, activeTasks⟩ now = (p, .ok ⟨true⟩) := by
  have hne : w ≠ "" := by simpa [validWorkerID] using hvalid
  simp [heartbeat, hne, WorkerPool.recordHeartbeat, h]

theorem heartbeat_known {p : WorkerPool} {activeTasks : Int} {now : Nat} {st : WorkerState}
    (hvalid : validWorkerID w = true) (h : p.workers.get w = some st) :
    (heartbeat p ⟨w, activeTasks⟩ now).2 = .ok ⟨false⟩ ∧
      ∃ st', (heartbeat p ⟨w, activeTasks⟩ now).1.workers.get w = some st' ∧ st'.alive = true ∧
        st'.lastHeartbeat = now := by
  have hne : w ≠ "" := by simpa [validWorkerID] using hvalid
  simp [heartbeat, hne, WorkerPool.recordHeartbeat, h, Lib.Bucket.get_modify]

end Server

namespace Membership

open Worker (Beat Identity)

inductive Steps (cfg : Config) (w : Identity) (s : Membership) :
    Action → Membership → List Server.Event → Prop
  | elapse {ms} : Steps cfg w s (.elapse ms) { s with now := s.now + ms } []
  | server {a server es} : a.time.all (· = s.now) = true →
      Server.step cfg s.server a = some (server, es) → Steps cfg w s (.server a) { s with server } es
  | registered {i backoffMs n server st ev} : s.beat = .registering i backoffMs none →
      server.entry w.workerID = some st → st.alive = true → st.lastHeartbeat = s.now →
      Steps cfg w s (.handle n)
        { s with
          server
          beat := .registering i backoffMs
            (some (.ok ⟨w.workerID, int32 cfg.heartbeatIntervalMs⟩)) } [.registered ev]
  | drained {i n server ev} : s.beat = .beating i none → server.entry w.workerID = none →
      s.server.entry w.workerID = none →
      Steps cfg w s (.handle n) { s with server, beat := .beating i (some (.ok ⟨true⟩)) }
        [.heartbeat ev]
  | beaten {i n server st ev} : s.beat = .beating i none →
      server.entry w.workerID = some st → st.alive = true → st.lastHeartbeat = s.now →
      Steps cfg w s (.handle n) { s with server, beat := .beating i (some (.ok ⟨false⟩)) }
        [.heartbeat ev]
  | send {beat} : s.beat.send = some beat → Steps cfg w s .send (s.move s.missed beat) []
  | receive {beat} : s.beat.receive = some beat →
      Steps cfg w s .receive
        (s.move (if s.beat.answered then 0 else s.beat.missed s.missed) beat) []
  | fail {beat} : s.beat.fail = some beat →
      Steps cfg w s .fail (s.move (s.beat.missed s.missed) beat) []
  | wake {beat} : s.beat.wake = some beat → Steps cfg w s .wake (s.move s.missed beat) []
  | stop {beat} : s.beat.stop = some beat → Steps cfg w s .stop (s.move s.missed beat) []

section Steps

variable {cfg : Config} {w : Identity} {s t : Membership} {a : Action} {es : List Server.Event}

theorem steps_of_handle {n : Int} (h : s.handle cfg w n = some (t, es)) :
    Steps cfg w s (.handle n) t es := by
  unfold handle at h
  split at h
  · rename_i hb
    simp only [Server.step, Option.map_eq_some_iff, Option.ite_none_right_eq_some,
      Option.some.injEq, Prod.mk.injEq, Prod.exists] at h
    obtain ⟨server, evs, ⟨-, rfl, rfl⟩, rfl, rfl⟩ := h
    obtain ⟨hanswer, st, hget, halive, hlast⟩ :=
      Server.registerWorker_entry cfg s.server.mem.pool w s.now
    rw [hanswer]
    exact .registered hb hget halive hlast
  · rename_i hb
    simp only [Server.step, Option.map_eq_some_iff, Option.ite_none_right_eq_some,
      Option.some.injEq, Prod.mk.injEq, Prod.exists] at h
    obtain ⟨server, evs, ⟨-, rfl, rfl⟩, rfl, rfl⟩ := h
    cases hget : s.server.mem.pool.workers.get w.workerID with
    | none =>
      rw [Server.heartbeat_unknown w.validID hget]
      exact .drained hb hget hget
    | some st =>
      obtain ⟨hanswer, st, hget, halive, hlast⟩ := Server.heartbeat_known w.validID hget
      rw [hanswer]
      exact .beaten hb hget halive hlast
  · cases h

theorem steps_of_step (h : step cfg w s a = some (t, es)) : Steps cfg w s a t es := by
  cases a with
  | elapse ms =>
    obtain ⟨rfl, rfl⟩ := Prod.mk.inj (Option.some.inj h)
    exact .elapse
  | server a =>
    simp only [step, Option.ite_none_right_eq_some, Option.map_eq_some_iff, Prod.mk.injEq,
      Prod.exists] at h
    obtain ⟨htime, server, evs, hst, rfl, rfl⟩ := h
    exact .server htime hst
  | handle n => exact steps_of_handle h
  | send =>
    simp only [step, Option.map_eq_some_iff, Prod.mk.injEq] at h
    obtain ⟨beat, hbeat, rfl, rfl⟩ := h
    exact .send hbeat
  | receive =>
    simp only [step, Option.map_eq_some_iff, Prod.mk.injEq] at h
    obtain ⟨beat, hbeat, rfl, rfl⟩ := h
    exact .receive hbeat
  | fail =>
    simp only [step, Option.map_eq_some_iff, Prod.mk.injEq] at h
    obtain ⟨beat, hbeat, rfl, rfl⟩ := h
    exact .fail hbeat
  | wake =>
    simp only [step, Option.ite_none_right_eq_some, Option.map_eq_some_iff, Prod.mk.injEq] at h
    obtain ⟨-, beat, hbeat, rfl, rfl⟩ := h
    exact .wake hbeat
  | stop =>
    simp only [step, Option.map_eq_some_iff, Prod.mk.injEq] at h
    obtain ⟨beat, hbeat, rfl, rfl⟩ := h
    exact .stop hbeat

end Steps

/-- `slack` is how late a thread runs, `delay` how long a call takes that is answered, both in
milliseconds. -/
structure Network where
  slack : Nat
  delay : Nat
  delay_le : delay ≤ 2000

variable (cfg : Config) (net : Network) (w : Identity)

/-- How long the thread stays where it is. A call that is lost runs into its timeout. -/
def Network.allowance (lossy : Bool) : Beat → Nat
  | .register _ _ | .beat _ => net.slack
  | .registering _ _ _ => if lossy then 5000 + net.slack else net.delay
  | .beating _ _ => if lossy then 2000 + net.slack else net.delay
  | .sleep _ backoffMs => backoffMs + net.slack
  | .wait interval => interval.toNat + net.slack
  | .stopped => 0

/-- The thread runs on time, calls are answered in time unless `lossy`, and nobody else speaks for
the worker. -/
def timely (lossy : Membership → Bool) (s : Membership) : Action → Bool
  | .elapse ms => s.now + ms ≤ s.since + net.allowance (lossy s) s.beat
  | .server a => !a.contacts w.workerID
  | .handle _ | .receive => s.now ≤ s.since + net.delay
  | .fail => lossy s
  | .stop => false
  | _ => true

/-- A registration may be lost unless it has taken effect, and so may `misses` heartbeats in a
row. -/
def tolerated (misses : Nat) (s : Membership) : Bool :=
  match s.beat with
  | .registering _ _ _ => (s.server.entry w.workerID).isNone
  | _ => s.missed < misses

def interval : Int := Worker.heartbeatInterval ⟨"", int32 cfg.heartbeatIntervalMs⟩

/-- From one heartbeat to the next when the first is lost. -/
def Network.cycle : Nat := (interval cfg).toNat + 2000 + 3 * net.slack

/-- How long a worker may go unheard. -/
def Network.silence (misses : Nat) : Nat :=
  2 * net.delay + misses * net.cycle cfg + (interval cfg).toNat + 2 * net.slack

/-- How long before `since` the orchestrator has last heard from a worker that it knows; it does
not know the worker at the other points. -/
def Network.lag (missed : Nat) : Beat → Option Nat
  | .registering _ _ (some (.ok _)) | .beating _ (some (.ok ⟨false⟩)) => some 0
  | .wait _ => some (net.delay + missed * net.cycle cfg)
  | .beat _ => some (net.delay + missed * net.cycle cfg + (interval cfg).toNat + net.slack)
  | .beating _ none =>
    some (net.delay + missed * net.cycle cfg + (interval cfg).toNat + 2 * net.slack)
  | _ => none

/-- The loop has that interval, the back-off is bounded, and what the orchestrator has answered is
no error. -/
def Paced : Beat → Prop
  | .register i backoffMs | .sleep i backoffMs => backoffMs ≤ 5000 ∧ ∀ x ∈ i, x = interval cfg
  | .registering i backoffMs answer => (backoffMs ≤ 5000 ∧ ∀ x ∈ i, x = interval cfg) ∧
      ∀ r ∈ answer, r = .ok ⟨w.workerID, int32 cfg.heartbeatIntervalMs⟩
  | .beat i | .wait i => i = interval cfg
  | .beating i answer => i = interval cfg ∧ ∀ r ∈ answer, ∃ drain, r = .ok ⟨drain⟩
  | .stopped => True

def Recent (missed : Nat) (s : Membership) (st : WorkerState) : Prop :=
  st.alive = true ∧
    ∃ lag, net.lag cfg missed s.beat = some lag ∧ s.since ≤ st.lastHeartbeat + lag

structure Heard (misses : Nat) (s : Membership) : Prop where
  since : s.since ≤ s.now
  due : s.now ≤ s.since + net.allowance (tolerated w misses s) s.beat
  missed : s.missed ≤ misses
  paced : Paced cfg w s.beat
  entry : ∀ st, s.server.entry w.workerID = some st → Recent cfg net s.missed s st

variable {cfg net w} {misses : Nat} {s t : Membership} {es : List Server.Event}

namespace Paced

variable {b b' : Beat} (h : Paced cfg w b)

include h

theorem send (hsend : b.send = some b') : Paced cfg w b' := by
  unfold Beat.send at hsend
  split at hsend <;> cases hsend
  · exact ⟨h, by simp⟩
  · exact ⟨h, by simp⟩

theorem wake (hwake : b.wake = some b') : Paced cfg w b' := by
  unfold Beat.wake at hwake
  split at hwake <;> cases hwake
  · exact ⟨Nat.min_le_right _ _, h.2⟩
  · exact h

theorem fail (hfail : b.fail = some b') : Paced cfg w b' := by
  unfold Beat.fail at hfail
  split at hfail <;> cases hfail
  · exact h.1
  · exact h.1

theorem receive (hreceive : b.receive = some b') : Paced cfg w b' := by
  unfold Beat.receive at hreceive
  split at hreceive <;> cases hreceive
  · rename_i i backoffMs resp
    obtain rfl := Except.ok.inj (h.2 _ rfl)
    cases i with
    | none => exact rfl
    | some i => exact h.1.2 i rfl
  · cases h.2 _ rfl
  · rename_i i resp
    obtain ⟨rfl, -⟩ := h
    rcases resp with ⟨_ | _⟩
    · exact rfl
    · simp [Paced]
  · obtain ⟨drain, hr⟩ := h.2 _ rfl
    cases hr

theorem answered (hreceive : b.receive = some b') : b.answered = true := by
  unfold Beat.receive at hreceive
  split at hreceive <;> cases hreceive
  · rfl
  · cases h.2 _ rfl
  · rfl
  · obtain ⟨drain, hr⟩ := h.2 _ rfl
    cases hr

omit h in
theorem stop (hstop : b.stop = some b') : Paced cfg w b' := by
  unfold Beat.stop at hstop
  split at hstop <;> cases hstop
  · trivial
  · trivial

omit h in
theorem step {a : Action} (h : Paced cfg w s.beat) (hst : Steps cfg w s a t es) :
    Paced cfg w t.beat := by
  cases hst with
  | elapse | server => exact h
  | registered hb | drained hb | beaten hb =>
    rw [hb] at h
    exact ⟨h.1, by simp⟩
  | send hbeat => exact h.send hbeat
  | receive hbeat => exact h.receive hbeat
  | fail hbeat => exact h.fail hbeat
  | wake hbeat => exact h.wake hbeat
  | stop hbeat => exact stop hbeat

end Paced

def inFlight : Beat → Bool
  | .registering _ _ _ | .beating _ _ => true
  | _ => false

namespace Network

theorem delay_le_allowance (lossy : Bool) {beat : Beat} (h : inFlight beat = true) :
    net.delay ≤ net.allowance lossy beat := by
  have hdelay := net.delay_le
  cases beat with
  | registering | beating =>
    simp only [allowance]
    split
    all_goals omega
  | _ => cases h

theorem allowance_le (lossy : Bool) (beat : Beat) :
    net.allowance lossy beat ≤ net.allowance true beat := by
  have hdelay := net.delay_le
  cases beat with
  | registering | beating =>
    cases lossy
    · simp only [allowance, Bool.false_eq_true, if_false, if_true]
      omega
    · exact le_rfl
  | _ => exact le_rfl

variable {b b' : Beat} {missed missed' lag : Nat}

theorem lag_send (lossy : Bool) (h : b.send = some b') (hlag : net.lag cfg missed b = some lag) :
    ∃ lag', net.lag cfg missed b' = some lag' ∧ lag + net.allowance lossy b ≤ lag' := by
  unfold Beat.send at h
  split at h <;> cases h
  · cases hlag
  · cases hlag
    exact ⟨_, rfl, by simp only [allowance]; omega⟩

theorem lag_wake (lossy : Bool) (hpaced : Paced cfg w b) (h : b.wake = some b')
    (hlag : net.lag cfg missed b = some lag) :
    ∃ lag', net.lag cfg missed b' = some lag' ∧ lag + net.allowance lossy b ≤ lag' := by
  unfold Beat.wake at h
  split at h <;> cases h
  · cases hlag
  · obtain rfl : _ = interval cfg := hpaced
    cases hlag
    exact ⟨_, rfl, by simp only [allowance]; omega⟩

theorem lag_receive (hpaced : Paced cfg w b) (h : b.receive = some b')
    (hlag : net.lag cfg missed b = some lag) :
    ∃ lag', net.lag cfg missed' b' = some lag' ∧ lag + net.delay ≤ lag' := by
  unfold Beat.receive at h
  split at h <;> cases h
  · rename_i i backoffMs resp
    obtain rfl := Except.ok.inj (hpaced.2 _ rfl)
    cases hlag
    cases i
    · exact ⟨_, rfl, by omega⟩
    · exact ⟨_, rfl, by omega⟩
  · cases hlag
  · rename_i i resp
    rcases resp with ⟨_ | _⟩
    · cases hlag
      exact ⟨_, rfl, by omega⟩
    · cases hlag
  · cases hlag

end Network

namespace Recent

variable {missed : Nat} {st : WorkerState} (h : Recent cfg net missed s st)

include h

theorem now_le {lossy : Bool} (hpaced : Paced cfg w s.beat) (hmissed : missed ≤ misses)
    (hlossy : lossy = true → missed < misses ∧ ∀ i k r, s.beat ≠ .registering i k r)
    (hdue : s.now ≤ s.since + net.allowance lossy s.beat) :
    s.now ≤ st.lastHeartbeat + net.silence cfg misses := by
  obtain ⟨-, lag, hlag, hsince⟩ := h
  have hmul : missed * net.cycle cfg ≤ misses * net.cycle cfg := Nat.mul_le_mul_right _ hmissed
  have hlost : missed < misses →
      missed * net.cycle cfg + net.cycle cfg ≤ misses * net.cycle cfg := by
    intro hlt
    rw [← Nat.succ_mul]
    exact Nat.mul_le_mul_right _ hlt
  have hcycle : net.cycle cfg = (interval cfg).toNat + 2000 + 3 * net.slack := rfl
  unfold Network.silence
  generalize s.beat = beat at hdue hpaced hlag hlossy
  unfold Network.lag at hlag
  split at hlag <;> cases hlag
  · simp only [Network.allowance] at hdue
    split at hdue
    · exact absurd rfl ((hlossy ‹_›).2 _ _ _)
    · omega
  · simp only [Network.allowance] at hdue
    split at hdue
    · have := hlost (hlossy ‹_›).1
      omega
    · omega
  · obtain rfl : _ = interval cfg := hpaced
    simp only [Network.allowance] at hdue
    omega
  · simp only [Network.allowance] at hdue
    omega
  · simp only [Network.allowance] at hdue
    split at hdue
    · have := hlost (hlossy ‹_›).1
      omega
    · omega

theorem move {d missed' missed'' : Nat} {beat : Beat} (hnow : s.now ≤ s.since + d)
    (hlag : ∀ lag, net.lag cfg missed s.beat = some lag →
      ∃ lag', net.lag cfg missed' beat = some lag' ∧ lag + d ≤ lag') :
    Recent cfg net missed' (s.move missed'' beat) st := by
  obtain ⟨halive, lag, hl, hsince⟩ := h
  obtain ⟨lag', hl', hle⟩ := hlag lag hl
  exact ⟨halive, lag', hl', by simp only [Membership.move]; omega⟩

end Recent

theorem not_expired {st : WorkerState} {silence : Nat} (hbound : silence ≤ cfg.workerTimeout)
    (h : s.now ≤ st.lastHeartbeat + silence) :
    WorkerPool.expired cfg.workerTimeout s.now st = false := by
  simp only [WorkerPool.expired, Bool.and_eq_false_imp, decide_eq_false_iff_not]
  omega

theorem entry_of_step {a : Server.Action} {server : Server.State}
    (hfresh : ∀ st, s.server.entry w.workerID = some st →
      WorkerPool.expired cfg.workerTimeout s.now st = false)
    (ha : a.contacts w.workerID = false) (htime : a.time.all (· = s.now) = true)
    (hst : Server.step cfg s.server a = some (server, es)) :
    (server.entry w.workerID = s.server.entry w.workerID ∨
      a.restarts = true ∧ server.entry w.workerID = none) ∧ .declaredDead w.workerID ∉ es := by
  refine Server.entry_of_step hst ha fun ch st hch hget => ?_
  subst hch
  simp only [Server.Action.time, Option.all_some, decide_eq_true_eq] at htime
  rw [htime]
  exact hfresh st hget

namespace Heard

variable (h : Heard cfg net w misses s)

include h

theorem fresh (hbound : net.silence cfg misses ≤ cfg.workerTimeout) {st : WorkerState}
    (hst : s.server.entry w.workerID = some st) :
    WorkerPool.expired cfg.workerTimeout s.now st = false := by
  refine not_expired hbound ((h.entry st hst).now_le h.paced h.missed (fun hlossy => ?_) h.due)
  unfold tolerated at hlossy
  split at hlossy
  · simp [hst] at hlossy
  · rename_i hb
    exact ⟨of_decide_eq_true hlossy, hb⟩

theorem elapse {ms : Nat}
    (hms : s.now + ms ≤ s.since + net.allowance (tolerated w misses s) s.beat) :
    Heard cfg net w misses { s with now := s.now + ms } :=
  ⟨h.since.trans (Nat.le_add_right _ _), hms, h.missed, h.paced, h.entry⟩

theorem move {d missed : Nat} {beat : Beat} (hmissed : missed ≤ misses)
    (hpaced : Paced cfg w beat) (hnow : s.now ≤ s.since + d)
    (hlag : ∀ lag, net.lag cfg s.missed s.beat = some lag →
      ∃ lag', net.lag cfg missed beat = some lag' ∧ lag + d ≤ lag') :
    Heard cfg net w misses (s.move missed beat) :=
  ⟨le_rfl, Nat.le_add_right _ _, hmissed, hpaced, fun st hst => (h.entry st hst).move hnow hlag⟩

theorem server {server : Server.State}
    (hentry : server.entry w.workerID = s.server.entry w.workerID ∨
      server.entry w.workerID = none) : Heard cfg net w misses { s with server } := by
  rcases hentry with hsame | hnone
  · refine ⟨h.since, ?_, h.missed, h.paced, fun st hget => h.entry st (hsame.symm.trans hget)⟩
    have htol : tolerated w misses { s with server } = tolerated w misses s := by
      simp only [tolerated, hsame]
    exact htol ▸ h.due
  · refine ⟨h.since, ?_, h.missed, h.paced, fun st hget => by simp [hnone] at hget⟩
    -- what was not tolerated of a registration is so once the process has forgotten it
    refine h.due.trans (Nat.add_le_add_left ?_ _)
    simp only [tolerated, hnone]
    split
    · exact net.allowance_le _ _
    · exact le_rfl

theorem fail {beat : Beat} (hlossy : tolerated w misses s = true)
    (hfail : s.beat.fail = some beat) :
    Heard cfg net w misses (s.move (s.beat.missed s.missed) beat) := by
  have hdue := h.due
  have hpaced := h.paced.fail hfail
  rw [hlossy] at hdue
  unfold tolerated at hlossy
  generalize hb : s.beat = b at hfail hdue hlossy
  unfold Beat.fail at hfail
  split at hfail <;> cases hfail
  · refine ⟨le_rfl, Nat.le_add_right _ _, h.missed, hpaced, fun st hst => ?_⟩
    rw [show s.server.entry w.workerID = some st from hst] at hlossy
    cases hlossy
  · refine h.move (of_decide_eq_true hlossy) hpaced hdue fun lag hlag => ⟨_, rfl, ?_⟩
    have hcycle : net.cycle cfg = (interval cfg).toNat + 2000 + 3 * net.slack := rfl
    simp only [Network.allowance, if_true]
    rw [Beat.missed, Nat.succ_mul]
    rw [hb] at hlag
    unfold Network.lag at hlag
    split at hlag <;> cases hlag
    all_goals omega

theorem hear {server : Server.State} {beat : Beat} (hnow : s.now ≤ s.since + net.delay)
    (hflight : inFlight beat = true) (hpaced : Paced cfg w beat)
    (hentry : ∀ st, server.entry w.workerID = some st → st.alive = true ∧
      st.lastHeartbeat = s.now ∧ net.lag cfg s.missed beat = some 0) :
    Heard cfg net w misses { s with server, beat } where
  since := h.since
  due := hnow.trans (Nat.add_le_add_left (net.delay_le_allowance _ hflight) _)
  missed := h.missed
  paced := hpaced
  entry st hst := by
    obtain ⟨halive, hlast, hlag⟩ := hentry st hst
    exact ⟨halive, 0, hlag, hlast ▸ h.since⟩

theorem step {a : Action} (hbound : net.silence cfg misses ≤ cfg.workerTimeout)
    (ha : timely net w (tolerated w misses) s a = true) (hst : Steps cfg w s a t es) :
    Heard cfg net w misses t ∧ .declaredDead w.workerID ∉ es := by
  have hpaced := h.paced.step hst
  cases hst with
  | elapse => exact ⟨h.elapse (of_decide_eq_true ha), by simp⟩
  | server htime hst =>
    obtain ⟨hentry, hdead⟩ :=
      entry_of_step (fun _ => h.fresh hbound) (by simpa [timely] using ha) htime hst
    exact ⟨h.server (hentry.imp_right And.right), hdead⟩
  | registered hb hget halive hlast | beaten hb hget halive hlast =>
    refine ⟨h.hear (of_decide_eq_true ha) rfl hpaced fun st hst => ?_, by simp⟩
    obtain rfl := Option.some.inj (hget.symm.trans hst)
    exact ⟨halive, hlast, rfl⟩
  | drained hb hget =>
    refine ⟨h.hear (of_decide_eq_true ha) rfl hpaced fun st hst => ?_, by simp⟩
    cases hget.symm.trans hst
  | send hbeat =>
    exact ⟨h.move h.missed hpaced h.due fun _ => net.lag_send _ hbeat, by simp⟩
  | receive hbeat =>
    have hmissed : (if s.beat.answered then 0 else s.beat.missed s.missed) ≤ misses := by
      rw [h.paced.answered hbeat]
      exact Nat.zero_le _
    exact ⟨h.move hmissed hpaced (of_decide_eq_true ha) fun _ => net.lag_receive h.paced hbeat,
      by simp⟩
  | fail hbeat => exact ⟨h.fail ha hbeat, by simp⟩
  | wake hbeat =>
    exact ⟨h.move h.missed hpaced h.due fun _ => net.lag_wake _ h.paced hbeat, by simp⟩
  | stop => cases ha

end Heard

theorem paced_init : Paced cfg w (.register none 500) := ⟨by decide, by simp⟩

theorem heard_init : Heard cfg net w misses {} where
  since := le_rfl
  due := Nat.zero_le _
  missed := Nat.zero_le _
  paced := paced_init
  entry st hst := by
    have hnone : (Server.init).entry w.workerID = none := Lib.Bucket.get_empty _
    cases hnone.symm.trans hst

theorem heard_of_run {as : List Action} (hbound : net.silence cfg misses ≤ cfg.workerTimeout)
    (h : (machine cfg w).Run (fun s a => timely net w (tolerated w misses) s a = true) {} as es s) :
    Heard cfg net w misses s ∧ .declaredDead w.workerID ∉ es := by
  refine h.invariant_trace (P := fun es s => Heard cfg net w misses s ∧
    .declaredDead w.workerID ∉ es) ⟨heard_init, by simp⟩ ?_
  rintro es s a t fs ⟨hs, hes⟩ ha hst
  obtain ⟨ht, hfs⟩ := hs.step hbound ha (steps_of_step hst)
  exact ⟨ht, by simp [hes, hfs]⟩

/-- The fault detector is accurate: a worker whose heartbeat thread runs on time, whose calls are
answered within `net.delay` and which loses at most `misses` heartbeats in a row is never declared
dead, however sweeps, restarts of the orchestrator and the other workers interleave, as long as the
timeout leaves room for that many. -/
theorem beating_worker_not_declared_dead {as : List Action}
    (hbound : net.silence cfg misses ≤ cfg.workerTimeout)
    (h : (machine cfg w).Run (fun s a => timely net w (tolerated w misses) s a = true) {} as es s) :
    .declaredDead w.workerID ∉ es ∧
      ∀ st, s.server.entry w.workerID = some st → st.alive = true := by
  obtain ⟨hheard, hdead⟩ := heard_of_run hbound h
  exact ⟨hdead, fun st hst => (hheard.entry st hst).1⟩

section Sample

def sampleConfig : Config := { Server.sampleConfig with workerTimeout := 9000 }

def sampleNetwork : Network := ⟨100, 1000, by decide⟩

def sampleIdentity : Identity := ⟨"w", "host:1", 4, by decide, by decide⟩

def sampleJoin : List Action :=
  [.server .start, .server (.main {}), .send, .elapse 10, .handle 0, .elapse 10, .receive]

def sampleBeat : List Action := [.send, .handle 1, .receive, .elapse 2000, .wake]

def sampleMissed : Membership × List Server.Event :=
  ((machine sampleConfig sampleIdentity).exec
    (timely sampleNetwork sampleIdentity (tolerated sampleIdentity 1)) {}
    (sampleJoin ++ sampleBeat ++ ([.send, .elapse 2100, .fail, .elapse 2000, .wake, .send,
      .elapse 900, .server (.detector { now := 7020, order := ["w"] }), .handle 1] :
        List Action))).get (by decide)

theorem beating_worker_not_declared_dead_sample :
    .declaredDead "w" ∉ sampleMissed.2 ∧ sampleMissed.1.now = 7020 ∧
      ∀ st, sampleMissed.1.server.entry "w" = some st → st.alive = true := by
  have hrun : (machine sampleConfig sampleIdentity).Run (fun s a =>
      timely sampleNetwork sampleIdentity (tolerated sampleIdentity 1) s a = true) {} _
      sampleMissed.2 sampleMissed.1 := Lib.Machine.run_of_exec_get (by decide)
  obtain ⟨hdead, halive⟩ := beating_worker_not_declared_dead (by decide) hrun
  exact ⟨hdead, rfl, halive⟩

end Sample

end Membership

end Minimodal
