import Minimodal.System.Membership

namespace Minimodal.Membership

open Worker (Beat Identity)

def Action.restarts : Action → Bool
  | .server a => a.restarts
  | _ => false

variable (cfg : Config) (net : Network) (w : Identity) (start : Nat)

/-- From `start` on the thread runs on time, no call is lost but one that was under way then, and
nobody else speaks for the worker. -/
def healing (s : Membership) : Action → Bool
  | .elapse ms => s.now + ms ≤ max s.since start + net.allowance (s.since ≤ start) s.beat
  | .server a => !a.contacts w.workerID
  | .fail => s.since ≤ start
  | .stop => false
  | _ => true

/-- How long after `since` the orchestrator has heard from the worker, which it may have to ask to
register, if no call is lost. -/
def Network.rest : Beat → Option Nat
  | .register _ _ => some (net.slack + net.delay)
  | .registering _ _ none => some net.delay
  | .sleep _ backoffMs => some (backoffMs + 2 * net.slack + net.delay)
  | .beat _ => some (2 * net.slack + 2 * net.delay)
  | .beating _ none | .beating _ (some (.ok ⟨true⟩)) => some (net.slack + 2 * net.delay)
  | .wait i => some (i.toNat + 3 * net.slack + 2 * net.delay)
  | .stopped => some 0
  | _ => none

/-- How long it takes a worker to come back: a registration that is lost and the longest back-off
after it, or one that the orchestrator has forgotten, the wait, and the heartbeat that is told to
drain. -/
def Network.rejoin : Nat :=
  max (10000 + 3 * net.slack + net.delay)
    (5000 + (interval cfg).toNat + 4 * net.slack + 2 * net.delay)

structure Returning (s : Membership) : Prop where
  since : s.since ≤ s.now
  started : start ≤ s.now
  due : s.now ≤ max s.since start + net.allowance (s.since ≤ start) s.beat
  paced : Paced cfg w s.beat
  back : (start < s.since ∧
      ∃ st, s.server.entry w.workerID = some st ∧ Recent cfg net 0 s st) ∨
    (inFlight s.beat = true ∧ s.since ≤ start) ∨
    ∃ rest, net.rest s.beat = some rest ∧ max s.since start + rest ≤ start + net.rejoin cfg

variable {cfg net w start} {s t : Membership} {es : List Server.Event}

theorem inFlight_of_send {b b' : Beat} (h : b.send = some b') : inFlight b = false := by
  cases b <;> first | rfl | cases h

theorem inFlight_of_wake {b b' : Beat} (h : b.wake = some b') : inFlight b = false := by
  cases b <;> first | rfl | cases h

namespace Network

variable {b b' : Beat} {rest : Nat}

theorem allowance_le_rest {lossy : Bool} (hlossy : inFlight b = true → lossy = false)
    (h : net.rest b = some rest) : net.allowance lossy b ≤ rest := by
  unfold Network.rest at h
  split at h <;> cases h
  all_goals
    simp only [inFlight, forall_const, Bool.false_eq_true, false_imp_iff] at hlossy
    simp only [allowance, hlossy, Bool.false_eq_true, if_false]
    omega

theorem rest_send (lossy : Bool) (h : b.send = some b') (hrest : net.rest b = some rest) :
    ∃ rest', net.rest b' = some rest' ∧ net.allowance lossy b + rest' ≤ rest := by
  unfold Beat.send at h
  split at h <;> cases h
  all_goals
    cases hrest
    exact ⟨_, rfl, by simp only [allowance]; omega⟩

theorem rest_wake (lossy : Bool) (h : b.wake = some b') (hrest : net.rest b = some rest) :
    ∃ rest', net.rest b' = some rest' ∧ net.allowance lossy b + rest' ≤ rest := by
  unfold Beat.wake at h
  split at h <;> cases h
  all_goals
    cases hrest
    exact ⟨_, rfl, by simp only [allowance]; omega⟩

theorem allowance_of_receive (h : b.receive = some b') : net.allowance false b = net.delay := by
  cases b <;> first | rfl | cases h

theorem rest_receive (h : b.receive = some b') (hrest : net.rest b = some rest) :
    ∃ rest', net.rest b' = some rest' ∧ net.delay + rest' ≤ rest := by
  unfold Beat.receive at h
  split at h <;> cases h
  · cases hrest
  · cases hrest
  · rename_i i resp
    rcases resp with ⟨_ | _⟩
    · cases hrest
    · cases hrest
      exact ⟨_, rfl, by omega⟩
  · cases hrest

theorem rest_fail (hpaced : Paced cfg w b') (h : b.fail = some b') :
    ∃ rest, net.rest b' = some rest ∧ net.allowance true b + rest ≤ net.rejoin cfg := by
  unfold rejoin
  unfold Beat.fail at h
  split at h <;> cases h
  · have hbackoff := hpaced.1
    exact ⟨_, rfl, by simp only [allowance, if_true]; omega⟩
  · obtain rfl : _ = interval cfg := hpaced
    exact ⟨_, rfl, by simp only [allowance, if_true]; omega⟩

theorem rest_answered (hpaced : Paced cfg w b) (hpaced' : Paced cfg w b')
    (h : b.receive = some b') :
    ∃ rest, net.rest b' = some rest ∧ net.allowance true b + rest ≤ net.rejoin cfg := by
  have hdelay := net.delay_le
  unfold rejoin
  unfold Beat.receive at h
  split at h <;> cases h
  · rename_i i backoffMs resp
    cases i with
    | none => exact ⟨_, rfl, by simp only [allowance, if_true]; omega⟩
    | some i =>
      obtain rfl : i = interval cfg := hpaced'
      exact ⟨_, rfl, by simp only [allowance, if_true]; omega⟩
  · cases hpaced.2 _ rfl
  · rename_i i resp
    obtain ⟨rfl, -⟩ := hpaced
    rcases resp with ⟨_ | _⟩
    · exact ⟨_, rfl, by simp only [allowance, if_true]; omega⟩
    · exact ⟨_, rfl, by simp only [allowance, if_true]; omega⟩
  · obtain ⟨drain, hr⟩ := hpaced.2 _ rfl
    cases hr

end Network

theorem returning_of_run {as : List Action}
    (h : (machine cfg w).Run Lib.Machine.Always {} as es s) : Returning cfg net w s.now s := by
  obtain ⟨hsince, hpaced⟩ : s.since ≤ s.now ∧ Paced cfg w s.beat := by
    refine h.invariant (P := fun s => s.since ≤ s.now ∧ Paced cfg w s.beat)
      ⟨le_rfl, paced_init⟩ ?_
    rintro s a t es ⟨hsince, hpaced⟩ - hst
    have hst := steps_of_step hst
    refine ⟨?_, hpaced.step hst⟩
    cases hst with
    | elapse => exact hsince.trans (Nat.le_add_right _ _)
    | server | registered | drained | beaten => exact hsince
    | send | receive | fail | wake | stop => exact le_rfl
  have hmax : max s.since s.now = s.now := max_eq_right hsince
  refine ⟨hsince, le_rfl, by omega, hpaced, .inr ?_⟩
  rw [hmax]
  unfold Network.rejoin
  generalize s.beat = b at hpaced
  cases b with
  | registering | beating => exact .inl ⟨rfl, hsince⟩
  | stopped | register | beat => exact .inr ⟨_, rfl, by omega⟩
  | sleep i backoffMs =>
    have hbackoff := hpaced.1
    exact .inr ⟨_, rfl, by omega⟩
  | wait i =>
    obtain rfl : i = interval cfg := hpaced
    exact .inr ⟨_, rfl, by omega⟩

namespace Returning

variable (h : Returning cfg net w start s)

include h

theorem alive (hlate : start + net.rejoin cfg < s.now) :
    s.server.mem.pool.isAlive w.workerID = true := by
  have hdue := h.due
  -- a call under way at the start is over by now
  have hover : inFlight s.beat = true → decide (s.since ≤ start) = false := by
    intro hflight
    by_contra hsince
    simp only [Bool.not_eq_false, decide_eq_true_eq] at hsince
    simp only [hsince, decide_true] at hdue
    unfold Network.rejoin at hlate
    generalize s.beat = b at hflight hdue
    cases b with
    | registering | beating =>
      simp only [Network.allowance, if_true] at hdue
      omega
    | _ => cases hflight
  rcases h.back with ⟨-, st, hst, halive, -⟩ | ⟨hflight, hsince⟩ | ⟨rest, hrest, hle⟩
  · exact WorkerPool.isAlive_iff.mpr ⟨st, hst, halive⟩
  · simpa [hsince] using hover hflight
  · have := net.allowance_le_rest hover hrest
    omega

theorem elapse {ms : Nat}
    (hms : s.now + ms ≤ max s.since start + net.allowance (s.since ≤ start) s.beat) :
    Returning cfg net w start { s with now := s.now + ms } :=
  ⟨h.since.trans (Nat.le_add_right _ _), h.started.trans (Nat.le_add_right _ _), hms, h.paced,
    h.back⟩

theorem fresh (hbound : net.silence cfg 0 ≤ cfg.workerTimeout) (hsince : start < s.since)
    {st : WorkerState} (hst : Recent cfg net 0 s st) :
    WorkerPool.expired cfg.workerTimeout s.now st = false := by
  have hdue := h.due
  rw [max_eq_left hsince.le, decide_eq_false (not_le.mpr hsince)] at hdue
  exact not_expired hbound (hst.now_le h.paced le_rfl (fun hlossy => (by cases hlossy)) hdue)

theorem server (hbound : net.silence cfg 0 ≤ cfg.workerTimeout) {a : Server.Action}
    {server : Server.State} (ha : a.contacts w.workerID = false) (hrestarts : a.restarts = false)
    (htime : a.time.all (· = s.now) = true) (hst : Server.step cfg s.server a = some (server, es)) :
    Returning cfg net w start { s with server } := by
  refine ⟨h.since, h.started, h.due, h.paced, h.back.imp_left ?_⟩
  rintro ⟨hsince, st, hget, hrecent⟩
  have hfresh : ∀ st, s.server.entry w.workerID = some st →
      WorkerPool.expired cfg.workerTimeout s.now st = false := by
    intro st' hget'
    obtain rfl := Option.some.inj (hget.symm.trans hget')
    exact h.fresh hbound hsince hrecent
  obtain ⟨hentry | ⟨hr, -⟩, -⟩ := entry_of_step hfresh ha htime hst
  · exact ⟨hsince, st, hentry.trans hget, hrecent⟩
  · simp [hrestarts] at hr

theorem move {d missed : Nat} {beat : Beat} (hpaced : Paced cfg w beat)
    (hnow : s.now ≤ max s.since start + d) (hcall : inFlight s.beat = true → start < s.since)
    (hlag : ∀ lag, net.lag cfg 0 s.beat = some lag →
      ∃ lag', net.lag cfg 0 beat = some lag' ∧ lag + d ≤ lag')
    (hrest : ∀ rest, net.rest s.beat = some rest →
      ∃ rest', net.rest beat = some rest' ∧ d + rest' ≤ rest) :
    Returning cfg net w start (s.move missed beat) := by
  have hstarted := h.started
  refine ⟨le_rfl, h.started, (le_max_left _ _).trans (Nat.le_add_right _ _), hpaced, ?_⟩
  rcases h.back with ⟨hsince, st, hst, hrecent⟩ | ⟨hflight, hsince⟩ | ⟨rest, hr, hle⟩
  · rw [max_eq_left hsince.le] at hnow
    exact .inl ⟨hsince.trans_le h.since, st, hst, hrecent.move hnow hlag⟩
  · exact absurd hsince (not_le.mpr (hcall hflight))
  · obtain ⟨rest', hr', hle'⟩ := hrest rest hr
    exact .inr (.inr ⟨rest', hr', by simp only [Membership.move]; omega⟩)

theorem settle {missed : Nat} {beat : Beat} (hsince : s.since ≤ start) (hpaced : Paced cfg w beat)
    (hbeat : ∃ rest, net.rest beat = some rest ∧
      net.allowance true s.beat + rest ≤ net.rejoin cfg) :
    Returning cfg net w start (s.move missed beat) := by
  have hstarted := h.started
  have hdue := h.due
  obtain ⟨rest, hrest, hle⟩ := hbeat
  simp only [hsince, decide_true] at hdue
  refine ⟨le_rfl, h.started, (le_max_left _ _).trans (Nat.le_add_right _ _), hpaced,
    .inr (.inr ⟨rest, hrest, ?_⟩)⟩
  simp only [Membership.move]
  omega

theorem hear {server : Server.State} {beat : Beat} (hpaced : Paced cfg w beat)
    (hallowance : ∀ lossy, net.allowance lossy beat = net.allowance lossy s.beat)
    (hflight : inFlight beat = true)
    (hback : start < s.since →
      (∃ st, server.entry w.workerID = some st ∧ st.alive = true ∧ st.lastHeartbeat = s.now ∧
        net.lag cfg 0 beat = some 0) ∨
      s.server.entry w.workerID = none ∧ net.rest beat = net.rest s.beat) :
    Returning cfg net w start { s with server, beat } := by
  refine ⟨h.since, h.started, by rw [hallowance]; exact h.due, hpaced, ?_⟩
  by_cases hsince : s.since ≤ start
  · exact .inr (.inl ⟨hflight, hsince⟩)
  · have hsince := not_le.mp hsince
    rcases hback hsince with ⟨st, hst, halive, hlast, hlag⟩ | ⟨hnone, hrest⟩
    · exact .inl ⟨hsince, st, hst, halive, 0, hlag, hlast ▸ h.since⟩
    · rcases h.back with ⟨-, st, hst, -⟩ | ⟨-, hle⟩ | hback
      · cases hnone.symm.trans hst
      · exact absurd hle (not_le.mpr hsince)
      · rw [← hrest] at hback
        exact .inr (.inr hback)

theorem step {a : Action} (hbound : net.silence cfg 0 ≤ cfg.workerTimeout)
    (ha : healing net w start s a = true) (hrestarts : a.restarts = false)
    (hst : Steps cfg w s a t es) : Returning cfg net w start t := by
  have hpaced := h.paced.step hst
  cases hst with
  | elapse => exact h.elapse (of_decide_eq_true ha)
  | server htime hst =>
    exact h.server hbound (by simpa [healing] using ha) hrestarts htime hst
  | registered hb hget halive hlast | beaten hb hget halive hlast =>
    exact h.hear hpaced (fun lossy => by rw [hb]; rfl) rfl
      fun _ => .inl ⟨_, hget, halive, hlast, rfl⟩
  | drained hb _ hnone =>
    exact h.hear hpaced (fun lossy => by rw [hb]; rfl) rfl fun _ => .inr ⟨hnone, by rw [hb]; rfl⟩
  | send hbeat =>
    have hcall : inFlight s.beat = true → start < s.since := by
      rw [inFlight_of_send hbeat]
      exact fun h => (by cases h)
    exact h.move hpaced h.due hcall (fun _ => net.lag_send _ hbeat) (fun _ => net.rest_send _ hbeat)
  | wake hbeat =>
    have hcall : inFlight s.beat = true → start < s.since := by
      rw [inFlight_of_wake hbeat]
      exact fun h => (by cases h)
    exact h.move hpaced h.due hcall (fun _ => net.lag_wake _ h.paced hbeat)
      (fun _ => net.rest_wake _ hbeat)
  | receive hbeat =>
    by_cases hsince : s.since ≤ start
    · exact h.settle hsince hpaced (net.rest_answered h.paced hpaced hbeat)
    · have hdue := h.due
      rw [decide_eq_false hsince, net.allowance_of_receive hbeat] at hdue
      exact h.move hpaced hdue (fun _ => not_le.mp hsince)
        (fun _ => net.lag_receive h.paced hbeat) (fun _ => net.rest_receive hbeat)
  | fail hbeat => exact h.settle (of_decide_eq_true ha) hpaced (net.rest_fail hpaced hbeat)
  | stop => cases ha

end Returning

/-- Membership heals: whatever has happened to the worker's calls, to its entry and to the
orchestrator, once no further call is lost and the orchestrator stays up, the worker is registered
and alive again within `net.rejoin`, and stays so. -/
theorem beating_worker_rejoins {as bs : List Action} {fs : List Server.Event}
    (hbound : net.silence cfg 0 ≤ cfg.workerTimeout)
    (h : (machine cfg w).Run Lib.Machine.Always {} as es s)
    (h' : (machine cfg w).Run (fun u a => healing net w s.now u a = true ∧ a.restarts = false)
      s bs fs t)
    (hlate : s.now + net.rejoin cfg < t.now) :
    t.server.mem.pool.isAlive w.workerID = true := by
  have ht : Returning cfg net w s.now t := by
    refine h'.invariant (P := Returning cfg net w s.now) (returning_of_run h) ?_
    rintro u a v gs hu ⟨ha, hrestarts⟩ hst
    exact hu.step hbound ha hrestarts (steps_of_step hst)
  exact ht.alive hlate

def sampleLost : Membership × List Server.Event :=
  ((machine sampleConfig sampleIdentity).exec (fun _ _ => true) {}
    (sampleJoin ++ ([.send, .elapse 20000,
      .server (.detector { now := 20020, order := ["w"] })] : List Action))).get (by decide)

def sampleHealed : Membership × List Server.Event :=
  ((machine sampleConfig sampleIdentity).exec
    (fun s a => healing sampleNetwork sampleIdentity 20020 s a && !a.restarts) sampleLost.1
    (([.elapse 2000, .fail, .elapse 2000, .wake] : List Action) ++
      (List.replicate 5 sampleBeat).flatten)).get (by decide)

theorem beating_worker_rejoins_sample :
    sampleLost.1.server.mem.pool.isAlive "w" = false ∧ .declaredDead "w" ∈ sampleLost.2 ∧
      sampleHealed.1.server.mem.pool.isAlive "w" = true := by
  have hrun : (machine sampleConfig sampleIdentity).Run Lib.Machine.Always {} _ sampleLost.2
      sampleLost.1 := (Lib.Machine.run_of_exec_get (by decide)).mono fun _ _ _ => trivial
  have hnow : sampleLost.1.now = 20020 := rfl
  have hrun' : (machine sampleConfig sampleIdentity).Run (fun s a =>
      healing sampleNetwork sampleIdentity sampleLost.1.now s a = true ∧ a.restarts = false)
      sampleLost.1 _ sampleHealed.2 sampleHealed.1 :=
    (Lib.Machine.run_of_exec_get (by decide)).mono fun s a h => by
      rw [hnow]
      simpa only [Bool.and_eq_true, Bool.not_eq_true'] using h
  exact ⟨rfl, by decide, beating_worker_rejoins (by decide) hrun hrun' (by decide)⟩

end Minimodal.Membership
