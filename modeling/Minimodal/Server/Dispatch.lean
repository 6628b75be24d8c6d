import Minimodal.Lib.Greedy
import Minimodal.Server.Terminal

namespace Minimodal

/-- `r` is `rec` but for what `Dispatch` may change in it, and for bookkeeping. -/
def JobRecord.Moved (rec : JobRecord) (status : JobStatus) (workerID : String) (retries : Nat)
    (r : JobRecord) : Prop :=
  r.core = { rec with status, workerID, retryCount := rec.retryCount + retries }.core

namespace JobRecord.Moved

variable {rec r : JobRecord} {status : JobStatus} {w : String} {n : Nat}

theorem terminal (h : rec.Moved status w n r) (hs : status = .pending ∨ status = .running) :
    r.terminal = false := by
  have hst : r.status = status := congrArg JobRecord.status h
  rcases hs with rfl | rfl <;> simp [JobRecord.terminal, hst]

theorem refl (rec : JobRecord) : rec.Moved rec.status rec.workerID 0 rec := by
  simp [Moved]

theorem markRunning (h : rec.Moved status w n r) (v : String) (now : Nat) :
    rec.Moved .running v n ({ r with status := .running, workerID := v }.stamp now) := by
  have hcore := congrArg (fun q : JobRecord => { q with status := .running, workerID := v }) h
  exact hcore

theorem revert (h : rec.Moved status w n r) (now : Nat) :
    rec.Moved .pending "" (n + 1)
      ({ r with status := .pending, workerID := "", retryCount := r.retryCount + 1 }.stamp now) := by
  have hcore := congrArg (fun q : JobRecord =>
    { q with status := .pending, workerID := "", retryCount := q.retryCount + 1 }) h
  rw [Moved, Nat.cast_add, Nat.cast_one, ← add_assoc]
  exact hcore

end JobRecord.Moved

namespace Server

/-- One call of `Dispatch` by itself. -/
inductive DispatchCall
  | run (pc : DispatchPc)
  | returned (result : Except Err Unit)

def DispatchCall.code (jobID : String) : DispatchCall → Option (Code DispatchCall)
  | .run pc => some (pc.code jobID .run .returned)
  | .returned _ => none

def dispatch (cfg : Config) (jobID : String) : Lib.Machine (Mem × DispatchCall) Choice Event where
  step s ch :=
    (Lib.Thread.step (perform cfg) (DispatchCall.code jobID) s.1 s.2 ch).map
      fun (m, call, es) => ((m, call), es)

def DispatchCall.toDrainer (cfg : Config) (a : Attempt) : DispatchCall → Drainer
  | .run pc => .dispatch a pc
  | .returned result => Drainer.dispatched cfg a result

theorem DispatchPc.code_comp {Pc Pc' : Type} (f : Pc → Pc') (jobID : String)
    (at_ : DispatchPc → Pc) (ret : Except Err Unit → Pc) (pc : DispatchPc) :
    pc.code jobID (fun pc => f (at_ pc)) (fun r => f (ret r)) =
      ⟨(pc.code jobID at_ ret).op, fun r => f ((pc.code jobID at_ ret).next r)⟩ := by
  cases pc with
  | missingPayload | drop | revert => rfl
  | load =>
    simp only [code]
    congr 1
    funext r
    rcases r with e | _ | rec
    · rfl
    · rfl
    · simp only [apply_ite f]
  | mark =>
    simp only [code]
    congr 1
    funext r
    rcases r with ⟨c, e | _ | _⟩ <;> rfl
  | pick | dial | send | await =>
    simp only [code]
    congr 1
    funext r
    cases r <;> rfl

theorem drainer_step_dispatch (cfg : Config) (m : Mem) (a : Attempt) (pc : DispatchPc)
    (ch : Choice) :
    Lib.Thread.step (perform cfg) (Drainer.code cfg) m (.dispatch a pc) ch =
      (Lib.Thread.step (perform cfg) (DispatchCall.code a.jobID) m (.run pc) ch).map
        fun (m, call, es) => (m, call.toDrainer cfg a, es) := by
  have hcode := DispatchPc.code_comp (DispatchCall.toDrainer cfg a) a.jobID .run .returned pc
  simp only [Lib.Thread.step, Drainer.code, DispatchCall.code]
  rw [show pc.code a.jobID (Drainer.dispatch a) (Drainer.dispatched cfg a) = _ from hcode,
    Option.map_map]
  rfl

inductive Reply
  | accept
  | reject
  | unreachable
  deriving DecidableEq, Repr

def Reply.answer : Reply → Answer
  | .accept => .accepted
  | .reject => .rejected
  | .unreachable => .failed

/-- The store works, and a worker is dialled and answers as `reply` says. -/
def honours (reply : String → Reply) (s : Mem × DispatchCall) (ch : Choice) : Bool :=
  ch.fault.isNone &&
    match s.2 with
    | .run (.dial _ _ workerID _) => !ch.dialFails || reply workerID == .unreachable
    | .run (.await _ _ workerID) => ch.answer == (reply workerID).answer
    | _ => true

/-- The worker on which a step marks a job RUNNING, just before `sendExecuteTask`. -/
def Event.contacted : Event → Option String
  | .transitioned _ (.markRunning workerID) (.ok true) => some workerID
  | _ => none

def Event.called : Event → Option String
  | .executeTask workerID _ _ => some workerID
  | _ => none

section Fleet

variable (reply : String → Reply) (jobID : String) (m₀ : Mem) (rec : JobRecord)

structure Contacted (l k : List String) (es : List Event) (m : Mem) : Prop where
  pool : m.pool = m₀.pool
  ctxDone : m.ctxDone = false
  channels : m.channels.isSome = true
  greedy : Lib.Greedy (fun w => m₀.pool.isAlive w = true) m₀.pool.load l
  contacted : es.filterMap Event.contacted = l
  called : (es.filterMap Event.called).Sublist k

structure Refused (l : List String) (es : List Event) (m : Mem) : Prop where
  contacted : Contacted m₀ l l es m
  refused : ∀ v ∈ l, reply v ≠ .accept
  unchanged : l = [] → m.store = m₀.store
  record : ∃ r status worker, m.store.jobs.get jobID = some r ∧ r.terminal = false ∧
    rec.Moved status worker l.length r ∧ (l ≠ [] → status = .pending ∧ worker = "")

structure Trying (l : List String) (w : String) (k : List String) (es : List Event) (m : Mem) :
    Prop where
  contacted : Contacted m₀ (l ++ [w]) k es m
  refused : ∀ v ∈ l, reply v ≠ .accept
  record : ∃ r, m.store.jobs.get jobID = some r ∧ rec.Moved .running w l.length r

inductive Reached : Nat → List Event → Mem → DispatchCall → Prop
  | load : Reached 0 [] m₀ (.run .load)
  | pick {n l es m} : Refused reply jobID m₀ rec l es m → n ≤ 7 * l.length + 1 →
      Reached n es m (.run (.pick rec l.reverse))
  | mark {n l w address es m} : Refused reply jobID m₀ rec l es m →
      Lib.Greedy (fun w => m₀.pool.isAlive w = true) m₀.pool.load (l ++ [w]) →
      n ≤ 7 * l.length + 2 → Reached n es m (.run (.mark rec (w :: l.reverse) w address))
  | dial {n l w address es m} : Trying reply jobID m₀ rec l w l es m → n ≤ 7 * l.length + 3 →
      Reached n es m (.run (.dial rec (w :: l.reverse) w address))
  | send {n l w conn es m} : Trying reply jobID m₀ rec l w l es m → n ≤ 7 * l.length + 4 →
      Reached n es m (.run (.send rec (w :: l.reverse) w conn))
  | await {n l w es m} : Trying reply jobID m₀ rec l w (l ++ [w]) es m → n ≤ 7 * l.length + 5 →
      Reached n es m (.run (.await rec (w :: l.reverse) w))
  | drop {n l w es m} : Trying reply jobID m₀ rec l w (l ++ [w]) es m → reply w ≠ .accept →
      n ≤ 7 * l.length + 6 → Reached n es m (.run (.drop rec (w :: l.reverse) w))
  | revert {n l w es m} : Trying reply jobID m₀ rec l w (l ++ [w]) es m → reply w ≠ .accept →
      n ≤ 7 * l.length + 7 → Reached n es m (.run (.revert rec (w :: l.reverse)))
  | accepted {n l w es m} : Trying reply jobID m₀ rec l w (l ++ [w]) es m → reply w = .accept →
      n ≤ 7 * l.length + 6 → Reached n es m (.returned (.ok ()))
  | exhausted {n l es m} : Refused reply jobID m₀ rec l es m →
      (∀ v, m₀.pool.isAlive v = true → v ∈ l) → n ≤ 7 * l.length + 2 →
      Reached n es m (.returned (.error
        (if l.isEmpty then .errNoWorkersAvailable else .errAllWorkersExhausted)))

end Fleet

section Steps

variable {cfg : Config} {reply : String → Reply} {jobID : String} {m₀ m m' : Mem} {rec : JobRecord}
  {n : Nat} {l k : List String} {es e : List Event} {ch : Choice} {call call' : DispatchCall}

theorem Contacted.extend (h : Contacted m₀ l k es m) (hpool : m'.pool = m.pool)
    (hctx : m'.ctxDone = m.ctxDone) (hchannels : m'.channels.isSome = true) {l' k' : List String}
    (hgreedy : Lib.Greedy (fun w => m₀.pool.isAlive w = true) m₀.pool.load l')
    (hl : l' = l ++ e.filterMap Event.contacted) (hk : k' = k ++ e.filterMap Event.called) :
    Contacted m₀ l' k' (es ++ e) m' where
  pool := hpool.trans h.pool
  ctxDone := hctx.trans h.ctxDone
  channels := hchannels
  greedy := hgreedy
  contacted := by rw [List.filterMap_append, h.contacted, hl]
  called := by
    rw [List.filterMap_append, hk]
    exact h.called.append (List.Sublist.refl _)

theorem Contacted.quiet (h : Contacted m₀ l k es m) (hpool : m'.pool = m.pool)
    (hctx : m'.ctxDone = m.ctxDone) (hchannels : m'.channels.isSome = true)
    (he : e.filterMap Event.contacted = []) (hc : e.filterMap Event.called = []) :
    Contacted m₀ l k (es ++ e) m' :=
  h.extend hpool hctx hchannels h.greedy (by rw [he, List.append_nil])
    (by rw [hc, List.append_nil])

theorem Contacted.mono (h : Contacted m₀ l k es m) {k' : List String} (hk : k.Sublist k') :
    Contacted m₀ l k' es m :=
  { h with called := h.called.trans hk }

theorem honours_fault (h : honours reply (m, call) ch = true) : ch.fault = none := by
  simpa using (Bool.and_eq_true_iff.mp h).1

theorem dispatch_step {pc : DispatchPc}
    (h : Lib.Thread.step (perform cfg) (DispatchCall.code jobID) m (.run pc) ch =
      some (m', call', e)) :
    ∃ r, perform cfg m ch (pc.code jobID DispatchCall.run .returned).op = some (m', r, e) ∧
      call' = (pc.code jobID DispatchCall.run .returned).next r := by
  obtain ⟨stmt, r, hcode, hp, hcall⟩ := Lib.Thread.step_some h
  cases hcode
  exact ⟨r, hp, hcall⟩

theorem Reached.step_load (hget : m₀.store.jobs.get jobID = some rec)
    (ht : rec.terminal = false) (hpayload : rec.functionBytes ≠ []) (hctx : m₀.ctxDone = false)
    (hchannels : m₀.channels.isSome = true)
    (hok : honours reply (m₀, .run .load) ch = true)
    (hst : Lib.Thread.step (perform cfg) (DispatchCall.code jobID) m₀ (.run .load) ch =
      some (m', call', e)) :
    Reached reply jobID m₀ rec 1 e m' call' := by
  obtain ⟨r, hp, rfl⟩ := dispatch_step hst
  cases performs_of_perform hp
  have hempty : rec.functionBytes.isEmpty = false := by simpa using hpayload
  simp only [DispatchPc.code, view, honours_fault hok, BoltStore.getJob, hget, ht, hempty,
    Bool.false_eq_true, if_false]
  refine .pick (l := []) ⟨?_, by simp, fun _ => rfl, ?_⟩ (by simp)
  · exact ⟨rfl, hctx, hchannels, .nil, rfl, List.nil_sublist _⟩
  · exact ⟨rec, _, _, hget, ht, .refl rec, fun h => absurd rfl h⟩

theorem Refused.step_pick (h : Refused reply jobID m₀ rec l es m) (hn : n ≤ 7 * l.length + 1)
    (hst : Lib.Thread.step (perform cfg) (DispatchCall.code jobID) m (.run (.pick rec l.reverse)) ch =
      some (m', call', e)) :
    Reached reply jobID m₀ rec (n + 1) (es ++ e) m' call' := by
  obtain ⟨r, hp, rfl⟩ := dispatch_step hst
  cases performs_of_perform hp with
  | @leastLoaded _ entries hrange =>
    rw [List.append_nil]
    rw [h.contacted.pool] at hrange
    cases hbest : WorkerPool.leastLoadedAliveExcluding l.reverse entries with
    | none =>
      simp only [DispatchPc.code, List.isEmpty_reverse]
      refine .exhausted h (fun v hv => ?_) (Nat.succ_le_succ hn)
      exact List.mem_reverse.mp (WorkerPool.leastLoaded_none hrange hbest hv)
    | some entry =>
      obtain ⟨halive, hex, hmin⟩ := WorkerPool.leastLoaded_some hrange hbest
      simp only [List.mem_reverse] at hex hmin
      exact .mark h (.concat h.contacted.greedy halive hex hmin) (Nat.succ_le_succ hn)

theorem Refused.step_mark {w address : String} (h : Refused reply jobID m₀ rec l es m)
    (hgreedy : Lib.Greedy (fun w => m₀.pool.isAlive w = true) m₀.pool.load (l ++ [w]))
    (hn : n ≤ 7 * l.length + 2)
    (hok : honours reply (m, .run (.mark rec (w :: l.reverse) w address)) ch = true)
    (hst : Lib.Thread.step (perform cfg) (DispatchCall.code jobID) m
      (.run (.mark rec (w :: l.reverse) w address)) ch = some (m', call', e)) :
    Reached reply jobID m₀ rec (n + 1) (es ++ e) m' call' := by
  obtain ⟨r, hp, rfl⟩ := dispatch_step hst
  obtain ⟨htr, rfl⟩ := transits_of_perform hp
  obtain ⟨q, status, worker, hget, ht, hmoved, -⟩ := h.record
  rcases r with ⟨c, res⟩
  cases htr with
  | error hbad => simp [honours_fault hok, hget] at hbad
  | skip _ hread hrun =>
    obtain rfl := Option.some.inj (hread.symm.trans hget)
    cases (Mutator.skips_of_run hrun).1 with
    | terminal _ hterm => simp [ht] at hterm
  | commit hkey _ hread hrun =>
    obtain rfl := Option.some.inj (hread.symm.trans hget)
    cases Mutator.rewrites_of_run hrun with
    | markRunning =>
      have hc := h.contacted
      refine .dial ⟨?_, h.refused, ?_⟩ (Nat.succ_le_succ hn)
      · refine hc.extend ?_ ?_ ?_ hgreedy ?_ ?_
        · rfl
        · rfl
        · exact hc.channels
        · rfl
        · exact (List.append_nil l).symm
      · exact ⟨_, Lib.Bucket.get_insert_self _ _ _ hkey, hmoved.markRunning w ch.now⟩

theorem Trying.keep {w : String} (h : Trying reply jobID m₀ rec l w k es m)
    (hm : { m with channels := m'.channels } = m') (hchannels : m'.channels.isSome = true)
    (he : e.filterMap Event.contacted = []) (hc : e.filterMap Event.called = []) :
    Trying reply jobID m₀ rec l w k (es ++ e) m' where
  contacted := h.contacted.quiet (by rw [← hm]) (by rw [← hm]) hchannels he hc
  refused := h.refused
  record := by
    rw [← hm]
    exact h.record

theorem Trying.mono {w : String} (h : Trying reply jobID m₀ rec l w l es m) :
    Trying reply jobID m₀ rec l w (l ++ [w]) es m :=
  { h with contacted := h.contacted.mono (List.sublist_append_left l [w]) }

theorem Trying.step_dial {w address : String} (h : Trying reply jobID m₀ rec l w l es m)
    (hn : n ≤ 7 * l.length + 3)
    (hok : honours reply (m, .run (.dial rec (w :: l.reverse) w address)) ch = true)
    (hst : Lib.Thread.step (perform cfg) (DispatchCall.code jobID) m
      (.run (.dial rec (w :: l.reverse) w address)) ch = some (m', call', e)) :
    Reached reply jobID m₀ rec (n + 1) (es ++ e) m' call' := by
  obtain ⟨r, hp, rfl⟩ := dispatch_step hst
  cases performs_of_perform hp with
  | closed hnone =>
    have hopen := h.contacted.channels
    simp [hnone] at hopen
  | cached => exact .send (h.keep rfl h.contacted.channels rfl rfl) (Nat.succ_le_succ hn)
  | dial => exact .send (h.keep rfl rfl rfl rfl) (Nat.succ_le_succ hn)
  | dialError _ _ hfails =>
    have hreply : reply w = .unreachable := by
      simpa [honours, hfails] using (Bool.and_eq_true_iff.mp hok).2
    refine .revert (h.mono.keep rfl h.contacted.channels rfl rfl) (by simp [hreply]) ?_
    omega

theorem Trying.step_send {w conn : String} (h : Trying reply jobID m₀ rec l w l es m)
    (hn : n ≤ 7 * l.length + 4)
    (hst : Lib.Thread.step (perform cfg) (DispatchCall.code jobID) m
      (.run (.send rec (w :: l.reverse) w conn)) ch = some (m', call', e)) :
    Reached reply jobID m₀ rec (n + 1) (es ++ e) m' call' := by
  obtain ⟨r, hp, rfl⟩ := dispatch_step hst
  have hc := h.contacted
  cases performs_of_perform hp with
  | executeDone hctx => simp [hc.ctxDone] at hctx
  | execute =>
    refine .await ⟨?_, h.refused, h.record⟩ (Nat.succ_le_succ hn)
    exact hc.extend rfl rfl hc.channels hc.greedy (List.append_nil _).symm rfl

theorem Trying.step_await {w : String} (h : Trying reply jobID m₀ rec l w (l ++ [w]) es m)
    (hn : n ≤ 7 * l.length + 5)
    (hok : honours reply (m, .run (.await rec (w :: l.reverse) w)) ch = true)
    (hst : Lib.Thread.step (perform cfg) (DispatchCall.code jobID) m
      (.run (.await rec (w :: l.reverse) w)) ch = some (m', call', e)) :
    Reached reply jobID m₀ rec (n + 1) (es ++ e) m' call' := by
  obtain ⟨r, hp, rfl⟩ := dispatch_step hst
  have hans : ch.answer = (reply w).answer := by
    simpa [honours] using (Bool.and_eq_true_iff.mp hok).2
  cases performs_of_perform hp with
  | answer =>
    have hkeep := h.keep (e := [.answered w jobID ch.answer]) rfl h.contacted.channels rfl rfl
    cases hreply : reply w with
    | accept =>
      simp only [hans, hreply, Reply.answer]
      rw [hans, hreply] at hkeep
      exact .accepted hkeep hreply (Nat.succ_le_succ hn)
    | reject =>
      simp only [hans, hreply, Reply.answer]
      rw [hans, hreply] at hkeep
      exact .revert hkeep (by simp [hreply]) (by omega)
    | unreachable =>
      simp only [hans, hreply, Reply.answer]
      rw [hans, hreply] at hkeep
      exact .drop hkeep (by simp [hreply]) (Nat.succ_le_succ hn)

theorem Trying.step_drop {w : String} (h : Trying reply jobID m₀ rec l w (l ++ [w]) es m)
    (hreply : reply w ≠ .accept) (hn : n ≤ 7 * l.length + 6)
    (hst : Lib.Thread.step (perform cfg) (DispatchCall.code jobID) m
      (.run (.drop rec (w :: l.reverse) w)) ch = some (m', call', e)) :
    Reached reply jobID m₀ rec (n + 1) (es ++ e) m' call' := by
  obtain ⟨r, hp, rfl⟩ := dispatch_step hst
  cases performs_of_perform hp
  exact .revert (h.keep rfl (by simpa using h.contacted.channels) rfl rfl) hreply
    (Nat.succ_le_succ hn)

theorem Trying.step_revert {w : String} (h : Trying reply jobID m₀ rec l w (l ++ [w]) es m)
    (hreply : reply w ≠ .accept) (hn : n ≤ 7 * l.length + 7)
    (hok : honours reply (m, .run (.revert rec (w :: l.reverse))) ch = true)
    (hst : Lib.Thread.step (perform cfg) (DispatchCall.code jobID) m
      (.run (.revert rec (w :: l.reverse))) ch = some (m', call', e)) :
    Reached reply jobID m₀ rec (n + 1) (es ++ e) m' call' := by
  obtain ⟨r, hp, rfl⟩ := dispatch_step hst
  obtain ⟨htr, rfl⟩ := transits_of_perform hp
  obtain ⟨q, hget, hmoved⟩ := h.record
  have ht := hmoved.terminal (.inr rfl)
  rcases r with ⟨c, res⟩
  cases htr with
  | error hbad => simp [honours_fault hok, hget] at hbad
  | skip _ hread hrun =>
    obtain rfl := Option.some.inj (hread.symm.trans hget)
    cases (Mutator.skips_of_run hrun).1 with
    | terminal _ hterm => simp [ht] at hterm
  | commit hkey _ hread hrun =>
    obtain rfl := Option.some.inj (hread.symm.trans hget)
    cases Mutator.rewrites_of_run hrun with
    | revert =>
      have hpick : w :: l.reverse = (l ++ [w]).reverse := by simp
      simp only [DispatchPc.code, hpick]
      refine .pick ⟨?_, ?_, by simp, ?_⟩ (by simp; omega)
      · exact h.contacted.quiet rfl rfl h.contacted.channels rfl rfl
      · simpa [or_imp, forall_and] using ⟨h.refused, hreply⟩
      · have hmoved' := hmoved.revert ch.now
        rw [← List.length_concat, List.concat_eq_append] at hmoved'
        exact ⟨_, _, _, Lib.Bucket.get_insert_self _ _ _ hkey, hmoved'.terminal (.inl rfl), hmoved',
          fun _ => ⟨rfl, rfl⟩⟩

variable {as : List Choice}

theorem Reached.step (hget : m₀.store.jobs.get jobID = some rec) (ht : rec.terminal = false)
    (hpayload : rec.functionBytes ≠ []) (hctx : m₀.ctxDone = false)
    (hchannels : m₀.channels.isSome = true) (h : Reached reply jobID m₀ rec n es m call)
    (hok : honours reply (m, call) ch = true)
    (hst : Lib.Thread.step (perform cfg) (DispatchCall.code jobID) m call ch =
      some (m', call', e)) :
    Reached reply jobID m₀ rec (n + 1) (es ++ e) m' call' := by
  cases h with
  | load => exact .step_load hget ht hpayload hctx hchannels hok hst
  | pick h hn => exact h.step_pick hn hst
  | mark h hgreedy hn => exact h.step_mark hgreedy hn hok hst
  | dial h hn => exact h.step_dial hn hok hst
  | send h hn => exact h.step_send hn hst
  | await h hn => exact h.step_await hn hok hst
  | drop h hreply hn => exact h.step_drop hreply hn hst
  | revert h hreply hn => exact h.step_revert hreply hn hok hst
  | accepted | exhausted => simp [Lib.Thread.step, DispatchCall.code] at hst

theorem reached_of_run (hget : m₀.store.jobs.get jobID = some rec) (ht : rec.terminal = false)
    (hpayload : rec.functionBytes ≠ []) (hctx : m₀.ctxDone = false)
    (hchannels : m₀.channels.isSome = true) {t : Mem × DispatchCall}
    (h : (dispatch cfg jobID).Run (fun s ch => honours reply s ch = true) (m₀, .run .load) as es t) :
    Reached reply jobID m₀ rec as.length es t.1 t.2 := by
  induction h with
  | refl => exact .load
  | tail _ hok hst ih =>
    simp only [dispatch, Option.map_eq_some_iff, Prod.mk.injEq, Prod.exists] at hst
    obtain ⟨m, call, e, hst, rfl, rfl⟩ := hst
    rw [List.length_append]
    exact ih.step hget ht hpayload hctx hchannels hok hst

def proceed (reply : String → Reply) (p : WorkerPool) (call : DispatchCall) : Choice where
  order := p.workers.forEach.map Prod.fst
  answer :=
    match call with
    | .run (.await _ _ workerID) => (reply workerID).answer
    | _ => .accepted

theorem honours_proceed (reply : String → Reply) (m : Mem) (call : DispatchCall) :
    honours reply (m, call) (proceed reply m.pool call) = true := by
  cases call with
  | returned => rfl
  | run pc => cases pc <;> simp [honours, proceed]

theorem Reached.ctxDone (h : Reached reply jobID m₀ rec n es m call) (hctx : m₀.ctxDone = false) :
    m.ctxDone = false := by
  cases h with
  | load => exact hctx
  | pick h | mark h | exhausted h => exact h.contacted.ctxDone
  | dial h | send h | await h | drop h | revert h | accepted h => exact h.contacted.ctxDone

theorem dispatch_enabled (cfg : Config) (reply : String → Reply) (jobID : String)
    (pc : DispatchPc) (hctx : m.ctxDone = false) :
    ((dispatch cfg jobID).step (m, .run pc) (proceed reply m.pool (.run pc))).isSome = true := by
  have hrange : ∃ entries, m.pool.range (m.pool.workers.forEach.map Prod.fst) = some entries := by
    have hperm : (m.pool.workers.forEach.map Prod.fst).isPerm _ = true :=
      List.isPerm_iff.mpr (.refl (m.pool.workers.forEach.map Prod.fst))
    simp [WorkerPool.range, hperm]
  obtain ⟨entries, hrange⟩ := hrange
  cases pc with
  | load | missingPayload | mark | drop | revert => rfl
  | pick =>
    simp [dispatch, Lib.Thread.step, DispatchCall.code, DispatchPc.code, perform, proceed, hrange]
  | dial rec tried w address =>
    simp only [dispatch, Lib.Thread.step, DispatchCall.code, DispatchPc.code, perform, proceed,
      Option.isSome_map]
    split
    · rfl
    · split <;> rfl
  | send | await =>
    simp [dispatch, Lib.Thread.step, DispatchCall.code, DispatchPc.code, perform, hctx]

end Steps

/-- What a call that has contacted `contacted` and returned `result` leaves behind. -/
structure Outcome (reply : String → Reply) (jobID : String) (rec : JobRecord) (m : Mem)
    (contacted : List String) (result : Except Err Unit) (m' : Mem) : Prop where
  accepted : (∃ v, m.pool.isAlive v = true ∧ reply v = .accept) → result = .ok () ∧
    ∃ before w r, contacted = before ++ [w] ∧ reply w = .accept ∧
      (∀ v, m.pool.isAlive v = true → reply v = .accept → m.pool.load w ≤ m.pool.load v) ∧
      m'.store.getJob jobID = some r ∧ rec.Moved .running w before.length r
  noWorkers : (∀ v, m.pool.isAlive v = false) →
    result = .error .errNoWorkersAvailable ∧ m'.store = m.store
  exhausted : (∃ v, m.pool.isAlive v = true) →
    (∀ v, m.pool.isAlive v = true → reply v ≠ .accept) →
    result = .error .errAllWorkersExhausted ∧
      ∃ r, m'.store.getJob jobID = some r ∧ rec.Moved .pending "" m.pool.aliveIDs.length r

section Outcome

variable {reply : String → Reply} {jobID : String} {m₀ m : Mem} {rec : JobRecord} {n : Nat}
  {es : List Event} {l : List String}

theorem Trying.outcome {w : String} (h : Trying reply jobID m₀ rec l w (l ++ [w]) es m)
    (hw : reply w = .accept) :
    Outcome reply jobID rec m₀ (l ++ [w]) (.ok ()) m := by
  have hgreedy := h.contacted.greedy
  have halive : m₀.pool.isAlive w = true := hgreedy.mem w (by simp)
  refine ⟨fun _ => ⟨rfl, ?_⟩, fun hnone => ?_, fun _ hrefuse => ?_⟩
  · obtain ⟨r, hget, hmoved⟩ := h.record
    refine ⟨l, w, r, rfl, hw, fun v hv hacc => ?_, hget, hmoved⟩
    by_cases hvw : v ∈ l ++ [w]
    · rcases List.mem_append.mp hvw with hvl | hvw
      · exact absurd hacc (h.refused v hvl)
      · rw [List.mem_singleton.mp hvw]
    · exact hgreedy.le_left (by simp) hv hvw
  · simp [hnone w] at halive
  · exact absurd hw (hrefuse w halive)

theorem Refused.outcome (h : Refused reply jobID m₀ rec l es m)
    (hall : ∀ v, m₀.pool.isAlive v = true → v ∈ l) :
    Outcome reply jobID rec m₀ l (.error
      (if l.isEmpty then .errNoWorkersAvailable else .errAllWorkersExhausted)) m := by
  have hgreedy := h.contacted.greedy
  refine ⟨fun ⟨v, hv, hacc⟩ => ?_, fun hnone => ?_, fun ⟨v, hv⟩ _ => ?_⟩
  · exact absurd hacc (h.refused v (hall v hv))
  · have hl : l = [] := by
      refine List.eq_nil_iff_forall_not_mem.mpr fun v hv => ?_
      have halive := hgreedy.mem v hv
      simp [hnone v] at halive
    exact ⟨by simp [hl], h.unchanged hl⟩
  · have hl : l ≠ [] := List.ne_nil_of_mem (hall v hv)
    obtain ⟨r, status, worker, hget, -, hmoved, hrest⟩ := h.record
    obtain ⟨rfl, rfl⟩ := hrest hl
    have hlen := hgreedy.length_eq (fun a => WorkerPool.mem_aliveIDs) m₀.pool.aliveIDs_nodup hall
    rw [hlen] at hmoved
    exact ⟨by simp [hl], r, hget, hmoved⟩

theorem Reached.outcome {result : Except Err Unit}
    (h : Reached reply jobID m₀ rec n es m (.returned result)) :
    Outcome reply jobID rec m₀ (es.filterMap Event.contacted) result m := by
  cases h with
  | accepted h hw =>
    rw [h.contacted.contacted]
    exact h.outcome hw
  | exhausted h hall =>
    rw [h.contacted.contacted]
    exact h.outcome hall

theorem Contacted.length_le {k : List String} (h : Contacted m₀ l k es m) :
    l.length ≤ m₀.pool.aliveIDs.length :=
  h.greedy.length_le fun _ hv => WorkerPool.mem_aliveIDs.mpr hv

theorem Trying.length_lt {w : String} {k : List String}
    (h : Trying reply jobID m₀ rec l w k es m) : l.length + 1 ≤ m₀.pool.aliveIDs.length := by
  simpa using h.contacted.length_le

theorem Reached.length_le {call : DispatchCall} (h : Reached reply jobID m₀ rec n es m call) :
    n ≤ 7 * m₀.pool.aliveIDs.length + 2 := by
  cases h with
  | load => omega
  | pick h | mark h | exhausted h =>
    have hlen := h.contacted.length_le
    omega
  | dial h | send h | await h | drop h | revert h | accepted h =>
    have hlen := h.length_lt
    omega

theorem Reached.contacted {call : DispatchCall} (h : Reached reply jobID m₀ rec n es m call) :
    Lib.Greedy (fun w => m₀.pool.isAlive w = true) m₀.pool.load (es.filterMap Event.contacted) ∧
      (es.filterMap Event.called).Sublist (es.filterMap Event.contacted) := by
  cases h with
  | load => exact ⟨.nil, List.nil_sublist _⟩
  | pick h | mark h | exhausted h =>
    rw [h.contacted.contacted]
    exact ⟨h.contacted.greedy, h.contacted.called⟩
  | dial h | send h =>
    rw [h.contacted.contacted]
    exact ⟨h.contacted.greedy, h.contacted.called.trans (List.sublist_append_left _ _)⟩
  | await h | drop h | revert h | accepted h =>
    rw [h.contacted.contacted]
    exact ⟨h.contacted.greedy, h.contacted.called⟩

end Outcome

def sampleQueued : JobRecord := { id := "j", status := .pending, functionBytes := [1] }

def sampleFleet : Mem where
  store := ⟨Lib.Bucket.empty.insert "j" sampleQueued (by decide), .empty⟩
  pool := ⟨(((Lib.Bucket.empty.insert "a" ⟨"host:1", 1, 0, 0, true⟩ (by decide)).insert "b"
    ⟨"host:2", 1, 1, 0, true⟩ (by decide)).insert "c" ⟨"host:3", 1, 2, 0, true⟩ (by decide)).insert
    "d" ⟨"host:4", 1, 0, 0, false⟩ (by decide)⟩

def sampleReply (workerID : String) : Reply :=
  if workerID = "a" then .unreachable else if workerID = "b" then .reject else .accept

def sampleFleetRun : (Mem × DispatchCall) × List Event :=
  ((dispatch sampleConfig "j").exec (honours sampleReply) (sampleFleet, .run .load)
    [{}, { order := ["d", "c", "b", "a"] }, {}, {}, {}, { answer := .failed }, {}, {},
      { order := ["c", "a", "b", "d"] }, {}, {}, {}, { answer := .rejected }, {},
      { order := ["a", "b", "c", "d"] }, {}, {}, {}, {}]).get (by decide)

end Server

end Minimodal
