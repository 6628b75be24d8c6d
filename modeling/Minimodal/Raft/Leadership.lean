import Minimodal.Raft.Failover
import Minimodal.Server.Reaper

namespace Minimodal

theorem Err.is_unique {e : Err} (h : e.is .errNotLeader = true) (target : Err)
    (hne : target ≠ .errNotLeader) (hw : ∀ msg cause, target ≠ .wrapf msg cause) :
    e.is target = false := by
  induction e with
  | wrapf msg cause ih =>
    simp only [Err.is, reduceCtorEq, decide_false, Bool.false_or] at h
    simp [Err.is, (hw msg cause).symm, ih h]
  | errNotLeader => simp [Err.is, hne.symm]
  | _ => simp [Err.is] at h

theorem Bucket.tryPut_errorf {ν : Type} {b : Bucket ν} {k : String} {v : ν} {e : Err}
    (h : Bucket.tryPut b k v = .error e) : ∃ msg, e = .errorf msg := by
  unfold Bucket.tryPut at h
  split at h
  · simp at h
  · exact ⟨_, (Except.error.inj h).symm⟩

namespace BoltStore

variable {s : BoltStore} {rec : JobRecord} {e : Err}

theorem putTx_errorf (h : (s.putTx rec).2 = .error e) : ∃ msg, e = .errorf msg := by
  unfold putTx at h
  split at h
  · rename_i hput
    exact Except.error.inj h ▸ Bucket.tryPut_errorf hput
  · simp at h

theorem casPut_errorf {jobID : String} {version : Int}
    (h : (s.casPut jobID version rec).2 = .error e) : ∃ msg, e = .errorf msg := by
  unfold casPut at h
  split at h
  · exact ⟨_, (Except.error.inj h).symm⟩
  · split at h
    · simp at h
    · split at h
      · rename_i hput
        exact Except.error.inj h ▸ Bucket.tryPut_errorf hput
      · simp at h

theorem submitTx_errorf {key : String} (h : (s.submitTx rec key).2 = .error e) :
    ∃ msg, e = .errorf msg := by
  unfold submitTx at h
  split at h
  · simp at h
  · split at h
    · rename_i hput
      exact Except.error.inj h ▸ Bucket.tryPut_errorf hput
    · split at h
      · simp at h
      · split at h
        · rename_i hput
          exact Except.error.inj h ▸ Bucket.tryPut_errorf hput
        · simp at h

end BoltStore

theorem JobFSM.apply_errorf {s : BoltStore} {cmd : FsmCommand} {e : Err}
    (h : (apply s cmd).2.err = some e) : ∃ msg, e = .errorf msg := by
  unfold apply at h
  split at h
  · split at h
    · simp at h
    · rename_i hput
      exact BoltStore.putTx_errorf (by rw [← Option.some.inj h]; exact congrArg Prod.snd hput)
  · split at h
    · simp at h
    · rename_i hcas
      exact BoltStore.casPut_errorf (by rw [← Option.some.inj h]; exact congrArg Prod.snd hcas)
  · split at h
    · simp at h
    · rename_i hsub
      exact BoltStore.submitTx_errorf (by rw [← Option.some.inj h]; exact congrArg Prod.snd hsub)
  · exact ⟨_, (Option.some.inj h).symm⟩

namespace Server

variable {cfg : Config} {m m' : Mem} {ch : Choice} {es : List Event} {d d' : Drainer} {j : String}

theorem Drainer.Steps.not_transitioned {stmt : Code Drainer} {mutate : Mutator}
    {result : Except Err Bool} (h : Drainer.Steps cfg m ch d m' d' es)
    (hcode : Drainer.code cfg d = some stmt) (hop : stmt.op.writes = false) :
    .transitioned j mutate result ∉ es := by
  cases h with
  | missingPayload | mark | markSkip | markError | revert | fail =>
    simp only [Drainer.code, DispatchPc.code, Option.some.injEq] at hcode
    simp [← hcode, Op.writes] at hop
  | _ => simp

/-- `Dispatch` passes the error of its mark on to `attemptDispatch`, which has no case for a
node that does not lead. -/
theorem Drainer.mark_notLeader {next : Captured × Except Err Bool → Drainer} {w : String}
    {e : Err} (he : e.is .errNotLeader = true)
    (hcode : Drainer.code cfg d = some ⟨.transition j (.markRunning w), next⟩) :
    d.marking = some (j, w) ∧
      ∀ c, ∃ a, next (c, .error e) = .fail a (dispatchFailedMessage
        (.wrapf ("mark RUNNING for job " ++ j ++ ": " ++ e.error) e)) false := by
  cases d with
  | dispatch a pc =>
    cases pc with
    | mark rec tried workerID address =>
      simp only [code, DispatchPc.code, Option.some.injEq, Lib.Stmt.mk.injEq,
        Op.transition.injEq, Mutator.markRunning.injEq] at hcode
      obtain ⟨⟨rfl, rfl⟩, hnext⟩ := hcode
      obtain rfl := eq_of_heq hnext
      refine ⟨rfl, fun _ => ⟨a, ?_⟩⟩
      have hterm := Err.is_unique he .errJobAlreadyTerminal (by simp) (by simp)
      have hnone := Err.is_unique he .errNoWorkersAvailable (by simp) (by simp)
      have hall := Err.is_unique he .errAllWorkersExhausted (by simp) (by simp)
      simp [dispatched, Err.is, hterm, hnone, hall]
    | _ => simp [code, DispatchPc.code] at hcode
  | fail => simp [code] at hcode
  | notify a exhausted pc => cases pc <;> simp [code, NotifyPc.code] at hcode
  | _ => simp [code] at hcode

end Server

namespace Raft

open Server (Drainer Choice)

inductive Node.Lost {Pc : Type} (n : Node) : Routine Pc → Prop
  | follower {r} : n.leading = false → Lost n r
  | term {pc k c index term} : n.term ≠ term → Lost n (.waiting pc k c index term)
  | foreign {pc k c index term resp t} : n.replies[index]? = some (resp, some t) → t ≠ term →
      Lost n (.waiting pc k c index term)

section Routine

variable {Pc : Type} {cfg : Config} {code : Pc → Option (Server.Code Pc)} {n n' : Node} {net : Net}
  {ch : Choice} {es : List Server.Event} {pc : Pc} {k : Nat} {c : Captured} {r r' : Routine Pc}
  {j : String} {mutate : Mutator} {e : Err}

theorem Node.propose_notLeader {cmd : FsmCommand} (h : n.propose net cmd = .error e)
    (he : e.is .errNotLeader = true) : n.leading = false := by
  unfold propose at h
  split at h
  · split at h
    · obtain rfl := Except.error.inj h
      simp [Err.is] at he
    · simp at h
  · rename_i hlead
    simpa using hlead

theorem Node.future_notLeader {chosen : List FsmCommand} {index term : Nat} (hn : n.Safe chosen)
    (h : n.future net index term = some (.error e)) (he : e.is .errNotLeader = true) (pc : Pc)
    (k : Nat) (c : Captured) : n.Lost (.waiting pc k c index term) := by
  unfold future at h
  split at h
  · simp only [Option.some.injEq, Except.error.injEq] at h
    subst h
    simp [Err.is] at he
  · rename_i resp t hfault hreply
    split at h
    · split at h
      · rename_i e' herr
        simp only [Option.some.injEq, Except.error.injEq] at h
        subst h
        obtain ⟨cmd, -, rfl⟩ := hn.replied _ _ _ hreply
        obtain ⟨msg, rfl⟩ := JobFSM.apply_errorf herr
        simp [Err.is] at he
      · simp at h
    · rename_i hne
      exact .foreign hreply hne
  · split at h
    · simp at h
    · rename_i hlost
      cases hlead : n.leading with
      | false => exact .follower hlead
      | true => exact .term fun hterm => hlost ⟨hlead, hterm⟩

theorem Routine.run_notLeader (h : (Routine.run pc k c).step cfg code n net ch = some (n', r', es))
    (hev : .transitioned j mutate (.error e) ∈ es) (he : e.is .errNotLeader = true)
    (hquiet : ∀ stmt mem r, code pc = some stmt → stmt.op.writes = false →
      Server.perform cfg n.mem ch stmt.op = some (mem, r, es) →
      .transitioned j mutate (.error e) ∉ es) : n.leading = false := by
  have hreturned : ∀ {jobID mutate' e'}, es = [.transitioned jobID mutate' (.error e')] → e' = e := by
    rintro jobID mutate' e' rfl
    simp only [List.mem_singleton, Server.Event.transitioned.injEq, Except.error.injEq] at hev
    exact hev.2.2.symm
  simp only [Routine.step] at h
  split at h
  · simp at h
  · rename_i jobID mutate' next hcode
    split at h
    · rename_i e' hview
      simp only [Option.some.injEq, Prod.mk.injEq] at h
      obtain rfl := hreturned h.2.2.symm
      cases hf : ch.fault with
      | none => simp [Server.view, hf] at hview
      | some msg =>
        simp only [Server.view, hf, Except.error.injEq] at hview
        simp [← hview, Err.is] at he
    · simp only [Option.some.injEq, Prod.mk.injEq] at h
      obtain rfl := hreturned h.2.2.symm
      simp [BoltStore.errNotFound, Err.is] at he
    · split at h
      · simp only [Option.some.injEq, Prod.mk.injEq] at h
        simp [← h.2.2] at hev
      · rename_i hne hrun
        exact absurd (Mutator.skips_of_run hrun).2 hne
      · split at h
        · rename_i hprop
          simp only [Option.some.injEq, Prod.mk.injEq] at h
          obtain rfl := hreturned h.2.2.symm
          exact Node.propose_notLeader hprop he
        · simp only [Option.some.injEq, Prod.mk.injEq] at h
          simp [← h.2.2] at hev
  · split at h <;>
    · simp only [Option.some.injEq, Prod.mk.injEq] at h
      simp [← h.2.2] at hev
  · rename_i op next hnt hns hcode
    simp only [Option.map_eq_some_iff, Prod.mk.injEq, Prod.exists] at h
    obtain ⟨mem, r, _, hp, rfl, rfl, rfl⟩ := h
    refine absurd hev (hquiet _ mem r hcode ?_ hp)
    cases op with
    | transition jobID mutate => exact (hnt jobID mutate next rfl HEq.rfl).elim
    | submitWithIdempotency rec key => exact (hns rec key next rfl HEq.rfl).elim
    | _ => rfl

theorem Routine.waiting_notLeader {chosen : List FsmCommand} {index term : Nat} (hn : n.Safe chosen)
    (h : (Routine.waiting pc k c index term).step cfg code n net ch = some (n', r', es))
    (hev : .transitioned j mutate (.error e) ∈ es) (he : e.is .errNotLeader = true) :
    n.Lost (.waiting pc k c index term) := by
  simp only [Routine.step] at h
  split at h
  · rename_i jobID mutate' next result hcode hfut
    split at h
    · simp only [Option.some.injEq, Prod.mk.injEq] at h
      obtain ⟨-, -, rfl⟩ := h
      simp only [List.mem_singleton, Server.Event.transitioned.injEq, Except.error.injEq] at hev
      exact Node.future_notLeader hn (hev.2.2 ▸ hfut) he pc k c
    · split at h
      · split at h
        · simp only [Option.some.injEq, Prod.mk.injEq] at h
          simp [← h.2.2] at hev
        · simp only [Option.some.injEq, Prod.mk.injEq] at h
          obtain ⟨-, -, rfl⟩ := h
          simp only [List.mem_singleton, Server.Event.transitioned.injEq, Except.error.injEq] at hev
          simp [hev.2.2, RaftStore.errGaveUp, Err.is] at he
      · simp only [Option.some.injEq, Prod.mk.injEq] at h
        simp [← h.2.2] at hev
  · simp only [Option.some.injEq, Prod.mk.injEq] at h
    simp [← h.2.2] at hev
  · simp at h

end Routine

section Leadership

variable {cfg : Config} {n n' : Node} {net : Net} {ch : Choice} {es : List Server.Event}
  {r r' : Routine Drainer} {chosen : List FsmCommand} {j w : String} {e : Err}

theorem mark_notLeader (hn : n.Safe chosen)
    (h : r.step cfg (Drainer.code cfg) n net ch = some (n', r', es))
    (hev : .transitioned j (.markRunning w) (.error e) ∈ es) (he : e.is .errNotLeader = true) :
    n' = n ∧ n.Lost r ∧ r.pc.marking.isSome = true ∧ ∃ a, r' = .at (.fail a (dispatchFailedMessage
      (.wrapf ("mark RUNNING for job " ++ j ++ ": " ++ e.error) e)) false) := by
  have hquiet : ∀ {pc : Drainer} stmt mem (r : stmt.op.Res), Drainer.code cfg pc = some stmt →
      stmt.op.writes = false → Server.perform cfg n.mem ch stmt.op = some (mem, r, es) →
      .transitioned j (.markRunning w) (.error e) ∉ es :=
    fun stmt mem r hcode hop hp => (Drainer.steps hcode hp).not_transitioned hcode hop
  have hlost : n.Lost r := by
    cases r with
    | run => exact .follower (Routine.run_notLeader h hev he hquiet)
    | waiting => exact Routine.waiting_notLeader hn h hev he
  cases Routine.steps h with
  | perform hcode hop hp => exact absurd hev (hquiet _ _ _ hcode hop hp)
  | absent hcode | refused hcode | failed hcode =>
    simp only [List.mem_singleton, Server.Event.transitioned.injEq, Except.error.injEq] at hev
    obtain ⟨rfl, rfl, rfl⟩ := hev
    obtain ⟨hmark, hnext⟩ := Drainer.mark_notLeader he hcode
    obtain ⟨a, hnext⟩ := hnext _
    exact ⟨rfl, hlost, by simp [Routine.pc, hmark], a, by rw [hnext]⟩
  | _ => simp at hev

theorem follower_writes_nothing {a : Server.Attempt} {message : String} {exhausted : Bool}
    (h : (Routine.at (.fail a message exhausted)).step cfg (Drainer.code cfg) n net ch =
      some (n', r', es)) (hlead : n.leading = false) :
    n' = n ∧ r' = .at (.notify a exhausted .load) ∧
      ∀ j mutate, .transitioned j mutate (.ok true) ∉ es := by
  cases Routine.steps h with
  | perform hcode hop =>
    simp only [Drainer.code, Option.some.injEq] at hcode
    simp [← hcode, Server.Op.writes] at hop
  | absent hcode | skip hcode | refused hcode =>
    simp only [Drainer.code, Option.some.injEq, Lib.Stmt.mk.injEq, Server.Op.transition.injEq] at hcode
    obtain ⟨⟨rfl, rfl⟩, hnext⟩ := hcode
    obtain rfl := eq_of_heq hnext
    exact ⟨rfl, rfl, by simp⟩
  | propose _ _ _ hlead' | submit _ hlead' => simp [hlead] at hlead'
  | submitRefused hcode => simp [Drainer.code] at hcode

end Leadership

def markError : Server.Event → Option Err
  | .transitioned _ (.markRunning _) (.error e) => some e
  | _ => none

/-- The error of the store with which `Dispatch` has returned, while `attemptDispatch` deals
with it. -/
def observe (x : Nat → Option Err) (_ : State) (a : Action) (es : List Event) : Nat → Option Err :=
  match a with
  | .server i _ (.drainer _) => Function.update x i (es.findSome? fun ev => markError ev.2)
  | _ => x

def Routine.awaitsMark : Routine Drainer → Bool
  | .waiting d _ _ _ _ => d.marking.isSome
  | .run _ _ _ => false

/-- No node is elected while its drainer waits for the entry that marks a job RUNNING, or
holds an error of `Dispatch` that wraps `ErrNotLeader`. -/
def settled (y : State × (Nat → Option Err)) : Action → Bool
  | .elect i => !(y.1.nodes i).drainer.awaitsMark && (y.2 i).all fun e => !e.is .errNotLeader
  | _ => true

structure Node.Steady (n : Node) (x : Option Err) : Prop where
  holds : ∀ e, x = some e → e.is .errNotLeader = true →
    n.leading = false ∧ ∃ a message, n.drainer = .at (.fail a message false)
  awaits : ∀ d k c index term, n.drainer = .waiting d k c index term → d.marking.isSome = true →
    n.term = term ∧ ∀ resp t, n.replies[index]? = some (resp, some t) → t = term

namespace Node.Steady

variable {cfg : Config} {n n' : Node} {net : Net} {ch : Choice} {es : List Server.Event}
  {x : Option Err} {chosen : List FsmCommand}

theorem init : Node.Steady {} none where
  holds := by simp
  awaits := by simp

theorem frame (h : n.Steady x) (hdrainer : n'.drainer = n.drainer) (hterm : n'.term = n.term)
    (hreplies : n'.replies = n.replies) (hlead : n.leading = false → n'.leading = false) :
    n'.Steady x where
  holds e hx he := by
    obtain ⟨hfollow, hfail⟩ := h.holds e hx he
    exact ⟨hlead hfollow, hdrainer ▸ hfail⟩
  awaits d k c index term hd hmark := by
    rw [hterm, hreplies]
    exact h.awaits d k c index term (hdrainer ▸ hd) hmark

theorem elect (hawait : n.drainer.awaitsMark = false)
    (hx : (x.all fun e => !e.is .errNotLeader) = true) (hdrainer : n'.drainer = n.drainer) :
    n'.Steady x where
  holds e he hnot := by simp [he, hnot] at hx
  awaits d k c index term hd hmark := by
    rw [hdrainer] at hd
    simp [hd, Routine.awaitsMark, hmark] at hawait

theorem apply (h : n.Steady x) (ha : n.apply = some n') : n'.Steady x := by
  unfold Node.apply at ha
  split at ha
  · split at ha
    · simp at ha
    · obtain rfl := Option.some.inj ha
      refine ⟨h.holds, fun d k c index term hd hmark => ?_⟩
      obtain ⟨hterm, hreply⟩ := h.awaits d k c index term hd hmark
      refine ⟨hterm, fun resp t ht => ?_⟩
      rcases Nat.lt_trichotomy index n.replies.length with hi | rfl | hi
      · exact hreply resp t (by rwa [List.getElem?_append_left hi] at ht)
      · simp only [List.getElem?_concat_length, Option.some.injEq, Prod.mk.injEq] at ht
        have hled := ht.2
        split at hled
        · exact (Option.some.inj hled).symm.trans hterm
        · simp at hled
      · rw [List.getElem?_eq_none (by simpa using hi)] at ht
        simp at ht
  · simp at ha

theorem watch (h : n.Steady x) (hw : n.watch = some n') : n'.Steady x := by
  unfold Node.watch at hw
  split at hw
  · split at hw
    · simp at hw
    all_goals
      obtain rfl := Option.some.inj hw
      exact h.frame rfl rfl rfl id
  · simp at hw

theorem drainer {r' : Routine Drainer} (h : n.Steady x) (hn : n.Safe chosen)
    (hst : n.drainer.step cfg (Drainer.code cfg) n net ch = some (n', r', es)) :
    Node.Steady { n' with drainer := r' } (es.findSome? markError) := by
  refine ⟨fun e hx he => ?_, fun d k c index term hd hmark => ?_⟩
  · obtain ⟨ev, hmem, hev⟩ := List.exists_of_findSome?_eq_some hx
    unfold markError at hev
    split at hev
    · obtain rfl := Option.some.inj hev
      obtain ⟨rfl, hlost, hmark, a, rfl⟩ := mark_notLeader hn hst hmem he
      refine ⟨?_, a, _, rfl⟩
      generalize hr : n'.drainer = r at hlost hmark
      cases hlost with
      | follower hlead => exact hlead
      | term hne => exact absurd (h.awaits _ _ _ _ _ hr hmark).1 hne
      | foreign hreply hne => exact absurd ((h.awaits _ _ _ _ _ hr hmark).2 _ _ hreply) hne
    · simp at hev
  · simp only at hd
    subst hd
    have hsteps := Routine.steps hst
    generalize n.drainer = r at hsteps
    cases hsteps with
    | propose =>
      refine ⟨rfl, fun resp t ht => ?_⟩
      have hlt := (List.getElem?_eq_some_iff.mp ht).1
      have := hn.applied.trans hn.length
      exact absurd hlt (Nat.not_lt.mpr this)
    | submit hcode => exact absurd hcode Drainer.code_submit

end Node.Steady

section Run

variable {cfg : Config} {s t : State} {a : Action} {es fs : List Event} {i : Nat} {net : Net}
  {ch : Choice} {x : Nat → Option Err}

theorem drainer_of_step (h : step cfg s (.server i net (.drainer ch)) = some (t, fs)) :
    ∃ n drainer es, (s.nodes i).drainer.step cfg (Drainer.code cfg) (s.nodes i) net ch =
        some (n, drainer, es) ∧
      t.nodes = Function.update s.nodes i { n with drainer } ∧ fs = es.map ((i, ·)) := by
  obtain ⟨n, es, uuids, hserve, rfl, rfl⟩ := serve_of_step h
  simp only [Node.serve, Option.map_eq_some_iff, Prod.mk.injEq, Prod.exists] at hserve
  obtain ⟨n', drainer, es', hst, rfl, rfl⟩ := hserve
  exact ⟨n', drainer, es', hst, rfl, rfl⟩

theorem Served.drainer_eq {n n' : Node} {a : Server.Action} {es : List Server.Event}
    (h : Served cfg n net a n' es) (ha : ∀ ch, a ≠ .drainer ch) : n'.drainer = n.drainer := by
  cases h with
  | main hst | detector hst | call hst =>
    obtain ⟨log, mem, rfl, -, -⟩ := hst.frame
    rfl
  | drainer => exact absurd rfl (ha _)
  | other => rfl

def Steady (s : State) (x : Nat → Option Err) : Prop := ∀ i, (s.nodes i).Steady (x i)

theorem Steady.set (h : Steady s x) {n : Node} {y : Option Err} (hn : n.Steady y)
    (ht : t.nodes = Function.update s.nodes i n) : Steady t (Function.update x i y) := by
  intro k
  rw [ht]
  by_cases hk : k = i
  · subst hk
    simpa using hn
  · simpa [hk] using h k

theorem Steady.step (h : Steady s x) (hsafe : Safe s) (hst : step cfg s a = some (t, fs))
    (hok : settled (s, x) a = true) : Steady t (observe x s a fs) := by
  have hself : ∀ {i n}, n.Steady (x i) → t.nodes = Function.update s.nodes i n → Steady t x := by
    intro i n hn ht
    have := h.set hn ht
    rwa [Function.update_eq_self] at this
  by_cases ha : ∃ i net ch, a = .server i net (.drainer ch)
  · obtain ⟨i, net, ch, rfl⟩ := ha
    obtain ⟨n, drainer, es, hstep, ht, rfl⟩ := drainer_of_step hst
    have hn := (h i).drainer (hsafe.nodes i) hstep
    simp only [observe, List.findSome?_map]
    exact h.set hn ht
  · have hobs : observe x s a fs = x := by
      unfold observe
      split
      · exact absurd ⟨_, _, _, rfl⟩ ha
      · rfl
    rw [hobs]
    cases stepped_of_step hst with
    | @elect i =>
      simp only [settled, Bool.and_eq_true, Bool.not_eq_true'] at hok
      refine hself ?_ rfl
      exact .elect hok.1 hok.2 rfl
    | @stepDown i =>
      refine hself ?_ rfl
      exact (h i).frame rfl rfl rfl fun _ => rfl
    | @replicate i | @commit i | @learn i =>
      refine hself ?_ rfl
      exact (h i).frame rfl rfl rfl id
    | @apply i n hap => exact hself ((h i).apply hap) rfl
    | @watch i n hw =>
      refine hself ?_ rfl
      exact (h i).watch hw
    | @server i net a n es uuids hserve =>
      obtain ⟨-, -, hreplies, hlead, hterm, -, -⟩ := hserve.frame
      refine hself ((h i).frame (hserve.drainer_eq ?_) hterm hreplies fun hl => hlead.trans hl) rfl
      rintro ch rfl
      exact ha ⟨i, net, ch, rfl⟩

theorem steady_of_run {as : List Action}
    (h : ((machine cfg).record observe).Run (fun y a => settled y a = true) (init, fun _ => none)
      as es (s, x)) : Safe s ∧ Steady s x := by
  have hinv : Safe (s, x).1 ∧ Steady (s, x).1 (s, x).2 := by
    refine h.invariant (P := fun y => Safe y.1 ∧ Steady y.1 y.2) ⟨.init, fun _ => .init⟩ ?_
    rintro ⟨u, x⟩ a ⟨v, y⟩ fs ⟨hsafe, hsteady⟩ hok hst
    obtain ⟨hst, rfl⟩ := Lib.Machine.record_step.mp hst
    exact ⟨hsafe.step (stepped_of_step hst), hsteady.step hsafe hst hok⟩
  exact hinv

/-- An attempt whose `Dispatch` has returned an error that wraps `ErrNotLeader` ends without
a proposal. -/
theorem notLeader_fails_no_job (cfg : Config) {as : List Action} {es fs : List Event} {s t : State}
    {x : Nat → Option Err} {i : Nat} {net : Net} {ch : Choice} {e : Err}
    (h : ((machine cfg).record observe).Run (fun y a => settled y a = true) (init, fun _ => none)
      as es (s, x))
    (hx : x i = some e) (he : e.is .errNotLeader = true)
    (hst : step cfg s (.server i net (.drainer ch)) = some (t, fs)) :
    (∃ a message, (s.nodes i).drainer = .at (.fail a message false) ∧
        (t.nodes i).drainer = .at (.notify a false .load)) ∧
      (t.nodes i).log = (s.nodes i).log ∧
      ∀ j mutate, (i, .transitioned j mutate (.ok true)) ∉ fs := by
  obtain ⟨hlead, a, message, hfail⟩ := ((steady_of_run h).2 i).holds e hx he
  obtain ⟨n, drainer, es, hstep, ht, rfl⟩ := drainer_of_step hst
  rw [hfail] at hstep
  obtain ⟨rfl, rfl, hnone⟩ := follower_writes_nothing hstep hlead
  refine ⟨⟨a, message, hfail, by simp [ht]⟩, by simp [ht], fun j mutate hmem => ?_⟩
  obtain ⟨ev, hev, heq⟩ := List.mem_map.mp hmem
  exact hnone j mutate ((Prod.mk.inj heq).2 ▸ hev)

end Run

def sampleDeposed : List Action :=
  [.elect 0, .server 0 {} (.registerWorker ⟨"w", "host:1", 1⟩ 0),
   .server 0 {} (.invokeFunction 0 { functionBytes := [1] } "j" 1),
   .server 0 {} (.call 0 { now := 1 }), .commit 0 1, .apply 0,
   .server 0 {} (.call 0 {}), .server 0 {} (.call 0 {}), .server 0 {} (.call 0 {}),
   .server 0 {} (.drainer {}), .server 0 {} (.drainer {}),
   .server 0 {} (.drainer { order := ["w"] }), .stepDown 0, .server 0 {} (.drainer {})]

def sampleRefused : (State × (Nat → Option Err)) × List Event :=
  (((machine Server.sampleConfig).record observe).exec settled (init, fun _ => none)
    sampleDeposed).get (by decide)

def sampleEnded : State × List Event :=
  (step Server.sampleConfig sampleRefused.1.1 (.server 0 {} (.drainer {}))).get (by decide)

theorem notLeader_fails_no_job_sample :
    sampleRefused.1.2 0 = some (notLeaderErr {}) ∧
      (sampleEnded.1.nodes 0).log = (sampleRefused.1.1.nodes 0).log := by
  have hrun : ((machine Server.sampleConfig).record observe).Run (fun y a => settled y a = true)
      (init, fun _ => none) sampleDeposed sampleRefused.2
      (sampleRefused.1.1, sampleRefused.1.2) :=
    Lib.Machine.run_of_exec_get (by decide)
  have hx : sampleRefused.1.2 0 = some (notLeaderErr {}) := by decide
  have hst : step Server.sampleConfig sampleRefused.1.1 (.server 0 {} (.drainer {})) =
      some (sampleEnded.1, sampleEnded.2) := (Option.some_get (by decide)).symm
  exact ⟨hx, (notLeader_fails_no_job Server.sampleConfig hrun hx (by decide) hst).2.1⟩

/-- The node is elected again before `attemptDispatch` writes what became of the job. -/
def sampleFlapped : State × List Event :=
  ((machine Server.sampleConfig).exec (fun _ _ => true) init
    (sampleDeposed ++ ([.elect 0, .server 0 {} (.drainer { now := 2 }), .commit 0 2, .apply 0,
      .server 0 {} (.drainer {})] : List Action))).get (by decide)

theorem job_failed_by_flap : ∃ as es s r,
    (machine Server.sampleConfig).Run Lib.Machine.Always init as es s ∧
      (0, .transitioned "j" (.markRunning "w") (.error (notLeaderErr {}))) ∈ es ∧
      es.getLast? = some (0, .transitioned "j" (.dispatchFailed (dispatchFailedMessage
        (.wrapf ("mark RUNNING for job j: " ++ (notLeaderErr {}).error) (notLeaderErr {})))) (.ok true)) ∧
      (JobFSM.applyAll .empty s.chosen).getJob "j" = some r ∧ r.status = .failed ∧
      r.error = "dispatch failed: mark RUNNING for job j: not the raft leader (leader:  at )" := by
  have hrun : (machine Server.sampleConfig).Run Lib.Machine.Always init _ sampleFlapped.2
      sampleFlapped.1 :=
    (Lib.Machine.run_of_exec_get (by decide)).mono fun _ _ _ => trivial
  refine ⟨_, sampleFlapped.2, sampleFlapped.1, _, hrun, ?_, ?_, rfl, rfl, ?_⟩
  · decide
  · decide
  · decide

end Raft

end Minimodal
