import Minimodal.Raft.Cluster
import Minimodal.Server.Pending
import Minimodal.Server.Terminal

namespace Minimodal

namespace JobFSM

theorem apply_cas {s : BoltStore} {cmd : FsmCommand} (hop : cmd.op = .cas)
    (herr : (apply s cmd).2.err = none) (hconf : (apply s cmd).2.conflict = false) :
    (apply s cmd).1.jobs.get cmd.record.id = some cmd.record := by
  rw [apply_jobs, if_pos]
  refine ⟨?_, rfl⟩
  cases hget : s.jobs.get cmd.record.id with
  | none => simp [apply, hop, BoltStore.casPut, hget] at herr
  | some cur =>
    by_cases hver : cur.version = cmd.expectedVersion
    · simp [writes, hop, hget, hver]
    · simp [apply, hop, BoltStore.casPut, hget, hver] at hconf

end JobFSM

def BoltStore.Finished (s : BoltStore) (j : String) : Prop :=
  ∃ r, s.jobs.get j = some r ∧ r.terminal = true

namespace Server

variable {cfg : Config} {m m' : Mem} {ch : Choice} {es : List Event} {j jobID : String}
  {mutate : Mutator} {d d' : Drainer}

/-- The job that the drainer works on until a worker accepts it or it is terminal. -/
def Drainer.pursues : Drainer → Option String
  | .dispatch a _ | .stall a | .backoff a | .fail a _ _ => some a.jobID
  | _ => none

theorem Drainer.job_of_pursues (h : d.pursues = some j) : d.job = some j := by
  cases d <;> simp_all [pursues, job]

theorem Drainer.pursues_retry (a : Attempt) : (retry cfg a).pursues = some a.jobID :=
  retry_ind a rfl rfl

theorem Drainer.Steps.pursues {stmt : Code Drainer} (h : Drainer.Steps cfg m ch d m' d' es)
    (hcode : Drainer.code cfg d = some stmt) (hop : stmt.op.writes = false)
    (hctx : m.ctxDone = false) (hj : j ∈ m.pendingQueue ∨ d.pursues = some j) :
    (j ∈ m'.pendingQueue ∨ d'.pursues = some j) ∨ ¬ m.store.Unfinished j ∨
      ∃ w, .answered w j .accepted ∈ es := by
  cases h with
  | @receive jobID rest hq =>
    rcases hj with hj | hj
    · rw [hq, List.mem_cons] at hj
      rcases hj with rfl | hj
      · exact .inl (.inr rfl)
      · exact .inl (.inl hj)
    · simp [Drainer.pursues] at hj
  | loadTerminal hget ht =>
    rcases hj with hj | hj
    · exact .inl (.inl hj)
    · obtain rfl := Option.some.inj hj
      refine .inr (.inl ?_)
      rintro ⟨r, hr, hopen⟩
      rw [hget, Option.some.injEq] at hr
      simp [hr, hopen] at ht
  | missingPayload | mark | markSkip | markError | revert | fail =>
    simp only [Drainer.code, DispatchPc.code, Option.some.injEq] at hcode
    simp [← hcode, Op.writes] at hop
  | accepted =>
    rcases hj with hj | hj
    · exact .inl (.inl hj)
    · obtain rfl := Option.some.inj hj
      exact .inr (.inr ⟨_, List.mem_singleton_self _⟩)
  | pickNone =>
    refine .inl (hj.imp_right fun hj => ?_)
    split
    · rw [pursues_retry]
      exact hj
    · exact hj
  | stall =>
    refine .inl (hj.imp_right fun hj => ?_)
    rw [pursues_retry]
    exact hj
  | backoffStop hdone => simp [hctx] at hdone
  | backoff hid =>
    refine .inl (hj.imp_right fun hj => ?_)
    rw [← hj]
    exact congrArg some hid
  | stop | notify | notified | recordFailed | unstall =>
    exact .inl (hj.imp_right fun hj => by simp [Drainer.pursues] at hj)
  | _ => exact .inl hj

theorem Drainer.pursues_next {next : Captured × Except Err Bool → Drainer}
    (hcode : Drainer.code cfg d = some ⟨.transition jobID mutate, next⟩) :
    d.pursues = some jobID ∧ (∀ k, mutate ≠ .reap k) ∧
      ((∀ c, (next (c, .ok true)).pursues = some jobID) ∨
        ∃ a message exhausted, d = .fail a message exhausted ∧ a.jobID = jobID ∧
          mutate = .dispatchFailed message) := by
  cases d with
  | dispatch a pc =>
    cases pc with
    | missingPayload =>
      simp only [code, DispatchPc.code, Option.some.injEq, Lib.Stmt.mk.injEq,
        Op.transition.injEq] at hcode
      obtain ⟨⟨rfl, rfl⟩, hnext⟩ := hcode
      obtain rfl := eq_of_heq hnext
      refine ⟨rfl, by simp, .inl fun c => ?_⟩
      rw [dispatched_errorf]
      rfl
    | mark | revert =>
      simp only [code, DispatchPc.code, Option.some.injEq, Lib.Stmt.mk.injEq,
        Op.transition.injEq] at hcode
      obtain ⟨⟨rfl, rfl⟩, hnext⟩ := hcode
      obtain rfl := eq_of_heq hnext
      exact ⟨rfl, by simp, .inl fun _ => rfl⟩
    | _ => simp [code, DispatchPc.code] at hcode
  | fail a message exhausted =>
    simp only [code, Option.some.injEq, Lib.Stmt.mk.injEq, Op.transition.injEq] at hcode
    obtain ⟨⟨rfl, rfl⟩, -⟩ := hcode
    exact ⟨rfl, by simp, .inr ⟨a, message, exhausted, rfl, rfl, rfl⟩⟩
  | notify a exhausted pc => cases pc <;> simp [code, NotifyPc.code] at hcode
  | _ => simp [code] at hcode

theorem Drainer.code_submit {rec : JobRecord} {key : String}
    {next : Except Err (String × Bool) → Drainer} :
    Drainer.code cfg d ≠ some ⟨.submitWithIdempotency rec key, next⟩ := by
  cases d with
  | dispatch a pc => cases pc <;> simp [code, DispatchPc.code]
  | notify a exhausted pc => cases pc <;> simp [code, NotifyPc.code]
  | _ => simp [code]

theorem Main.code_transition {pc : Main} {next : Captured × Except Err Bool → Main}
    (hcode : Main.code pc = some ⟨.transition jobID mutate, next⟩) :
    mutate = .recover ∧ ∃ js, pc.remaining = some (jobID :: js) ∧
      (∀ c e, (next (c, .error e)).remaining = some js) ∧
      ∀ c b, (next (c, .ok b)).remaining = some (jobID :: js) := by
  cases pc with
  | replay job jobs =>
    simp only [code, Option.some.injEq, Lib.Stmt.mk.injEq, Op.transition.injEq] at hcode
    obtain ⟨⟨rfl, rfl⟩, hnext⟩ := hcode
    obtain rfl := eq_of_heq hnext
    exact ⟨rfl, jobs.map (·.id), rfl, fun _ _ => by simp, fun _ _ => rfl⟩
  | enqueue jobID pc jobs => cases pc <;> simp [code, EnqueuePc.code] at hcode
  | _ => simp [code] at hcode

theorem Main.code_submit {pc : Main} {rec : JobRecord} {key : String}
    {next : Except Err (String × Bool) → Main} :
    Main.code pc ≠ some ⟨.submitWithIdempotency rec key, next⟩ := by
  cases pc with
  | enqueue jobID pc jobs => cases pc <;> simp [code, EnqueuePc.code]
  | _ => simp [code]

theorem Main.Steps.enqueues {pc pc' : Main} {stmt : Code Main} (h : Main.Steps m ch pc m' pc' es)
    (hcode : Main.code pc = some stmt) (hop : stmt.op.writes = false)
    (hdown : m.shuttingDown = false) {js : List String} (hjs : pc'.remaining = some js) :
    pc = .list ∧ m' = m ∧ js = m.store.listUnfinished.map (·.id) ∨
      ∃ js₀, pc.remaining = some js₀ ∧
        ∀ j, j ∈ js₀ ∨ j ∈ m.pendingQueue → j ∈ js ∨ j ∈ m'.pendingQueue := by
  cases h with
  | list =>
    simp only [remaining_next, Option.some.injEq] at hjs
    exact .inl ⟨rfl, rfl, hjs.symm⟩
  | listError => simp [remaining] at hjs
  | replay | replayError =>
    simp only [code, Option.some.injEq] at hcode
    simp [← hcode, Op.writes] at hop
  | check => exact .inr ⟨js, hjs, fun _ => id⟩
  | checkSkip hskip => simp [hdown] at hskip
  | send =>
    simp only [remaining_next, Option.some.injEq] at hjs
    subst hjs
    refine .inr ⟨_, rfl, fun j hj => ?_⟩
    simp only [List.mem_cons, List.mem_append] at hj ⊢
    tauto

theorem Detector.Steps.queue {d d' : Detector} (h : Detector.Steps cfg m ch d m' d' es)
    (hj : j ∈ m.pendingQueue) : j ∈ m'.pendingQueue := by
  cases h with
  | requeue ht | giveUp ht | skip ht => rwa [ht.queue]
  | send => exact List.mem_append_left _ hj
  | _ => exact hj

theorem Handler.Steps.queue {c : Nat} {h h' : Handler} (hst : Handler.Steps m ch c h m' h' es)
    (hj : j ∈ m.pendingQueue) : j ∈ m'.pendingQueue := by
  cases hst with
  | report ht | reportError ht => rwa [ht.queue]
  | send => exact List.mem_append_left _ hj
  | quiet _ _ hm => rwa [hm.pendingQueue]
  | _ => exact hj

end Server

theorem Mutator.run_dispatchFailed {message : String} {c c' : Captured} {r r' : JobRecord}
    (h : (dispatchFailed message).run c r = (c', .ok r')) : r'.terminal = true ∧ r'.id = r.id := by
  cases rewrites_of_run h
  exact ⟨rfl, rfl⟩

namespace Raft

open Server (Mem Main Drainer Detector Handler Choice)
open RaftStore (maxCASRetries)

theorem storeAfter_keyed (log : List FsmCommand) (k : Nat) : (storeAfter log k).KeyedById :=
  JobFSM.keyedById_applyAll (by simp [BoltStore.KeyedById]) _

theorem storeAfter_of_extends {log log' : List FsmCommand} {k : Nat} (h : log <+: log')
    (hk : k ≤ log.length) : storeAfter log' k = storeAfter log k := by
  obtain ⟨rest, rfl⟩ := h
  rw [storeAfter, List.take_append_of_le_length hk, storeAfter]

def MadeTerminal (log : List FsmCommand) (b k : Nat) (j : String) : Prop :=
  ∃ i, b < i ∧ i ≤ k ∧ (storeAfter log i).Finished j

theorem MadeTerminal.grow {log log' : List FsmCommand} {b k k' : Nat} {j : String}
    (h : MadeTerminal log b k j) (hlog : log <+: log') (hlen : k ≤ log.length) (hk : k ≤ k') :
    MadeTerminal log' b k' j := by
  obtain ⟨i, hb, hi, hfin⟩ := h
  exact ⟨i, hb, hi.trans hk, storeAfter_of_extends hlog (hi.trans hlen) ▸ hfin⟩

theorem unfinished_or_madeTerminal {log : List FsmCommand} {b k : Nat} {j : String} (hb : b ≤ k)
    (hk : k ≤ log.length) (hj : (storeAfter log b).Unfinished j) :
    (storeAfter log k).Unfinished j ∨ MadeTerminal log b k j := by
  induction k, hb using Nat.le_induction with
  | base => exact .inl hj
  | succ k hb ih =>
    rcases ih (Nat.le_of_succ_le hk) with ⟨r, hget, hopen⟩ | ⟨i, hlt, hle, hfin⟩
    · have hsucc := storeAfter_succ (List.getElem?_eq_getElem hk)
      obtain ⟨r', hget'⟩ : ∃ r', (storeAfter log (k + 1)).jobs.get j = some r' := by
        rw [hsucc, JobFSM.apply_jobs]
        split
        · exact ⟨_, rfl⟩
        · exact ⟨r, hget⟩
      cases ht : r'.terminal with
      | false => exact .inl ⟨r', hget', ht⟩
      | true => exact .inr ⟨k + 1, Nat.lt_succ_of_le hb, le_rfl, r', hget', ht⟩
    · exact .inr ⟨i, hlt, Nat.le_succ_of_le hle, hfin⟩

/-- The job that the drainer pursues; what it awaits from an earlier term may be lost. -/
def Node.pursues (n : Node) : Option String :=
  match n.drainer with
  | .run d _ _ => d.pursues
  | .waiting d _ _ _ term => if term = n.term then d.pursues else none

theorem Node.job_of_pursues {n : Node} {j : String} (h : n.pursues = some j) :
    n.drainer.pc.job = some j := by
  refine Drainer.job_of_pursues ?_
  cases hd : n.drainer with
  | run d k c => simpa [pursues, hd, Routine.pc] using h
  | waiting d k c index term =>
    simp only [pursues, hd, Option.ite_none_right_eq_some] at h
    exact h.2

def Node.answers (n : Node) (attempt index : Nat) : Bool :=
  match n.replies[index]? with
  | none => true
  | some (resp, _) => resp.err.isNone && (!resp.conflict || decide (attempt + 1 < maxCASRetries))

def Routine.succeeds {Pc : Type} (n : Node) : Routine Pc → Bool
  | .run _ _ _ => true
  | .waiting _ attempt _ index _ => n.answers attempt index

/-- Every job that `boot` leaves unfinished has been made terminal or dispatched since,
or is in the node's hands. -/
def Node.Covers (boot : List FsmCommand) (dispatched : String → Prop) (n : Node)
    (js : List String) : Prop :=
  ∀ j, (JobFSM.applyAll .empty boot).Unfinished j →
    MadeTerminal n.log boot.length n.applied j ∨ dispatched j ∨ j ∈ js ∨
      (j ∈ n.mem.pendingQueue ∨ n.pursues = some j)

/-- The drainer's entry came after the election, and if the drainer has given its job up
it is the one that makes the job FAILED. -/
def Awaits (boot log : List FsmCommand) (d : Drainer) (index : Nat) : Prop :=
  boot.length ≤ index ∧ ∀ a message exhausted, d = .fail a message exhausted →
    ∃ cmd, log[index]? = some cmd ∧ cmd.op = .cas ∧ cmd.record.terminal = true ∧
      cmd.record.id = a.jobID

structure Node.Leads (boot : List FsmCommand) (n : Node) : Prop where
  leading : n.leading = true
  log : boot <+: n.log
  notified : n.leaderCh ≠ some false
  own : ∀ k resp t, boot.length ≤ k → n.replies[k]? = some (resp, t) → t = some n.term
  drainer : ∀ d k c index, n.drainer = .waiting d k c index n.term → Awaits boot n.log d index
  watcher : n.leaderCh = none → ∀ pc k c index term, n.watcher = .waiting pc k c index term →
    term = n.term ∧ boot.length ≤ index

def Node.Recovers (boot : List FsmCommand) (dispatched : String → Prop) (n : Node) : Prop :=
  n.leaderCh = none → ∀ js, n.watcher.pc.remaining = some js →
    boot.length ≤ n.applied ∧ n.Covers boot dispatched js

section Leader

variable {boot chosen : List FsmCommand} {dispatched : String → Prop} {n n' : Node} {cfg : Config}
  {net : Net} {ch : Choice} {es : List Server.Event} {j : String}

theorem Node.Leads.not_fails {k index : Nat} (h : n.Leads boot) (hf : net.applyFault = none)
    (hindex : boot.length ≤ index) (hok : n.answers k index = true) :
    ¬ n.Fails net k index n.term := by
  rintro (hfault | hlost | ⟨hr, herr⟩ | ⟨hr, hconf, hlast⟩ | ⟨hr, hne⟩)
  · simp [hf] at hfault
  · exact hlost ⟨h.leading, rfl⟩
  · simp [Node.answers, hr, herr] at hok
  · simp [Node.answers, hr, hconf, hlast] at hok
  · exact hne (Option.some.inj (h.own _ _ _ hindex hr))

theorem Node.Leads.unfinished (h : n.Leads boot) (hs : n.Safe chosen)
    (hboot : boot.length ≤ n.applied) (hj : (JobFSM.applyAll .empty boot).Unfinished j) :
    n.mem.store.Unfinished j ∨ MadeTerminal n.log boot.length n.applied j := by
  rw [hs.store]
  refine unfinished_or_madeTerminal hboot (hs.applied.trans hs.length) ?_
  rw [storeAfter_of_extends h.log le_rfl, storeAfter, List.take_length]
  exact hj

theorem Node.Leads.madeTerminal (h : n.Leads boot) (hs : n.Safe chosen)
    (hboot : boot.length ≤ n.applied) (hj : (JobFSM.applyAll .empty boot).Unfinished j)
    (hnot : ¬ n.mem.store.Unfinished j) : MadeTerminal n.log boot.length n.applied j :=
  (h.unfinished hs hboot hj).resolve_left hnot

theorem Node.Leads.drain {r' : Routine Drainer} (h : n.Leads boot) (hs : n.Safe chosen)
    (hst : Routine.Steps cfg (Drainer.code cfg) n net ch n.drainer n' r' es)
    (hctx : n.mem.ctxDone = false) (hf : ch.fault = none) (hnet : net.applyFault = none)
    (hok : n.drainer.succeeds n = true) (hboot : boot.length ≤ n.applied)
    (hj : (JobFSM.applyAll .empty boot).Unfinished j)
    (hheld : j ∈ n.mem.pendingQueue ∨ n.pursues = some j) :
    MadeTerminal n.log boot.length n.applied j ∨ (∃ w, .answered w j .accepted ∈ es) ∨
      (j ∈ n'.mem.pendingQueue ∨ ({ n' with drainer := r' } : Node).pursues = some j) := by
  have hterm := h.madeTerminal hs hboot hj
  generalize hd : n.drainer = r at hst hok
  cases hst with
  | perform hcode hop hp =>
    simp only [Node.pursues, hd] at hheld
    rcases (Drainer.steps hcode hp).pursues hcode hop hctx hheld with hkeep | hdone | hsent
    · exact .inr (.inr hkeep)
    · exact .inl (hterm hdone)
    · exact .inr (.inl hsent)
  | absent hcode hget =>
    simp only [Node.pursues, hd, (Drainer.pursues_next hcode).1] at hheld
    rcases hheld with hq | hjob
    · exact .inr (.inr (.inl hq))
    · obtain rfl := Option.some.inj hjob
      simp only [hf, Option.isSome_none, Bool.false_eq_true, false_or] at hget
      exact .inl (hterm fun ⟨r, hr, _⟩ => by simp [hget] at hr)
  | skip hcode hget hrun =>
    obtain ⟨hpur, hreap, -⟩ := Drainer.pursues_next hcode
    simp only [Node.pursues, hd, hpur] at hheld
    rcases hheld with hq | hjob
    · exact .inr (.inr (.inl hq))
    · obtain rfl := Option.some.inj hjob
      have ht := Mutator.skip_terminal hreap hrun
      exact .inl (hterm fun ⟨r, hr, hopen⟩ => by simp_all)
  | refused _ hbad => simp [h.leading, hnet] at hbad
  | propose | retry =>
    refine .inr (.inr (hheld.imp_right fun hjob => ?_))
    simp_all [Node.pursues]
  | submit hcode | submitRefused hcode | submitted hcode =>
    exact (Drainer.code_submit hcode).elim
  | @commit d k c index term jobID mutate next resp hcode hreply herr hconf =>
    simp only [Node.pursues, hd] at hheld
    rcases hheld with hq | hjob
    · exact .inr (.inr (.inl hq))
    · have hcur : term = n.term := by
        by_contra hne
        simp [hne] at hjob
      subst hcur
      obtain ⟨hpur, -, hnext⟩ := Drainer.pursues_next hcode
      simp only [if_true, hpur] at hjob
      obtain rfl := Option.some.inj hjob
      rcases hnext with hnext | ⟨a, message, exhausted, hdf, hid, -⟩
      · exact .inr (.inr (.inr (hnext c)))
      · -- the FAILED record is stored, by an entry after the election
        obtain ⟨hindex, hcmd⟩ := h.drainer d k c index hd
        obtain ⟨cmd, hlog, hop, hfin, hrec⟩ := hcmd a message exhausted hdf
        obtain ⟨cmd', hlog', hresp⟩ := hs.replied index resp _ hreply
        obtain rfl : cmd = cmd' := Option.some.inj (hlog.symm.trans hlog')
        subst hresp
        refine .inl ⟨index + 1, Nat.lt_succ_of_le hindex,
          (List.getElem?_eq_some_iff.mp hreply).1, cmd.record, ?_, hfin⟩
        rw [storeAfter_succ hlog, ← hid, ← hrec]
        exact JobFSM.apply_cas hop herr hconf
  | @failed d k c index term jobID mutate next e hcode hfail =>
    refine .inr (.inr (hheld.imp_right fun hjob => ?_))
    have hcur : term = n.term := by
      by_contra hne
      simp [Node.pursues, hd, hne] at hjob
    subst hcur
    exact (h.not_fails hnet (h.drainer d k c index hd).1 hok hfail).elim

theorem Node.Leads.move (h : n.Leads boot) {log : List FsmCommand} (hlog : n.log <+: log)
    (commit : Nat) (mem : Mem) (detector : Routine Detector) (calls : Nat → Routine Handler) :
    Node.Leads boot { n with log, commit, mem, detector, calls } where
  leading := h.leading
  log := h.log.trans hlog
  notified := h.notified
  own := h.own
  drainer := by
    intro d k c index hd
    obtain ⟨hindex, hfail⟩ := h.drainer d k c index hd
    refine ⟨hindex, fun a message exhausted hda => ?_⟩
    obtain ⟨cmd, hcmd, hrest⟩ := hfail a message exhausted hda
    refine ⟨cmd, ?_, hrest⟩
    obtain ⟨rest, rfl⟩ := hlog
    rw [List.getElem?_append_left (List.getElem?_eq_some_iff.mp hcmd).1, hcmd]
  watcher := h.watcher

theorem Node.Leads.proposed (h : n.Leads boot) (hs : n.Safe chosen) {d : Drainer} {k : Nat}
    {c : Captured} {index term : Nat}
    (hst : Routine.Steps cfg (Drainer.code cfg) n net ch n.drainer n' (.waiting d k c index term)
      es) : Awaits boot n'.log d index := by
  generalize n.drainer = r at hst
  cases hst with
  | @propose d _ _ _ jobID mutate next rec cur hcode hget hrun =>
    refine ⟨h.log.length_le, ?_⟩
    rintro a message exhausted rfl
    have hkey : rec.id = jobID := by
      rw [hs.store] at hget
      exact storeAfter_keyed _ _ _ _ hget
    simp only [Drainer.code, Option.some.injEq, Lib.Stmt.mk.injEq,
      Server.Op.transition.injEq] at hcode
    obtain ⟨⟨hjob, rfl⟩, -⟩ := hcode
    obtain ⟨hfin, hid⟩ := Mutator.run_dispatchFailed hrun
    refine ⟨_, List.getElem?_concat_length, rfl, hfin, ?_⟩
    simp [RaftStore.casCommand, hid, hkey, hjob]
  | submit hcode => exact (Drainer.code_submit hcode).elim

theorem Node.Leads.setDrainer (h : n.Leads boot) (hs : n.Safe chosen) {r' : Routine Drainer}
    (hst : Routine.Steps cfg (Drainer.code cfg) n net ch n.drainer n' r' es) :
    Node.Leads boot { n' with drainer := r' } := by
  have hwait : ∀ d k c index, r' = .waiting d k c index n.term → Awaits boot n'.log d index := by
    rintro d k c index rfl
    exact h.proposed hs hst
  obtain ⟨log, mem, rfl, hlog, -⟩ := hst.frame
  have hmove := h.move hlog n.commit mem n.detector n.calls
  exact ⟨hmove.leading, hmove.log, hmove.notified, hmove.own, hwait, hmove.watcher⟩

theorem Node.Leads.setWatcher (h : n.Leads boot) {r' : Routine Main}
    (hst : Routine.Steps cfg Main.code n net ch n.watcher n' r' es) :
    Node.Leads boot { n' with watcher := r' } := by
  have hwait : ∀ pc k c index term, r' = .waiting pc k c index term →
      term = n.term ∧ boot.length ≤ index := by
    rintro pc k c index term rfl
    generalize n.watcher = r at hst
    cases hst <;> exact ⟨rfl, h.log.length_le⟩
  obtain ⟨log, mem, rfl, hlog, -⟩ := hst.frame
  have hmove := h.move hlog n.commit mem n.detector n.calls
  exact ⟨hmove.leading, hmove.log, hmove.notified, hmove.own, hmove.drainer, fun _ => hwait⟩

theorem Node.Leads.apply (h : n.Leads boot) (ha : n.apply = some n') : n'.Leads boot := by
  unfold Node.apply at ha
  split at ha
  · split at ha
    · simp at ha
    · simp only [Option.some.injEq] at ha
      subst ha
      refine ⟨h.leading, h.log, h.notified, ?_, h.drainer, h.watcher⟩
      intro k resp t hk hreply
      rcases Nat.lt_or_ge k n.replies.length with hlt | hge
      · rw [List.getElem?_append_left hlt] at hreply
        exact h.own k resp t hk hreply
      · rw [List.getElem?_append_right hge, h.leading] at hreply
        have hmem := List.mem_of_getElem? hreply
        simp only [if_true, List.mem_singleton, Prod.mk.injEq] at hmem
        exact hmem.2
  · simp at ha

theorem Node.Leads.watch (h : n.Leads boot) (hw : n.watch = some n') :
    n'.Leads boot ∧ n'.watcher.pc = .list := by
  unfold Node.watch at hw
  split at hw
  · split at hw
    · simp at hw
    · obtain rfl := Option.some.inj hw
      exact ⟨⟨h.leading, h.log, by simp, h.own, h.drainer, by simp⟩, rfl⟩
    · rename_i hch
      exact (h.notified hch).elim
  · simp at hw

theorem Routine.Steps.queue {Pc : Type} {code : Pc → Option (Server.Code Pc)} {r r' : Routine Pc}
    (h : Routine.Steps cfg code n net ch r n' r' es)
    (hperform : ∀ {pc stmt mem res es}, code pc = some stmt →
      Server.perform cfg n.mem ch stmt.op = some (mem, res, es) →
        ∀ j ∈ n.mem.pendingQueue, j ∈ mem.pendingQueue) :
    ∀ j ∈ n.mem.pendingQueue, j ∈ n'.mem.pendingQueue := by
  cases h with
  | perform hcode _ hp => exact hperform hcode hp
  | _ => exact fun _ => id

theorem Node.Covers.mono {js js' : List String} {dispatched' : String → Prop}
    (h : n.Covers boot dispatched js) (hs : n.Safe chosen) (hlog : n.log <+: n'.log)
    (happlied : n.applied ≤ n'.applied) (hd : ∀ j, dispatched j → dispatched' j)
    (hkeep : ∀ j, (JobFSM.applyAll .empty boot).Unfinished j →
      j ∈ js ∨ (j ∈ n.mem.pendingQueue ∨ n.pursues = some j) →
        MadeTerminal n.log boot.length n.applied j ∨ dispatched' j ∨ j ∈ js' ∨
          (j ∈ n'.mem.pendingQueue ∨ n'.pursues = some j)) :
    n'.Covers boot dispatched' js' := by
  intro j hj
  have hgrow := fun ht : MadeTerminal n.log boot.length n.applied j =>
    ht.grow hlog (hs.applied.trans hs.length) happlied
  rcases h j hj with ht | hsent | hrest
  · exact .inl (hgrow ht)
  · exact .inr (.inl (hd j hsent))
  · exact (hkeep j hj hrest).imp_left hgrow

theorem Node.Recovers.move (h : n.Recovers boot dispatched) (hs : n.Safe chosen)
    (hch : n'.leaderCh = n.leaderCh) (hw : n'.watcher = n.watcher) (hlog : n.log <+: n'.log)
    (happlied : n.applied ≤ n'.applied) (hqueue : ∀ j ∈ n.mem.pendingQueue, j ∈ n'.mem.pendingQueue)
    (hpur : n'.pursues = n.pursues) : n'.Recovers boot dispatched := by
  intro hnone js hjs
  obtain ⟨hboot, hcov⟩ := h (hch ▸ hnone) js (hw ▸ hjs)
  refine ⟨hboot.trans happlied, hcov.mono hs hlog happlied (fun _ => id) fun j _ hj => ?_⟩
  rw [hpur]
  exact .inr (.inr (hj.imp_right (Or.imp_left (hqueue j))))

theorem Node.Leads.recover {r' : Routine Main} (h : n.Leads boot) (hs : n.Safe chosen)
    (hrec : n.Recovers boot dispatched)
    (hst : Routine.Steps cfg Main.code n net ch n.watcher n' r' es)
    (hdown : n.mem.shuttingDown = false) (hf : ch.fault = none) (hnet : net.applyFault = none)
    (hok : n.watcher.succeeds n = true)
    (hcaught : n.watcher.pc = .list → boot.length ≤ n.applied) :
    Node.Recovers boot dispatched { n' with watcher := r' } := by
  have hch : n'.leaderCh = n.leaderCh := by
    obtain ⟨log, mem, rfl, -, -⟩ := hst.frame
    rfl
  intro hnone js hjs
  replace hnone : n.leaderCh = none := hch.symm.trans hnone
  replace hrec := hrec hnone
  have hwait := h.watcher hnone
  generalize n.watcher = r at hst hok hrec hcaught hwait
  cases hst with
  | perform hcode hop hp =>
    rcases (Main.steps hcode hp).enqueues hcode hop hdown hjs with ⟨rfl, rfl, rfl⟩ | ⟨js₀, hjs₀, hmove⟩
    · refine ⟨hcaught rfl, fun j hj => ?_⟩
      rcases h.unfinished hs (hcaught rfl) hj with hopen | ht
      · have hkey : n.mem.store.KeyedById := hs.store ▸ storeAfter_keyed _ _
        exact .inr (.inr (.inl ((BoltStore.mem_listUnfinished hkey).mpr hopen)))
      · exact .inl ht
    · obtain ⟨hboot, hcov⟩ := hrec js₀ hjs₀
      refine ⟨hboot, hcov.mono hs List.prefix_rfl le_rfl (fun _ => id) fun j _ hj => .inr (.inr ?_)⟩
      rcases or_assoc.mpr hj with hj | hj
      · exact (hmove j hj).imp_right .inl
      · exact .inr (.inr hj)
  | absent hcode hget =>
    obtain ⟨-, js₀, hjs₀, herr, -⟩ := Main.code_transition hcode
    obtain rfl : js₀ = js := Option.some.inj ((herr _ _).symm.trans hjs)
    obtain ⟨hboot, hcov⟩ := hrec _ hjs₀
    refine ⟨hboot, hcov.mono hs List.prefix_rfl le_rfl (fun _ => id) fun j hj hheld => ?_⟩
    rcases hheld with hjob | hheld
    · rcases List.mem_cons.mp hjob with rfl | hjob
      · simp only [hf, Option.isSome_none, Bool.false_eq_true, false_or] at hget
        exact .inl (h.madeTerminal hs hboot hj fun ⟨r, hr, _⟩ => by simp [hget] at hr)
      · exact .inr (.inr (.inl hjob))
    · exact .inr (.inr (.inr hheld))
  | skip hcode _ hrun =>
    obtain ⟨rfl, -⟩ := Main.code_transition hcode
    simp [Mutator.run] at hrun
  | refused _ hbad => simp [h.leading, hnet] at hbad
  | propose hcode =>
    obtain ⟨hboot, hcov⟩ := hrec js hjs
    exact ⟨hboot, hcov.mono hs (List.prefix_append _ _) le_rfl (fun _ => id)
      fun j _ hj => .inr (.inr hj)⟩
  | retry hcode => exact hrec js hjs
  | commit hcode =>
    obtain ⟨-, js₀, hjs₀, -, hnext⟩ := Main.code_transition hcode
    obtain rfl : _ = js := Option.some.inj ((hnext _ _).symm.trans hjs)
    exact hrec _ hjs₀
  | failed hcode hfail =>
    obtain ⟨rfl, hindex⟩ := hwait _ _ _ _ _ rfl
    exact (h.not_fails hnet hindex hok hfail).elim
  | submit hcode | submitRefused hcode | submitted hcode => exact (Main.code_submit hcode).elim

end Leader

/-- Node `i` stays leader and goes on serving, and its store operations succeed. -/
def undisturbed (i : Nat) (s : State) : Action → Bool
  | .elect _ => false
  | .stepDown m => decide (m ≠ i)
  | .server m net a =>
    let n := s.nodes i
    decide (m ≠ i) || (!n.mem.shuttingDown && !n.mem.ctxDone && a.storeSucceeds &&
      net.applyFault.isNone && n.watcher.succeeds n && n.drainer.succeeds n)
  | _ => true

/-- When the recovery on node `i` lists the unfinished jobs, the node has applied the
first `b` entries. -/
def caughtUp (i b : Nat) (s : State) : Action → Bool
  | .server m _ (.main _) =>
    let n := s.nodes i
    decide (m ≠ i ∨ n.watcher.pc ≠ .list ∨ b ≤ n.applied)
  | _ => true

def Dispatched (i : Nat) (es : List Event) (j : String) : Prop :=
  ∃ w, (i, .answered w j .accepted) ∈ es

structure Elected (i : Nat) (boot : List FsmCommand) (es : List Event) (s : State) : Prop where
  safe : Safe s
  leader : s.leader = some i
  leads : (s.nodes i).Leads boot
  recovers : (s.nodes i).Recovers boot (Dispatched i es)

section Election

variable {i : Nat} {boot : List FsmCommand} {es fs : List Event} {s t : State} {cfg : Config}
  {a : Action}

theorem Node.Recovers.dispatched {n : Node} {D D' : String → Prop} (h : n.Recovers boot D)
    (hd : ∀ j, D j → D' j) : n.Recovers boot D' := by
  intro hnone js hjs
  obtain ⟨hboot, hcov⟩ := h hnone js hjs
  exact ⟨hboot, fun j hj => (hcov j hj).imp_right (Or.imp_left (hd j))⟩

theorem Dispatched.append {j : String} (h : Dispatched i es j) : Dispatched i (es ++ fs) j := by
  obtain ⟨w, hw⟩ := h
  exact ⟨w, List.mem_append_left _ hw⟩

theorem Elected.of_elect (hs : Safe s) (hst : Stepped cfg s (.elect i) t fs) :
    Elected i s.chosen [] t := by
  have hsafe := hs.step hst
  have hn := hs.nodes i
  cases hst with
  | elect hlog =>
    refine ⟨hsafe, rfl, ?_, ?_⟩
    · simp only [State.set, Function.update_self]
      refine ⟨rfl, hlog, by simp, ?_, ?_, by simp⟩
      · -- nothing beyond the committed entries has been applied
        intro k resp t hk hreply
        have hlt := (List.getElem?_eq_some_iff.mp hreply).1
        have := hn.applied.trans hn.known
        exact absurd (hlt.trans_le this) (Nat.not_lt.mpr hk)
      · intro d k c index hd
        have := hn.waits d k c index _ hd
        simp at this
    · intro hnone
      simp [State.set] at hnone

theorem Elected.step (h : Elected i boot es s) (hst : Stepped cfg s a t fs)
    (hok : undisturbed i s a = true) (hc : caughtUp i boot.length s a = true) :
    Elected i boot (es ++ fs) t := by
  have hsafe := h.safe.step hst
  have hn := h.safe.nodes i
  have hrec : (s.nodes i).Recovers boot (Dispatched i (es ++ fs)) :=
    h.recovers.dispatched fun _ => .append
  -- a step of another node
  have hother : t.leader = s.leader → t.nodes i = s.nodes i → Elected i boot (es ++ fs) t :=
    fun hl ht => ⟨hsafe, hl.trans h.leader, ht ▸ h.leads, ht ▸ hrec⟩
  -- a step of this one
  have hself : ∀ n', t.leader = s.leader → t.nodes i = n' → n'.Leads boot →
      n'.Recovers boot (Dispatched i (es ++ fs)) → Elected i boot (es ++ fs) t :=
    fun n' hl ht hleads hrec => ⟨hsafe, hl.trans h.leader, ht ▸ hleads, ht ▸ hrec⟩
  cases hst with
  | elect => simp [undisturbed] at hok
  | @stepDown m =>
    have hm : m ≠ i := by simpa [undisturbed] using hok
    exact hother rfl (by simp [State.set, hm.symm])
  | @replicate m k l hl hne =>
    obtain rfl : i = l := Option.some.inj (h.leader.symm.trans hl)
    exact hother rfl (by simp [State.set, hne.symm])
  | @commit m k | @learn m k =>
    by_cases hm : i = m
    · subst hm
      exact hself _ rfl (Function.update_self ..) (h.leads.move List.prefix_rfl k _ _ _)
        (hrec.move hn rfl rfl List.prefix_rfl le_rfl (fun _ => id) rfl)
    · exact hother rfl (by simp [State.set, hm])
  | @apply m n ha =>
    by_cases hm : i = m
    · subst hm
      refine hself n rfl (Function.update_self ..) (h.leads.apply ha) ?_
      unfold Node.apply at ha
      split at ha
      · split at ha
        · simp at ha
        · obtain rfl := Option.some.inj ha
          exact hrec.move hn rfl rfl List.prefix_rfl (by simp [Node.applied]) (fun _ => id) rfl
      · simp at ha
    · exact hother rfl (by simp [State.set, hm])
  | @watch m n hw =>
    by_cases hm : i = m
    · subst hm
      obtain ⟨hleads, hpc⟩ := h.leads.watch hw
      refine hself n rfl (Function.update_self ..) hleads fun _ js hjs => ?_
      simp [hpc, Main.remaining] at hjs
    · exact hother rfl (by simp [State.set, hm])
  | @server m net a n es' uuids hserve =>
    by_cases hm : i = m
    · subst hm
      simp only [undisturbed, ne_eq, not_true_eq_false, decide_false, Bool.false_or,
        Bool.and_eq_true, Bool.not_eq_true', Option.isNone_iff_eq_none] at hok
      obtain ⟨⟨⟨⟨⟨hdown, hctx⟩, hfault⟩, hnet⟩, hwok⟩, hdok⟩ := hok
      refine hself n rfl (Function.update_self ..) ?_ ?_
      · cases hserve with
        | main hst => exact h.leads.setWatcher hst
        | drainer hst => exact h.leads.setDrainer hn hst
        | detector hst | call hst =>
          obtain ⟨log, mem, rfl, hlog, -⟩ := hst.frame
          exact h.leads.move hlog _ _ _ _
        | other => exact h.leads.move List.prefix_rfl _ _ _ _
      · cases hserve with
        | main hst =>
          refine h.leads.recover hn hrec hst hdown (Option.isNone_iff_eq_none.mp hfault) hnet hwok ?_
          intro hlist
          simpa [caughtUp, hlist] using hc
        | @drainer ch n' r' _ hst =>
          have hdrain := fun j => h.leads.drain (j := j) hn hst hctx
            (Option.isNone_iff_eq_none.mp hfault) hnet hdok
          obtain ⟨log, mem, rfl, hlog, -⟩ := hst.frame
          intro hnone js hjs
          obtain ⟨hboot, hcov⟩ := hrec hnone js hjs
          refine ⟨hboot, hcov.mono hn hlog le_rfl (fun _ => id) fun j hj hheld => ?_⟩
          rcases hheld with hjob | hheld
          · exact .inr (.inr (.inl hjob))
          · rcases hdrain j hboot hj hheld with ht | ⟨w, hw⟩ | hkeep
            · exact .inl ht
            · exact .inr (.inl ⟨w, List.mem_append_right _ (List.mem_map_of_mem hw)⟩)
            · exact .inr (.inr (.inr hkeep))
        | detector hst =>
          have hqueue := hst.queue fun hcode hp j => (Detector.steps hcode hp).queue
          obtain ⟨log, mem, rfl, hlog, -⟩ := hst.frame
          exact hrec.move hn rfl rfl hlog le_rfl hqueue rfl
        | call hst =>
          have hqueue := hst.queue fun hcode hp j => (Handler.steps hcode hp).queue
          obtain ⟨log, mem, rfl, hlog, -⟩ := hst.frame
          exact hrec.move hn rfl rfl hlog le_rfl hqueue rfl
        | other _ hq =>
          exact hrec.move hn rfl rfl List.prefix_rfl le_rfl (fun j hj => hq ▸ hj) rfl
    · exact hother rfl (by simp [State.set, hm])

def Node.Recovered (n : Node) : Prop := n.leaderCh = none ∧ n.watcher.pc = .serving

theorem failover_recovers_unfinished (cfg : Config) {as₀ as : List Action}
    {es₀ es₁ : List Event} {s₀ s₁ : State}
    (hbefore : (machine cfg).Run Lib.Machine.Always init as₀ es₀ s₀)
    (helect : step cfg s₀ (.elect i) = some (s₁, es₁))
    (hafter : (machine cfg).Run
      (fun t a => (undisturbed i t a && caughtUp i s₀.chosen.length t a) = true) s₁ as es s)
    (hreturned : (s.nodes i).Recovered) {j : String}
    (hj : (JobFSM.applyAll .empty s₀.chosen).Unfinished j)
    (hopen : ¬ MadeTerminal (s.nodes i).log s₀.chosen.length (s.nodes i).applied j) :
    j ∈ (s.nodes i).mem.pendingQueue ∨ (s.nodes i).drainer.pc.job = some j ∨
      Dispatched i es j := by
  have hstart := Elected.of_elect (safe_of_run hbefore .init) (stepped_of_step helect)
  have hinv := hafter.invariant_trace (P := Elected i s₀.chosen) hstart
    fun _ t a u e h hok hst => by
      rw [Bool.and_eq_true] at hok
      exact h.step (stepped_of_step hst) hok.1 hok.2
  obtain ⟨-, hcov⟩ := hinv.recovers hreturned.1 [] (by rw [hreturned.2]; rfl)
  rcases hcov j hj with ht | hsent | hlisted | hqueue | hpur
  · exact absurd ht hopen
  · exact .inr (.inr hsent)
  · simp at hlisted
  · exact .inl hqueue
  · exact .inr (.inl (Node.job_of_pursues hpur))

end Election

def sampleCommitted : State × List Event :=
  ((machine Server.sampleConfig).exec (fun _ _ => true) init
    [.elect 0,
     .server 0 {} (.invokeFunction 0 { functionBytes := [1] } "j" 1),
     .server 0 {} (.call 0 { now := 1 }),
     .commit 0 1, .apply 0, .replicate 1 1]).get (by decide)

def sampleElected : State × List Event :=
  (step Server.sampleConfig sampleCommitted.1 (.elect 1)).get (by decide)

def sampleRecovered : State × List Event :=
  ((machine Server.sampleConfig).exec
    (fun t a => undisturbed 1 t a && caughtUp 1 sampleCommitted.1.chosen.length t a)
    sampleElected.1
    [.commit 1 1, .apply 1, .watch 1,
     .server 1 {} (.main {}), .server 1 {} (.main { now := 2 }),
     .commit 1 2, .apply 1,
     .server 1 {} (.main {}), .server 1 {} (.main {}), .server 1 {} (.main {})]).get (by decide)

theorem failover_recovers_unfinished_sampleRecovered :
    "j" ∈ (sampleRecovered.1.nodes 1).mem.pendingQueue ∨
      (sampleRecovered.1.nodes 1).drainer.pc.job = some "j" ∨
      Dispatched 1 sampleRecovered.2 "j" := by
  have hbefore : (machine Server.sampleConfig).Run Lib.Machine.Always init _ sampleCommitted.2
      sampleCommitted.1 :=
    (Lib.Machine.run_of_exec_get (by decide)).mono fun _ _ _ => trivial
  refine failover_recovers_unfinished Server.sampleConfig hbefore
    (Option.some_get (by decide)).symm (Lib.Machine.run_of_exec_get (by decide)) ⟨rfl, rfl⟩
    ⟨_, rfl, rfl⟩ ?_
  rintro ⟨k, hlt, hle, r, hget, hfin⟩
  obtain rfl : k = 2 := by
    have : k ≤ 2 := hle
    have : 1 < k := hlt
    omega
  obtain rfl := Option.some.inj (hget.symm.trans rfl)
  exact absurd hfin (by decide)

/-- The recovery on node 1 lists its store before the committed entry is applied there. -/
def sampleMissed : State × List Event :=
  ((machine Server.sampleConfig).exec (fun t a => undisturbed 1 t a) sampleElected.1
    [.watch 1, .server 1 {} (.main {}), .commit 1 1, .apply 1]).get (by decide)

theorem unfinished_lost_at_failover :
    ∃ as₀ es₀ s₀ es₁ s₁ as es s,
      (machine Server.sampleConfig).Run Lib.Machine.Always init as₀ es₀ s₀ ∧
      step Server.sampleConfig s₀ (.elect 1) = some (s₁, es₁) ∧
      (machine Server.sampleConfig).Run (fun t a => undisturbed 1 t a = true) s₁ as es s ∧
      (s.nodes 1).Recovered ∧ s₀.chosen.length ≤ (s.nodes 1).applied ∧
      (JobFSM.applyAll .empty s₀.chosen).Unfinished "j" ∧
      ¬ MadeTerminal (s.nodes 1).log s₀.chosen.length (s.nodes 1).applied "j" ∧
      ¬ ("j" ∈ (s.nodes 1).mem.pendingQueue ∨ (s.nodes 1).drainer.pc.job = some "j" ∨
        Dispatched 1 es "j") := by
  have hbefore : (machine Server.sampleConfig).Run Lib.Machine.Always init _ sampleCommitted.2
      sampleCommitted.1 :=
    (Lib.Machine.run_of_exec_get (by decide)).mono fun _ _ _ => trivial
  have helect : step Server.sampleConfig sampleCommitted.1 (.elect 1) = some sampleElected :=
    (Option.some_get (by decide)).symm
  have hafter : (machine Server.sampleConfig).Run (fun t a => undisturbed 1 t a = true)
      sampleElected.1 _ sampleMissed.2 sampleMissed.1 :=
    Lib.Machine.run_of_exec_get (by decide)
  refine ⟨_, _, _, _, _, _, _, _, hbefore, helect, hafter, ⟨rfl, rfl⟩, by decide, ⟨_, rfl, rfl⟩,
    ?_, ?_⟩
  · rintro ⟨k, hlt, hle, -⟩
    exact absurd (hlt.trans_le hle) (by decide)
  · rintro (hq | hd | ⟨w, hw⟩)
    · exact absurd hq (by decide)
    · exact absurd hd (by decide)
    · have hnone : sampleMissed.2 = [] := rfl
      simp [hnone] at hw

end Raft

end Minimodal
