import Minimodal.Raft.Node
import Minimodal.Server.Effects
import Minimodal.Server.Evolve

namespace Minimodal.Server

def Op.writes : Op → Bool
  | .transition _ _ | .submitWithIdempotency _ _ => true
  | _ => false

theorem perform_reads {cfg : Config} {m m' : Mem} {ch : Choice} {op : Op} {r : op.Res}
    {es : List Event} (hop : op.writes = false) (h : perform cfg m ch op = some (m', r, es)) :
    m'.store = m.store := by
  rcases perform_store h with heq | ⟨jobID, mutate, rfl, -⟩ | ⟨rec, key, rfl, -⟩
  · exact heq
  · simp [Op.writes] at hop
  · simp [Op.writes] at hop

end Minimodal.Server

namespace Minimodal.Raft

open Server (Mem Op Main Drainer Detector Handler Choice)
open RaftStore (maxCASRetries casCommand submitCommand)

inductive Node.Fails (n : Node) (net : Net) (attempt index term : Nat) : Prop
  | fault : net.applyFault.isSome = true → Fails n net attempt index term
  | lost : ¬ (n.leading = true ∧ n.term = term) → Fails n net attempt index term
  | err {resp t e} : n.replies[index]? = some (resp, t) → resp.err = some e →
      Fails n net attempt index term
  | gaveUp {resp t} : n.replies[index]? = some (resp, t) → resp.conflict = true →
      ¬ attempt + 1 < maxCASRetries → Fails n net attempt index term
  | foreign {resp t} : n.replies[index]? = some (resp, some t) → t ≠ term →
      Fails n net attempt index term

inductive Routine.Steps {Pc : Type} (cfg : Config) (code : Pc → Option (Server.Code Pc)) (n : Node)
    (net : Net) (ch : Choice) : Routine Pc → Node → Routine Pc → List Server.Event → Prop
  | perform {pc k c} {stmt : Server.Code Pc} {mem r es} : code pc = some stmt →
      stmt.op.writes = false → Server.perform cfg n.mem ch stmt.op = some (mem, r, es) →
      Steps cfg code n net ch (.run pc k c) { n with mem } (.at (stmt.next r)) es
  | absent {pc k c jobID mutate next e} : code pc = some ⟨.transition jobID mutate, next⟩ →
      (ch.fault.isSome = true ∨ n.mem.store.jobs.get jobID = none) →
      Steps cfg code n net ch (.run pc k c) n (.at (next (c, .error e)))
        [.transitioned jobID mutate (.error e)]
  | skip {pc k c c' jobID mutate next rec} : code pc = some ⟨.transition jobID mutate, next⟩ →
      n.mem.store.jobs.get jobID = some rec →
      mutate.run c rec = (c', .error .errSkipTransition) →
      Steps cfg code n net ch (.run pc k c) n (.at (next (c', .ok false)))
        [.transitioned jobID mutate (.ok false)]
  | refused {pc k c c' jobID mutate next e} : code pc = some ⟨.transition jobID mutate, next⟩ →
      (n.leading = false ∨ net.applyFault.isSome = true) →
      Steps cfg code n net ch (.run pc k c) n (.at (next (c', .error e)))
        [.transitioned jobID mutate (.error e)]
  | propose {pc k c c' jobID mutate next rec cur} :
      code pc = some ⟨.transition jobID mutate, next⟩ →
      n.mem.store.jobs.get jobID = some rec → mutate.run c rec = (c', .ok cur) →
      n.leading = true →
      Steps cfg code n net ch (.run pc k c) { n with log := n.log ++ [casCommand rec cur ch.now] }
        (.waiting pc k c' n.log.length n.term) []
  | submit {pc k c rec key next} : code pc = some ⟨.submitWithIdempotency rec key, next⟩ →
      n.leading = true →
      Steps cfg code n net ch (.run pc k c) { n with log := n.log ++ [submitCommand rec key ch.now] }
        (.waiting pc k c n.log.length n.term) []
  | submitRefused {pc k c rec key next e} : code pc = some ⟨.submitWithIdempotency rec key, next⟩ →
      Steps cfg code n net ch (.run pc k c) n (.at (next (.error e))) [.submitted rec key (.error e)]
  | retry {pc k c index term jobID mutate next} : code pc = some ⟨.transition jobID mutate, next⟩ →
      Steps cfg code n net ch (.waiting pc k c index term) n (.run pc (k + 1) c) []
  | commit {pc k c index term jobID mutate next resp} :
      code pc = some ⟨.transition jobID mutate, next⟩ →
      n.replies[index]? = some (resp, some term) → resp.err = none → resp.conflict = false →
      Steps cfg code n net ch (.waiting pc k c index term) n (.at (next (c, .ok true)))
        [.transitioned jobID mutate (.ok true)]
  | failed {pc k c index term jobID mutate next e} :
      code pc = some ⟨.transition jobID mutate, next⟩ → n.Fails net k index term →
      Steps cfg code n net ch (.waiting pc k c index term) n (.at (next (c, .error e)))
        [.transitioned jobID mutate (.error e)]
  | submitted {pc k c index term rec key next result} :
      code pc = some ⟨.submitWithIdempotency rec key, next⟩ →
      Steps cfg code n net ch (.waiting pc k c index term) n (.at (next result))
        [.submitted rec key result]

section Inversion

variable {Pc : Type} {cfg : Config} {code : Pc → Option (Server.Code Pc)} {n n' : Node} {net : Net}
  {ch : Choice} {es : List Server.Event} {pc : Pc} {k : Nat} {c : Captured}

theorem Node.propose_ok {cmd : FsmCommand} (h : n.propose net cmd = .ok n') :
    n.leading = true ∧ n' = { n with log := n.log ++ [cmd] } := by
  unfold propose at h
  split at h
  · rename_i hlead
    split at h
    · simp at h
    · exact ⟨hlead, (Except.ok.inj h).symm⟩
  · simp at h

theorem Node.propose_error {cmd : FsmCommand} {e : Err} (h : n.propose net cmd = .error e) :
    n.leading = false ∨ net.applyFault.isSome = true := by
  unfold propose at h
  split at h
  · split at h
    · rename_i hfault
      exact .inr (by simp [hfault])
    · simp at h
  · rename_i hlead
    exact .inl (by simpa using hlead)

theorem Node.future_ok {index term : Nat} {resp : FsmResponse}
    (h : n.future net index term = some (.ok resp)) :
    n.replies[index]? = some (resp, some term) ∧ resp.err = none := by
  unfold future at h
  split at h
  · simp at h
  · rename_i resp' t hfault hreply
    split at h
    · rename_i ht
      split at h
      · simp at h
      · rename_i herr
        simp only [Option.some.injEq, Except.ok.injEq] at h
        exact ⟨by rw [hreply, ht, h], h ▸ herr⟩
    · simp at h
  · split at h <;> simp at h

theorem Node.future_error {index term : Nat} {e : Err}
    (h : n.future net index term = some (.error e)) (k : Nat) : n.Fails net k index term := by
  unfold future at h
  split at h
  · rename_i hfault
    exact .fault (by simp [hfault])
  · rename_i resp t hfault hreply
    split at h
    · split at h
      · rename_i herr
        exact .err hreply herr
      · simp at h
    · rename_i hne
      exact .foreign hreply hne
  · split at h
    · simp at h
    · rename_i hlost
      exact .lost hlost

theorem Routine.steps_run {r' : Routine Pc}
    (h : (Routine.run pc k c).step cfg code n net ch = some (n', r', es)) :
    Steps cfg code n net ch (.run pc k c) n' r' es := by
  simp only [Routine.step] at h
  split at h
  · simp at h
  · rename_i jobID mutate next hcode
    split at h
    · rename_i hview
      simp only [Option.some.injEq, Prod.mk.injEq] at h
      obtain ⟨rfl, rfl, rfl⟩ := h
      refine .absent hcode (.inl ?_)
      cases hf : ch.fault with
      | none => simp [Server.view, hf] at hview
      | some msg => rfl
    · rename_i hview
      simp only [Option.some.injEq, Prod.mk.injEq] at h
      obtain ⟨rfl, rfl, rfl⟩ := h
      refine .absent hcode ?_
      cases hf : ch.fault with
      | none => exact .inr (by simpa [Server.view, hf, BoltStore.getJob] using hview)
      | some msg => exact .inl rfl
    · rename_i rec hview
      have hget : n.mem.store.jobs.get jobID = some rec := by
        cases hf : ch.fault with
        | none => simpa [Server.view, hf, BoltStore.getJob] using hview
        | some msg => simp [Server.view, hf] at hview
      split at h
      · rename_i hrun
        simp only [Option.some.injEq, Prod.mk.injEq] at h
        obtain ⟨rfl, rfl, rfl⟩ := h
        exact .skip hcode hget hrun
      · rename_i hne hrun
        exact absurd (Mutator.skips_of_run hrun).2 hne
      · rename_i hrun
        split at h
        · rename_i hprop
          simp only [Option.some.injEq, Prod.mk.injEq] at h
          obtain ⟨rfl, rfl, rfl⟩ := h
          exact .refused hcode (Node.propose_error hprop)
        · rename_i hprop
          obtain ⟨hlead, rfl⟩ := Node.propose_ok hprop
          simp only [Option.some.injEq, Prod.mk.injEq] at h
          obtain ⟨rfl, rfl, rfl⟩ := h
          exact .propose hcode hget hrun hlead
  · rename_i rec key next hcode
    split at h
    · simp only [Option.some.injEq, Prod.mk.injEq] at h
      obtain ⟨rfl, rfl, rfl⟩ := h
      exact .submitRefused hcode
    · rename_i hprop
      obtain ⟨hlead, rfl⟩ := Node.propose_ok hprop
      simp only [Option.some.injEq, Prod.mk.injEq] at h
      obtain ⟨rfl, rfl, rfl⟩ := h
      exact .submit hcode hlead
  · rename_i op next hnt hns hcode
    simp only [Option.map_eq_some_iff, Prod.mk.injEq, Prod.exists] at h
    obtain ⟨mem, r, _, hp, rfl, rfl, rfl⟩ := h
    refine .perform hcode ?_ hp
    cases op with
    | transition jobID mutate => exact (hnt jobID mutate next rfl HEq.rfl).elim
    | submitWithIdempotency rec key => exact (hns rec key next rfl HEq.rfl).elim
    | _ => rfl

theorem Routine.steps_waiting {index term : Nat} {r' : Routine Pc}
    (h : (Routine.waiting pc k c index term).step cfg code n net ch = some (n', r', es)) :
    Steps cfg code n net ch (.waiting pc k c index term) n' r' es := by
  simp only [Routine.step] at h
  split at h
  · rename_i jobID mutate next result hcode hfut
    split at h
    · simp only [Option.some.injEq, Prod.mk.injEq] at h
      obtain ⟨rfl, rfl, rfl⟩ := h
      exact .failed hcode (Node.future_error hfut k)
    · obtain ⟨hreply, herr⟩ := Node.future_ok hfut
      split at h
      · rename_i hconf
        split at h
        · simp only [Option.some.injEq, Prod.mk.injEq] at h
          obtain ⟨rfl, rfl, rfl⟩ := h
          exact .retry hcode
        · rename_i hlast
          simp only [Option.some.injEq, Prod.mk.injEq] at h
          obtain ⟨rfl, rfl, rfl⟩ := h
          exact .failed hcode (.gaveUp hreply hconf hlast)
      · rename_i hconf
        simp only [Option.some.injEq, Prod.mk.injEq] at h
        obtain ⟨rfl, rfl, rfl⟩ := h
        exact .commit hcode hreply herr (by simpa using hconf)
  · rename_i hcode hfut
    simp only [Option.some.injEq, Prod.mk.injEq] at h
    obtain ⟨rfl, rfl, rfl⟩ := h
    exact .submitted hcode
  · simp at h

theorem Routine.steps {r r' : Routine Pc} (h : r.step cfg code n net ch = some (n', r', es)) :
    Steps cfg code n net ch r n' r' es := by
  cases r with
  | run => exact steps_run h
  | waiting => exact steps_waiting h

theorem Routine.Steps.frame {r r' : Routine Pc} (h : Steps cfg code n net ch r n' r' es) :
    ∃ log mem, n' = { n with log, mem } ∧ n.log <+: log ∧ mem.store = n.mem.store := by
  cases h with
  | perform _ hop hp => exact ⟨n.log, _, rfl, List.prefix_rfl, Server.perform_reads hop hp⟩
  | propose | submit => exact ⟨_, n.mem, rfl, List.prefix_append _ _, rfl⟩
  | _ => exact ⟨n.log, n.mem, rfl, List.prefix_rfl, rfl⟩

theorem Routine.Steps.term {r : Routine Pc} {index term : Nat}
    (h : Steps cfg code n net ch r n' (.waiting pc k c index term) es) : term = n.term := by
  cases h <;> rfl

end Inversion

/-- The nodes, the last one elected, the entries committed so far, and the ids that
`uuid.NewString` has returned. -/
structure State where
  nodes : Nat → Node := fun _ => {}
  leader : Option Nat := none
  chosen : List FsmCommand := []
  uuids : List String := []

def init : State := {}

def State.set (s : State) (i : Nat) (n : Node) : State :=
  { s with nodes := Function.update s.nodes i n }

inductive Action
  | elect (i : Nat)
  | stepDown (i : Nat)
  | replicate (i k : Nat)
  | commit (i k : Nat)
  | learn (i k : Nat)
  | apply (i : Nat)
  | watch (i : Nat)
  | server (i : Nat) (net : Net) (a : Server.Action)

def Action.uuids : Action → List String
  | .server _ _ (.invokeFunction _ _ uuid _) => [uuid]
  | _ => []

abbrev Event := Nat × Server.Event

def step (cfg : Config) (s : State) : Action → Option (State × List Event)
  | .elect i =>
    let n := s.nodes i
    -- leader completeness; the entries need not be applied, or known to be committed
    if n.leading = false ∧ s.chosen <+: n.log then
      let n := { n with leading := true, term := n.term + 1, leaderCh := some true }
      some ({ s.set i n with leader := some i }, [])
    else none
  | .stepDown i =>
    let n := s.nodes i
    if n.leading then some (s.set i { n with leading := false, leaderCh := some false }, [])
    else none
  | .replicate i k =>
    match s.leader with
    | none => none
    | some l =>
      let n := s.nodes i
      if i ≠ l ∧ (s.nodes l).leading ∧ n.leading = false ∧ n.commit ≤ k then
        some (s.set i { n with log := (s.nodes l).log.take k }, [])
      else none
  | .commit i k =>
    let n := s.nodes i
    if s.leader = some i ∧ n.leading ∧ k ≤ n.log.length ∧ s.chosen.length ≤ k then
      some ({ s.set i { n with commit := k } with chosen := n.log.take k }, [])
    else none
  | .learn i k =>
    let n := s.nodes i
    if n.commit ≤ k ∧ k ≤ s.chosen.length ∧ n.log.take k = s.chosen.take k then
      some (s.set i { n with commit := k }, [])
    else none
  | .apply i => (s.nodes i).apply.map fun n => (s.set i n, [])
  | .watch i => (s.nodes i).watch.map fun n => (s.set i n, [])
  | .server i net a =>
    let uuids := (Action.server i net a).uuids
    if ∀ uuid ∈ uuids, uuid ∉ s.uuids ∧ validKey uuid then
      ((s.nodes i).serve cfg net a).map fun (n, es) =>
        ({ s.set i n with uuids := uuids ++ s.uuids }, es.map ((i, ·)))
    else none

/-- Raft itself is assumed: terms, votes and quorums show only in the guards. -/
def machine (cfg : Config) : Lib.Machine State Action Event := ⟨step cfg⟩

inductive Served (cfg : Config) (n : Node) (net : Net) :
    Server.Action → Node → List Server.Event → Prop
  | main {ch n' r' es} : Routine.Steps cfg Main.code n net ch n.watcher n' r' es →
      Served cfg n net (.main ch) { n' with watcher := r' } es
  | drainer {ch n' r' es} : Routine.Steps cfg (Drainer.code cfg) n net ch n.drainer n' r' es →
      Served cfg n net (.drainer ch) { n' with drainer := r' } es
  | detector {ch n' r' es} : Routine.Steps cfg (Detector.code cfg) n net ch n.detector n' r' es →
      Served cfg n net (.detector ch) { n' with detector := r' } es
  | call {call ch n' r' es} :
      Routine.Steps cfg (Handler.code call) n net ch (n.calls call) n' r' es →
      Served cfg n net (.call call ch) (n'.setCall call r') es
  | other {a mem calls es} : mem.store = n.mem.store → mem.pendingQueue = n.mem.pendingQueue →
      Served cfg n net a { n with mem, calls } es

section Served

variable {cfg : Config} {n n' : Node} {net : Net} {a : Server.Action} {es : List Server.Event}

theorem Served.of_accept {call : Nat} {h : Handler} (hst : n.accept call h = some (n', es)) :
    Served cfg n net a n' es := by
  unfold Node.accept at hst
  split at hst
  · simp only [Option.some.injEq, Prod.mk.injEq] at hst
    obtain ⟨rfl, rfl⟩ := hst
    exact .other rfl rfl
  · simp at hst

theorem served_of_serve (h : n.serve cfg net a = some (n', es)) : Served cfg n net a n' es := by
  cases a with
  | start | crash => simp [Node.serve] at h
  | beginShutdown | registerWorker | heartbeat =>
    simp only [Node.serve, Option.some.injEq, Prod.mk.injEq] at h
    obtain ⟨rfl, rfl⟩ := h
    exact .other rfl rfl
  | cancel | close =>
    simp only [Node.serve] at h
    split at h
    · simp only [Option.some.injEq, Prod.mk.injEq] at h
      obtain ⟨rfl, rfl⟩ := h
      exact .other rfl rfl
    · simp at h
  | main | drainer | detector | call =>
    simp only [Node.serve, Option.map_eq_some_iff, Prod.mk.injEq, Prod.exists] at h
    obtain ⟨n', r', _, hst, rfl, rfl⟩ := h
    constructor
    exact Routine.steps hst
  | invokeFunction | reportTaskResult | getJobStatus | watchJob | streamTaskLogs =>
    exact .of_accept h

theorem Served.frame (h : Served cfg n net a n' es) :
    n.log <+: n'.log ∧ n'.commit = n.commit ∧ n'.replies = n.replies ∧ n'.leading = n.leading ∧
      n'.term = n.term ∧ n'.leaderCh = n.leaderCh ∧ n'.mem.store = n.mem.store := by
  cases h with
  | other hstore => exact ⟨List.prefix_rfl, rfl, rfl, rfl, rfl, rfl, hstore⟩
  | main hst | drainer hst | detector hst | call hst =>
    obtain ⟨log, mem, rfl, hlog, hstore⟩ := hst.frame
    exact ⟨hlog, rfl, rfl, rfl, rfl, rfl, hstore⟩

end Served

def storeAfter (log : List FsmCommand) (k : Nat) : BoltStore :=
  JobFSM.applyAll .empty (log.take k)

theorem storeAfter_succ {log : List FsmCommand} {k : Nat} {cmd : FsmCommand}
    (h : log[k]? = some cmd) :
    storeAfter log (k + 1) = (JobFSM.apply (storeAfter log k) cmd).1 := by
  simp [storeAfter, List.take_add_one, h]

theorem storeAfter_of_take {log log' : List FsmCommand} {c k : Nat} (hk : k ≤ c)
    (h : log'.take c = log.take c) : storeAfter log' k = storeAfter log k := by
  have htake := congrArg (List.take k) h
  simp only [List.take_take, Nat.min_eq_left hk] at htake
  rw [storeAfter, htake, storeAfter]

/-- A node has applied a part of what it knows to be committed, in order. -/
structure Node.Safe (chosen : List FsmCommand) (n : Node) : Prop where
  known : n.commit ≤ chosen.length
  committed : n.log.take n.commit = chosen.take n.commit
  applied : n.applied ≤ n.commit
  store : n.mem.store = storeAfter n.log n.applied
  replied : ∀ i resp t, n.replies[i]? = some (resp, t) →
    ∃ cmd, n.log[i]? = some cmd ∧ resp = (JobFSM.apply (storeAfter n.log i) cmd).2
  waits : ∀ pc k c index term, n.drainer = .waiting pc k c index term → term ≤ n.term

namespace Node.Safe

variable {chosen chosen' : List FsmCommand} {n n' : Node}

theorem length (h : n.Safe chosen) : n.commit ≤ n.log.length := by
  have hlen := congrArg List.length h.committed
  simp only [List.length_take] at hlen
  have := h.known
  omega

theorem init : Node.Safe [] {} where
  known := by simp
  committed := by simp
  applied := by simp [Node.applied]
  store := by simp [storeAfter]
  replied := by simp
  waits _ _ _ _ _ hd := by simp at hd

theorem mono (h : n.Safe chosen) (hc : chosen <+: chosen') : n.Safe chosen' where
  known := h.known.trans hc.length_le
  committed := by
    obtain ⟨rest, rfl⟩ := hc
    rw [h.committed, List.take_append_of_le_length h.known]
  applied := h.applied
  store := h.store
  replied := h.replied
  waits := h.waits

theorem rewrite (h : n.Safe chosen) (hlog : n'.log.take n.commit = n.log.take n.commit)
    (hcommit : n'.commit = n.commit) (hreplies : n'.replies = n.replies)
    (hstore : n'.mem.store = n.mem.store)
    (hwaits : ∀ pc k c index term, n'.drainer = .waiting pc k c index term → term ≤ n'.term) :
    n'.Safe chosen where
  known := hcommit ▸ h.known
  committed := by rw [hcommit, hlog, h.committed]
  applied := by
    rw [Node.applied, hreplies, hcommit]
    exact h.applied
  store := by
    have happlied : n'.applied = n.applied := congrArg List.length hreplies
    rw [hstore, h.store, happlied, storeAfter_of_take h.applied hlog]
  replied := by
    intro i resp t hi
    rw [hreplies] at hi
    obtain ⟨cmd, hcmd, hresp⟩ := h.replied i resp t hi
    have hlt : i < n.applied := (List.getElem?_eq_some_iff.mp hi).1
    have hic : i < n.commit := hlt.trans_le h.applied
    refine ⟨cmd, ?_, ?_⟩
    · rw [← List.getElem?_take_of_lt hic, hlog, List.getElem?_take_of_lt hic, hcmd]
    · rw [hresp, storeAfter_of_take hic.le hlog]
  waits := hwaits

theorem commit {k : Nat} (h : n.Safe chosen) (hle : n.commit ≤ k) (hk : k ≤ chosen.length)
    (htake : n.log.take k = chosen.take k) : Node.Safe chosen { n with commit := k } where
  known := hk
  committed := htake
  applied := h.applied.trans hle
  store := h.store
  replied := h.replied
  waits := h.waits

theorem apply (h : n.Safe chosen) (ha : n.apply = some n') : n'.Safe chosen := by
  unfold Node.apply at ha
  split at ha
  · rename_i hlt
    split at ha
    · simp at ha
    · rename_i cmd hcmd
      simp only [Option.some.injEq] at ha
      subst ha
      refine ⟨h.known, h.committed, ?_, ?_, ?_, h.waits⟩
      · simpa [Node.applied] using hlt
      · have hsucc := storeAfter_succ hcmd
        rw [← h.store] at hsucc
        simpa [Node.applied] using hsucc.symm
      · intro i resp t hi
        rcases Nat.lt_trichotomy i n.replies.length with hi' | rfl | hi'
        · rw [List.getElem?_append_left hi'] at hi
          exact h.replied i resp t hi
        · simp only [List.getElem?_concat_length, Option.some.injEq, Prod.mk.injEq] at hi
          exact ⟨cmd, hcmd, by rw [← hi.1, h.store]; rfl⟩
        · rw [List.getElem?_eq_none (by simpa using hi')] at hi
          simp at hi
  · simp at ha

end Node.Safe

inductive Stepped (cfg : Config) (s : State) : Action → State → List Event → Prop
  | elect {i} : s.chosen <+: (s.nodes i).log →
      Stepped cfg s (.elect i)
        { s.set i { s.nodes i with
            leading := true, term := (s.nodes i).term + 1, leaderCh := some true } with
          leader := some i } []
  | stepDown {i} : Stepped cfg s (.stepDown i)
      (s.set i { s.nodes i with leading := false, leaderCh := some false }) []
  | replicate {i k l} : s.leader = some l → i ≠ l → (s.nodes i).commit ≤ k →
      Stepped cfg s (.replicate i k)
        (s.set i { s.nodes i with log := (s.nodes l).log.take k }) []
  | commit {i k} : s.leader = some i → k ≤ (s.nodes i).log.length → s.chosen.length ≤ k →
      Stepped cfg s (.commit i k)
        { s.set i { s.nodes i with commit := k } with chosen := (s.nodes i).log.take k } []
  | learn {i k} : (s.nodes i).commit ≤ k → k ≤ s.chosen.length →
      (s.nodes i).log.take k = s.chosen.take k →
      Stepped cfg s (.learn i k) (s.set i { s.nodes i with commit := k }) []
  | apply {i n} : (s.nodes i).apply = some n → Stepped cfg s (.apply i) (s.set i n) []
  | watch {i n} : (s.nodes i).watch = some n → Stepped cfg s (.watch i) (s.set i n) []
  | server {i net a n es uuids} : Served cfg (s.nodes i) net a n es →
      Stepped cfg s (.server i net a) { s.set i n with uuids } (es.map ((i, ·)))

theorem serve_of_step {cfg : Config} {s t : State} {i : Nat} {net : Net} {a : Server.Action}
    {es : List Event} (h : step cfg s (.server i net a) = some (t, es)) :
    ∃ n es' uuids, (s.nodes i).serve cfg net a = some (n, es') ∧ t = { s.set i n with uuids } ∧
      es = es'.map ((i, ·)) := by
  simp only [step, Option.ite_none_right_eq_some, Option.map_eq_some_iff, Prod.mk.injEq,
    Prod.exists] at h
  obtain ⟨-, n, es', hserve, rfl, rfl⟩ := h
  exact ⟨n, es', _, hserve, rfl, rfl⟩

theorem stepped_of_step {cfg : Config} {s t : State} {a : Action} {es : List Event}
    (h : step cfg s a = some (t, es)) : Stepped cfg s a t es := by
  cases a with
  | elect i =>
    simp only [step, Option.ite_none_right_eq_some, Option.some.injEq, Prod.mk.injEq] at h
    obtain ⟨⟨-, hlog⟩, rfl, rfl⟩ := h
    exact .elect hlog
  | stepDown i =>
    simp only [step, Option.ite_none_right_eq_some, Option.some.injEq, Prod.mk.injEq] at h
    obtain ⟨-, rfl, rfl⟩ := h
    exact .stepDown
  | replicate i k =>
    simp only [step] at h
    split at h
    · simp at h
    · rename_i l hl
      simp only [Option.ite_none_right_eq_some, Option.some.injEq, Prod.mk.injEq] at h
      obtain ⟨⟨hne, -, -, hk⟩, rfl, rfl⟩ := h
      exact .replicate hl hne hk
  | commit i k =>
    simp only [step, Option.ite_none_right_eq_some, Option.some.injEq, Prod.mk.injEq] at h
    obtain ⟨⟨hl, -, hk, hc⟩, rfl, rfl⟩ := h
    exact .commit hl hk hc
  | learn i k =>
    simp only [step, Option.ite_none_right_eq_some, Option.some.injEq, Prod.mk.injEq] at h
    obtain ⟨⟨hle, hk, htake⟩, rfl, rfl⟩ := h
    exact .learn hle hk htake
  | apply i =>
    simp only [step, Option.map_eq_some_iff, Prod.mk.injEq] at h
    obtain ⟨n, hn, rfl, rfl⟩ := h
    exact .apply hn
  | watch i =>
    simp only [step, Option.map_eq_some_iff, Prod.mk.injEq] at h
    obtain ⟨n, hn, rfl, rfl⟩ := h
    exact .watch hn
  | server i net a =>
    obtain ⟨n, es, uuids, hserve, rfl, rfl⟩ := serve_of_step h
    exact .server (served_of_serve hserve)

/-- Raft's safety as the cluster keeps it: the leader has every committed entry. -/
structure Safe (s : State) : Prop where
  complete : ∀ l, s.leader = some l → s.chosen <+: (s.nodes l).log
  nodes : ∀ i, (s.nodes i).Safe s.chosen

namespace Safe

variable {cfg : Config} {s t : State} {a : Action} {es : List Event}

theorem init : Safe init where
  complete := by simp [Raft.init]
  nodes _ := .init

theorem set (h : Safe s) {i : Nat} {n : Node} (hn : n.Safe s.chosen)
    (hlog : s.leader = some i → s.chosen <+: n.log) : Safe (s.set i n) where
  complete := by
    intro l hl
    by_cases hi : l = i
    · subst hi
      simpa [State.set] using hlog hl
    · simpa [State.set, hi] using h.complete l hl
  nodes := by
    intro m
    by_cases hm : m = i
    · subst hm
      simpa [State.set] using hn
    · simpa [State.set, hm] using h.nodes m

theorem step (h : Safe s) (hst : Stepped cfg s a t es) : Safe t := by
  cases hst with
  | @elect i hlog =>
    have hn := h.nodes i
    have hsafe : Node.Safe s.chosen { s.nodes i with
        leading := true, term := (s.nodes i).term + 1, leaderCh := some true } :=
      hn.rewrite rfl rfl rfl rfl fun pc k c index term hd => (hn.waits pc k c index term hd).trans
        (Nat.le_succ _)
    refine ⟨fun l hl => ?_, (h.set hsafe fun _ => hlog).nodes⟩
    obtain rfl := Option.some.inj hl
    simpa [State.set] using hlog
  | @stepDown i =>
    have hn := h.nodes i
    exact h.set (hn.rewrite rfl rfl rfl rfl hn.waits) fun hl => h.complete i hl
  | @replicate i k l hl hne hk =>
    have hn := h.nodes i
    obtain ⟨rest, hrest⟩ := h.complete l hl
    refine h.set (hn.rewrite ?_ rfl rfl rfl hn.waits) fun hi => ?_
    · simp only [List.take_take, Nat.min_eq_left hk]
      rw [← hrest, List.take_append_of_le_length hn.known, hn.committed]
    · rw [hl] at hi
      exact absurd (Option.some.inj hi).symm hne
  | @commit i k hl hk hc =>
    have hgrow : s.chosen <+: (s.nodes i).log.take k :=
      List.prefix_take_iff.mpr ⟨h.complete i hl, hc⟩
    have hsafe : Node.Safe ((s.nodes i).log.take k) { s.nodes i with commit := k } := by
      refine ((h.nodes i).mono hgrow).commit ((h.nodes i).known.trans hc) ?_ ?_
      · simp [hk]
      · simp
    refine ⟨fun l hl' => ?_, fun m => ?_⟩
    · obtain rfl : i = l := Option.some.inj (hl.symm.trans hl')
      simp [State.set, List.take_prefix]
    · by_cases hm : m = i
      · subst hm
        simpa [State.set] using hsafe
      · simpa [State.set, hm] using (h.nodes m).mono hgrow
  | @learn i k hle hk htake =>
    exact h.set ((h.nodes i).commit hle hk htake) fun hl => h.complete i hl
  | @apply i n ha =>
    refine h.set ((h.nodes i).apply ha) fun hl => ?_
    have hlog : n.log = (s.nodes i).log := by
      unfold Node.apply at ha
      split at ha
      · split at ha
        · simp at ha
        · obtain rfl := Option.some.inj ha
          rfl
      · simp at ha
    exact hlog ▸ h.complete i hl
  | @watch i n hw =>
    have hn := h.nodes i
    unfold Node.watch at hw
    split at hw
    · split at hw
      · simp at hw
      all_goals
        obtain rfl := Option.some.inj hw
        exact h.set (hn.rewrite rfl rfl rfl rfl hn.waits) fun hl => h.complete i hl
    · simp at hw
  | @server i net a n es uuids hserve =>
    have hn := h.nodes i
    obtain ⟨⟨rest, hlog⟩, hcommit, hreplies, -, hterm, -, hstore⟩ := hserve.frame
    have hsafe : n.Safe s.chosen := by
      refine hn.rewrite ?_ hcommit hreplies hstore ?_
      · rw [← hlog, List.take_append_of_le_length hn.length]
      · intro pc k c index term hd
        rw [hterm]
        cases hserve with
        | other => exact hn.waits _ _ _ _ _ hd
        | drainer hst =>
          simp only at hd
          subst hd
          exact hst.term.le
        | main hst | detector hst | call hst =>
          obtain ⟨log, mem, rfl, -, -⟩ := hst.frame
          exact hn.waits _ _ _ _ _ hd
    have hset := h.set hsafe fun hl => (h.complete i hl).trans ⟨rest, hlog⟩
    exact ⟨hset.complete, hset.nodes⟩

end Safe

theorem safe_of_run {cfg : Config} {ok : State → Action → Prop} {as : List Action}
    {es : List Event} {s t : State} (h : (machine cfg).Run ok s as es t) (hs : Safe s) : Safe t :=
  h.invariant hs fun _ _ _ _ hs _ hst => hs.step (stepped_of_step hst)

end Minimodal.Raft
