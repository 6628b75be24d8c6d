import Minimodal.System.Machine

namespace Minimodal.System

open Sdk (Runtime Func Future Item RpcCode loadTask)
open Worker (Stop Strategy Env)

variable {Obj : Type} {rt : Runtime Obj} {cfg : Config} {s t u : State Obj} {a : Action Obj}
  {es fs : List (Event Obj)}

inductive Reads (rt : Runtime Obj) (s : State Obj) (call : Nat) : List Server.Event → Item → Prop
  | event {d ev rest print} : s.inbox call = .watched d ev :: rest →
      Reads rt s call rest (.event ev print)
  | tooLarge {d ev rest} : s.inbox call = .watched d ev :: rest →
      maxReceiveLength < rt.wireSize ev → Reads rt s call rest (.error .resourceExhausted)
  | refused {d st rest} : s.inbox call = .refused d st :: rest →
      Reads rt s call rest (.error (.status st))
  | timeout : s.link call = .expired → Reads rt s call (s.inbox call) (.error .deadlineExceeded)
  | fail : s.link call = .broken → Reads rt s call (s.inbox call) (.error .unavailable)
  | unsent : s.link call = .failed → s.inbox call = [] → Reads rt s call [] (.error .internal)
  | ended : s.server.calls call = .idle → s.inbox call = [] → Reads rt s call [] .ended

def plain : Server.Action → Bool
  | .invokeFunction _ _ _ _ | .reportTaskResult _ _ | .watchJob _ _ => false
  | _ => true

inductive Acts (rt : Runtime Obj) (s : State Obj) :
    State Obj → List (Event Obj) → Option Server.Action → Prop
  | plain {b} : plain b = true → b.starts = none →
      (∀ c ch, b = .call c ch → ch.stop = true → s.link c ≠ .up) → Acts rt s s [] (some b)
  | unsent {c ch} : Acts rt s (s.setLink c .failed) [] (some (.call c ch))
  | query {b} : System.plain b = true → b.starts = some s.next → Acts rt s s.dial [] (some b)
  | process {address p} : (∀ q, p = some q → ∀ request ∈ q.tasks,
        ∃ p₀, s.processes address = some p₀ ∧ request ∈ p₀.tasks) →
      Acts rt s (s.setProcess address p) [] none
  | wire {tasks reports} : tasks ⊆ s.tasks → reports ⊆ s.reports →
      Acts rt s { s with tasks, reports } [] none
  | relink {c link} : link ≠ .up → Acts rt s (s.setLink c link) [] none
  | deliver {address request p tasks} : (address, request) ∈ s.tasks →
      s.processes address = some p → tasks ⊆ s.tasks →
      Acts rt s ({ s with tasks }.setProcess address
        (some { p with tasks := p.tasks ++ [request], active := p.active + 1 })) [] none
  | run {address p request env st p' reports} : s.processes address = some p →
      request ∈ p.tasks → (∃ site, env.loads = loadTask rt site) →
      (∀ req ∈ reports, Worker.Honest env request p.strategy st req) →
      (∀ q, p' = some q → q.tasks ⊆ p.tasks) →
      Acts rt s ({ s with reports := s.reports ++ reports }.setProcess address p')
        [.executed p.strategy env st request] none
  | report {req reports} : req ∈ s.reports → reports ⊆ s.reports →
      Acts rt s { s with reports }.dial [] (some (.reportTaskResult s.next req))
  | unpicklable {k stop} : Acts rt s s [.unpicklable k stop] none
  | refused {k code} : Acts rt s s [.refused k code] none
  | spawn {k f args key req uuid now} : s.clients k = .idle → Func.request rt f args key = .ok req →
      Acts rt s (s.setClient k (.invoking req s.next)).dial [.called k s.next (.invoking req)]
        (some (.invokeFunction s.next req uuid now))
  | spawned {k req call d req' jobID created rest} : s.clients k = .invoking req call →
      s.inbox call = .invoked d req' jobID created :: rest →
      Acts rt s ((s.setInbox call rest).setClient k (.holds req (.new rt jobID)))
        [.spawned k req jobID] none
  | failed {k req call rest code} : s.clients k = .invoking req call → rest ⊆ s.inbox call →
      Acts rt s ((s.setInbox call rest).setClient k .idle) [.refused k code] none
  | cached {k req fut} : s.clients k = .holds req fut → fut.resolved = true →
      Acts rt s s [.returned k req fut.jobID fut.cachedResult] none
  | unavailable {k req fut} : s.clients k = .holds req fut →
      Acts rt s s [.raised k req fut.jobID (.rpcError .unavailable)] none
  | get {k req fut timeout printLogs} : s.clients k = .holds req fut → fut.resolved = false →
      Acts rt s (s.setClient k (.getting req fut s.next timeout printLogs)).dial
        [.called k s.next (.watching fut.jobID)] (some (.watchJob s.next fut.jobID))
  | reads {k req fut call timeout printLogs rest item fut'} :
      s.clients k = .getting req fut call timeout printLogs → Reads rt s call rest item →
      fut.receive rt timeout printLogs item = (fut', none) →
      Acts rt s ((s.setInbox call rest).setClient k (.getting req fut' call timeout printLogs)) []
        none
  | returned {k req fut call timeout printLogs rest item fut' value} :
      s.clients k = .getting req fut call timeout printLogs → Reads rt s call rest item →
      fut.receive rt timeout printLogs item = (fut', some (.ok value)) →
      Acts rt s (((s.setInbox call rest).setLink call .broken).setClient k (.holds req fut'))
        [.returned k req fut.jobID value] none
  | raised {k req fut call timeout printLogs rest item fut' e} :
      s.clients k = .getting req fut call timeout printLogs → Reads rt s call rest item →
      fut.receive rt timeout printLogs item = (fut', some (.error e)) →
      Acts rt s (((s.setInbox call rest).setLink call .broken).setClient k (.holds req fut'))
        [.raised k req fut.jobID e] none

theorem Acts.item {k call : Nat} {req : InvokeFunctionRequest} {fut : Future Obj} {timeout : String}
    {printLogs : Bool} {rest : List Server.Event} {item : Item}
    (hk : s.clients k = .getting req fut call timeout printLogs) (hr : Reads rt s call rest item) :
    Acts rt s ((s.setInbox call rest).item rt k req fut call timeout printLogs item).1
      ((s.setInbox call rest).item rt k req fut call timeout printLogs item).2 none := by
  rcases h : fut.receive rt timeout printLogs item with ⟨fut', _ | e | value⟩
  all_goals
    simp only [State.item, h]
  · exact .reads hk hr h
  · rw [Future.jobID_of_receive h]
    exact .raised hk hr h
  · rw [Future.jobID_of_receive h]
    exact .returned hk hr h

theorem Acts.runTask {address : String} {p : Process} {i : Nat} {request : ExecuteTaskRequest}
    (site : Nat) (env : Env) (st : Worker.State) (hp : s.processes address = some p)
    (hr : p.tasks[i]? = some request) :
    Acts rt s (s.runTask rt address p i site request env st).1
      (s.runTask rt address p i site request env st).2 none := by
  obtain ⟨reports, hrs, hhonest⟩ := Worker.runTask_appends (taskEnv rt p site env) request
    p.strategy { st with reports := [], active := p.active }
  simp only [State.runTask, hrs, List.nil_append]
  refine .run hp (List.mem_of_getElem? hr) ⟨site, rfl⟩ hhonest ?_
  intro q hq
  split at hq
  · cases hq
  · obtain rfl := Option.some.inj hq
    exact List.eraseIdx_subset

@[simp] theorem setInbox_self (c : Nat) : s.setInbox c (s.inbox c) = s := by
  simp [State.setInbox]

theorem State.own_plain {b : Server.Action} (h : s.own b = true) : plain b = true := by
  cases b <;> first | rfl | simp [State.own] at h

theorem State.own_starts {b : Server.Action} (h : s.own b = true) : b.starts = none := by
  cases b <;> first | rfl | simp [State.own] at h

theorem State.call_of_unsent {b : Server.Action} {c : Nat} (h : s.unsent b = some c) :
    ∃ ch, b = .call c ch := by
  cases b with
  | call d ch =>
    simp only [State.unsent, Option.ite_none_right_eq_some, Option.some.injEq] at h
    exact ⟨ch, by rw [h.2]⟩
  | _ => cases h

variable {o : Option Server.Action}

theorem acts_of_spawn {k : Nat} {f : Func Obj} {args : Obj} {key uuid : String} {now : Nat}
    (h : s.act rt (.spawn k f args key uuid now) = some (t, fs, o)) : Acts rt s t fs o := by
  simp only [State.act] at h
  split at h
  · rename_i hk
    split at h
    · simp only [Option.some.injEq, Prod.mk.injEq] at h
      obtain ⟨rfl, rfl, rfl⟩ := h
      exact .unpicklable
    · rename_i hreq
      split at h
      all_goals
        simp only [Option.some.injEq, Prod.mk.injEq] at h
        obtain ⟨rfl, rfl, rfl⟩ := h
      · exact .spawn hk hreq
      · exact .refused
  · cases h

theorem acts_of_response {k : Nat} (h : s.act rt (.response k) = some (t, fs, o)) :
    Acts rt s t fs o := by
  simp only [State.act] at h
  split at h
  · rename_i hk
    split at h
    · rename_i hin
      simp only [Option.some.injEq, Prod.mk.injEq] at h
      obtain ⟨rfl, rfl, rfl⟩ := h
      exact .spawned hk hin
    · rename_i hin
      simp only [Option.some.injEq, Prod.mk.injEq] at h
      obtain ⟨rfl, rfl, rfl⟩ := h
      exact .failed hk (by simp [hin])
    · simp only [Option.ite_none_right_eq_some, Option.some.injEq, Prod.mk.injEq] at h
      obtain ⟨-, rfl, rfl, rfl⟩ := h
      exact .failed hk (List.Subset.refl _)
  · cases h

theorem acts_of_get {k : Nat} {timeout : String} {printLogs : Bool}
    (h : s.act rt (.get k timeout printLogs) = some (t, fs, o)) : Acts rt s t fs o := by
  simp only [State.act] at h
  split at h
  · rename_i hk
    split at h
    · rename_i hres
      simp only [Option.some.injEq, Prod.mk.injEq] at h
      obtain ⟨rfl, rfl, rfl⟩ := h
      exact .cached hk hres
    · rename_i hres
      split at h
      all_goals
        simp only [Option.some.injEq, Prod.mk.injEq] at h
        obtain ⟨rfl, rfl, rfl⟩ := h
      · exact .get hk (by simpa using hres)
      · exact .unavailable hk
  · cases h

theorem acts_of_receive {k : Nat} {print : Option Stop}
    (h : s.act rt (.receive k print) = some (t, fs, o)) : Acts rt s t fs o := by
  simp only [State.act] at h
  split at h
  · rename_i hk
    split at h
    · rename_i hin
      simp only [Option.some.injEq, Prod.mk.injEq] at h
      obtain ⟨rfl, rfl, rfl⟩ := h
      split
      · exact .item hk (.event hin)
      · exact .item hk (.tooLarge hin (by omega))
    · rename_i hin
      simp only [Option.some.injEq, Prod.mk.injEq] at h
      obtain ⟨rfl, rfl, rfl⟩ := h
      exact .item hk (.refused hin)
    · cases h
  · cases h

theorem acts_of_fail {k : Nat} (h : s.act rt (.fail k) = some (t, fs, o)) :
    Acts rt s t fs o := by
  simp only [State.act] at h
  split at h
  · rename_i hk
    split at h
    · rename_i hlink
      simp only [Option.some.injEq, Prod.mk.injEq] at h
      obtain ⟨rfl, rfl, rfl⟩ := h
      simpa using Acts.item hk (.fail hlink)
    · rename_i hlink
      simp only [Option.ite_none_right_eq_some, Option.some.injEq, Prod.mk.injEq] at h
      obtain ⟨⟨-, hin⟩, rfl, rfl, rfl⟩ := h
      have hitem : Acts rt s _ _ none := .item hk (.unsent hlink hin)
      rwa [← hin, setInbox_self] at hitem
    · cases h
  · cases h

theorem acts_of_act (h : s.act rt a = some (t, fs, o)) :
    Acts rt s t fs o := by
  cases a with
  | server b =>
    simp only [State.act, Option.ite_none_right_eq_some] at h
    obtain ⟨hown, h⟩ := h
    split at h
    · rename_i hunsent
      obtain ⟨ch, rfl⟩ := State.call_of_unsent hunsent
      cases h
      exact .unsent
    · rename_i hsent
      cases h
      refine .plain (State.own_plain hown) (State.own_starts hown) ?_
      rintro c ch rfl hstop hup
      simp [State.unsent, hstop, hup] at hsent
  | getJobStatus | streamTaskLogs =>
    simp only [State.act, Option.some.injEq, Prod.mk.injEq] at h
    obtain ⟨rfl, rfl, rfl⟩ := h
    exact .query rfl rfl
  | launch address workerID strategy =>
    simp only [State.act] at h
    split at h
    · cases h
    · simp only [Option.some.injEq, Prod.mk.injEq] at h
      obtain ⟨rfl, rfl, rfl⟩ := h
      refine .process ?_
      rintro q ⟨⟩
      simp
  | kill address =>
    simp only [State.act, Option.some.injEq, Prod.mk.injEq] at h
    obtain ⟨rfl, rfl, rfl⟩ := h
    exact .process (by simp)
  | register | heartbeat =>
    simp only [State.act, Option.map_eq_some_iff, Prod.mk.injEq] at h
    obtain ⟨p, -, rfl, rfl, rfl⟩ := h
    exact .plain rfl rfl (by simp)
  | executeTask i =>
    simp only [State.act, bind, Option.bind_eq_some_iff, pure, Option.some.injEq, Prod.mk.injEq] at h
    obtain ⟨⟨address, request⟩, htask, p, hp, rfl, rfl, rfl⟩ := h
    exact .deliver (List.mem_of_getElem? htask) hp (List.eraseIdx_subset)
  | dropTask i =>
    simp only [State.act, Option.some.injEq, Prod.mk.injEq] at h
    obtain ⟨rfl, rfl, rfl⟩ := h
    exact .wire List.eraseIdx_subset (List.Subset.refl _)
  | runTask address i site env st =>
    simp only [State.act, bind, Option.bind_eq_some_iff, pure, Option.some.injEq, Prod.mk.injEq] at h
    obtain ⟨p, hp, request, hr, rfl, rfl, rfl⟩ := h
    exact .runTask site env st hp hr
  | cancelTask address i =>
    simp only [State.act, Option.map_eq_some_iff, Prod.mk.injEq] at h
    obtain ⟨p, hp, rfl, rfl, rfl⟩ := h
    refine .process ?_
    rintro q ⟨⟩ request hr
    exact ⟨p, hp, List.eraseIdx_subset hr⟩
  | reportTaskResult i =>
    simp only [State.act, Option.map_eq_some_iff, Prod.mk.injEq] at h
    obtain ⟨req, hreq, rfl, rfl, rfl⟩ := h
    exact .report (List.mem_of_getElem? hreq) List.eraseIdx_subset
  | dropReport i =>
    simp only [State.act, Option.some.injEq, Prod.mk.injEq] at h
    obtain ⟨rfl, rfl, rfl⟩ := h
    exact .wire (List.Subset.refl _) List.eraseIdx_subset
  | spawn => exact acts_of_spawn h
  | response => exact acts_of_response h
  | get => exact acts_of_get h
  | receive => exact acts_of_receive h
  | expire k =>
    simp only [State.act] at h
    split at h
    · simp only [Option.ite_none_right_eq_some, Option.some.injEq, Prod.mk.injEq] at h
      obtain ⟨-, rfl, rfl, rfl⟩ := h
      exact .relink (by simp)
    · cases h
  | timeout k =>
    simp only [State.act] at h
    split at h
    · rename_i hk
      simp only [Option.ite_none_right_eq_some, Option.some.injEq, Prod.mk.injEq] at h
      obtain ⟨hlink, rfl, rfl, rfl⟩ := h
      simpa using Acts.item hk (.timeout hlink)
    · cases h
  | eof k =>
    simp only [State.act] at h
    split at h
    · rename_i hk
      simp only [Option.ite_none_right_eq_some, Option.some.injEq, Prod.mk.injEq] at h
      obtain ⟨⟨-, hidle, hin⟩, rfl, rfl, rfl⟩ := h
      have hitem : Acts rt s _ _ none := .item hk (.ended hidle hin)
      rwa [← hin, setInbox_self] at hitem
    · cases h
  | fail => exact acts_of_fail h
  | cut c =>
    simp only [State.act, Option.some.injEq, Prod.mk.injEq] at h
    obtain ⟨rfl, rfl, rfl⟩ := h
    exact .relink (by simp)

theorem serve_some {b : Server.Action} (h : s.serve cfg b = some (t, fs)) :
    ∃ server gs, Server.step cfg s.server b = some (server, gs) ∧ fs = gs.map .server ∧
      t = { s with
        server
        tasks := s.tasks ++ gs.filterMap sentTask
        link := fun c => if hangsUp b && c < s.next then .broken else s.link c
        inbox := fun c => s.inbox c ++ gs.filter fun ev => ev.call = some c } := by
  simp only [State.serve, Option.map_eq_some_iff, Prod.mk.injEq, Prod.exists] at h
  obtain ⟨server, gs, hst, rfl, rfl⟩ := h
  exact ⟨server, gs, hst, rfl, rfl⟩

theorem acts_of_step (h : step rt cfg s a = some (u, es)) :
    Acts rt s u es none ∨
      ∃ t fs b gs, Acts rt s t fs (some b) ∧ t.serve cfg b = some (u, gs) ∧ es = fs ++ gs := by
  simp only [step] at h
  split at h
  · cases h
  · rename_i ha
    obtain ⟨rfl, rfl⟩ := Prod.mk.inj (Option.some.inj h)
    exact .inl (acts_of_act ha)
  · rename_i ha
    simp only [Option.map_eq_some_iff, Prod.mk.injEq, Prod.exists] at h
    obtain ⟨u, gs, hu, rfl, rfl⟩ := h
    exact .inr ⟨_, _, _, gs, acts_of_act ha, hu, rfl⟩

/-- To show an invariant of the system, show it for the parties and for the orchestrator. -/
theorem invariant_of_run {P : List (Event Obj) → State Obj → Prop} {as : List (Action Obj)}
    (h : (machine rt cfg).Run Lib.Machine.Always {} as es s) (hinit : P [] {})
    (hact : ∀ es s t fs, P es s → Acts rt s t fs none → P (es ++ fs) t)
    (hserve : ∀ es s t fs b u gs, P es s → Acts rt s t fs (some b) → t.serve cfg b = some (u, gs) →
      P (es ++ (fs ++ gs)) u) : P es s := by
  refine h.invariant_trace hinit fun es s a t fs hs _ hst => ?_
  rcases acts_of_step hst with ha | ⟨t, fs, b, gs, ha, hu, rfl⟩
  · exact hact es s _ _ hs ha
  · exact hserve es s _ _ _ _ _ hs ha hu

end Minimodal.System
