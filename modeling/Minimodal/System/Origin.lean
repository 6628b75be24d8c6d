import Minimodal.System.Step

namespace Minimodal.System

open Sdk (Runtime Func Future Item RpcCode loadTask deserializeResult)
open Worker (Stop Strategy Env)

variable {Obj : Type} {rt : Runtime Obj} {cfg : Config} {s t u : State Obj}
  {es fs gs : List (Event Obj)} {b : Server.Action} {o : Option Server.Action}

def serverEvents (es : List (Event Obj)) : List Server.Event :=
  es.filterMap fun
    | .server ev => some ev
    | _ => none

@[simp] theorem serverEvents_append : serverEvents (es ++ fs) = serverEvents es ++ serverEvents fs :=
  List.filterMap_append

@[simp] theorem serverEvents_map (evs : List Server.Event) :
    serverEvents (evs.map (Event.server : Server.Event → Event Obj)) = evs := by
  simp [serverEvents, List.filterMap_map]

@[simp] theorem mem_serverEvents {ev : Server.Event} : ev ∈ serverEvents es ↔ .server ev ∈ es := by
  simp only [serverEvents, List.mem_filterMap]
  constructor
  · rintro ⟨x, hx, hev⟩
    cases x with
    | server ev' =>
      obtain rfl := Option.some.inj hev
      exact hx
    | _ => cases hev
  · exact fun h => ⟨_, h, rfl⟩

section Histories

variable (rt) (es)

def Sent (request : ExecuteTaskRequest) : Prop :=
  ∃ w address, .server (.executeTask w address request) ∈ es

/-- A worker has run a task, and this report of it is honest. -/
def Executed (req : ReportTaskResultRequest) : Prop :=
  ∃ strategy env st request, .executed strategy env st request ∈ es ∧
    Worker.Honest env request strategy st req

def Dialled (c : Nat) (p : Server.Served) : Prop := ∃ k, .called k c p ∈ es

def Granted (req : InvokeFunctionRequest) (j : String) : Prop :=
  ∃ c created, .server (.invoked c req j created) ∈ es

def Announced (j : String) (result : JobResult) : Prop :=
  ∃ c, .server (.watched c (.result j result)) ∈ es

def Delivered (j : String) (value : Obj) : Prop :=
  ∃ result, Announced es j result ∧ result.status = .done ∧
    deserializeResult rt result.resultBytes = .ok value

/-- What a `FutureError` of `get` says is so. -/
def Blamed (j : String) : Sdk.Error → Prop
  | .futureError message => message = "job " ++ j ++ ": watch stream ended without a result" ∨
    ∃ result, Announced es j result ∧ result.status ≠ .done ∧
      message = "job " ++ j ++ " failed: " ++ result.error
  | _ => True

def Client.Linked (k : Nat) : Client Obj → Prop
  | .idle => True
  | .invoking req c => .called k c (.invoking req) ∈ es
  | .holds req fut =>
    Granted es req fut.jobID ∧ (fut.resolved = true → Delivered rt es fut.jobID fut.cachedResult)
  | .getting req fut c _ _ =>
    Granted es req fut.jobID ∧ .called k c (.watching fut.jobID) ∈ es ∧ fut.resolved = false

def Event.Founded : Event Obj → Prop
  | .executed _ env _ request => (∃ site, env.loads = loadTask rt site) ∧ Sent es request
  | .spawned _ req j => Granted es req j
  | .returned _ req j value => Granted es req j ∧ Delivered rt es j value
  | .raised _ req j e => Granted es req j ∧ Blamed es j e
  | _ => True

end Histories

section Mono

variable {es' : List (Event Obj)} (h : es ⊆ es')

include h

theorem Sent.mono {request : ExecuteTaskRequest} (hs : Sent es request) : Sent es' request := by
  obtain ⟨w, address, hev⟩ := hs
  exact ⟨w, address, h hev⟩

theorem Executed.mono {req : ReportTaskResultRequest} (he : Executed es req) : Executed es' req := by
  obtain ⟨strategy, env, st, request, hev, hh⟩ := he
  exact ⟨strategy, env, st, request, h hev, hh⟩

theorem Dialled.mono {c : Nat} {p : Server.Served} (hd : Dialled es c p) : Dialled es' c p := by
  obtain ⟨k, hev⟩ := hd
  exact ⟨k, h hev⟩

theorem Granted.mono {req : InvokeFunctionRequest} {j : String} (hg : Granted es req j) :
    Granted es' req j := by
  obtain ⟨c, created, hev⟩ := hg
  exact ⟨c, created, h hev⟩

theorem Announced.mono {j : String} {result : JobResult} (ha : Announced es j result) :
    Announced es' j result := by
  obtain ⟨c, hev⟩ := ha
  exact ⟨c, h hev⟩

theorem Delivered.mono {j : String} {value : Obj} (hd : Delivered rt es j value) :
    Delivered rt es' j value := by
  obtain ⟨result, ha, hr⟩ := hd
  exact ⟨result, ha.mono h, hr⟩

theorem Blamed.mono {j : String} {e : Sdk.Error} (hb : Blamed es j e) : Blamed es' j e := by
  cases e with
  | futureError message =>
    refine Or.imp_right ?_ hb
    rintro ⟨result, ha, hr⟩
    exact ⟨result, ha.mono h, hr⟩
  | _ => trivial

theorem Client.Linked.mono {k : Nat} {client : Client Obj} (hc : client.Linked rt es k) :
    client.Linked rt es' k := by
  cases client with
  | idle => trivial
  | invoking req c => exact h hc
  | holds req fut => exact ⟨hc.1.mono h, fun hr => (hc.2 hr).mono h⟩
  | getting req fut c timeout printLogs => exact ⟨hc.1.mono h, h hc.2.1, hc.2.2⟩

theorem Event.Founded.mono {ev : Event Obj} (he : ev.Founded rt es) : ev.Founded rt es' := by
  cases ev with
  | executed strategy env st request => exact ⟨he.1, he.2.mono h⟩
  | spawned k req j => exact Granted.mono h he
  | returned k req j value => exact ⟨he.1.mono h, he.2.mono h⟩
  | raised k req j e => exact ⟨he.1.mono h, he.2.mono h⟩
  | _ => trivial

end Mono

/-- The orchestrator is in a state of its own machine, and every request in its history comes from
a party of the system. -/
def Serves (cfg : Config) (es : List (Event Obj)) (server : Server.State) : Prop :=
  ∃ bs, (Server.machine cfg).Run (fun _ b => b.Brings (Executed es) ∧
    ∀ c p, b.dials = some (c, p) → Dialled es c p) Server.init bs (serverEvents es) server

structure Grounded (es : List (Event Obj)) (s : State Obj) : Prop where
  reports : ∀ req ∈ s.reports, Executed es req
  tasks : ∀ p ∈ s.tasks, Sent es p.2
  accepted : ∀ address p, s.processes address = some p → ∀ request ∈ p.tasks, Sent es request

structure Linked (rt : Runtime Obj) (es : List (Event Obj)) (s : State Obj) : Prop where
  inbox : ∀ c, ∀ ev ∈ s.inbox c, .server ev ∈ es ∧ ev.call = some c
  fresh : ∀ k c p, .called k c p ∈ es → c < s.next
  unique : ∀ k c p k' p', .called k c p ∈ es → .called k' c p' ∈ es → k = k' ∧ p = p'
  clients : ∀ k, (s.clients k).Linked rt es k

theorem Acts.server (h : Acts rt s t fs o) : t.server = s.server ∧ serverEvents fs = [] := by
  cases h <;> exact ⟨rfl, rfl⟩

theorem Serves.mono {server : Server.State} (h : Serves cfg es server)
    (hfs : serverEvents fs = []) : Serves cfg (es ++ fs) server := by
  obtain ⟨bs, hrun⟩ := h
  have hsub : es ⊆ es ++ fs := List.subset_append_left es fs
  refine ⟨bs, ?_⟩
  rw [serverEvents_append, hfs, List.append_nil]
  exact hrun.mono fun _ b hb =>
    ⟨fun c req hreq => (hb.1 c req hreq).mono hsub, fun c p hp => (hb.2 c p hp).mono hsub⟩

theorem Serves.serve (h : Serves cfg es s.server) (hserve : s.serve cfg b = some (u, gs))
    (hreports : b.Brings (Executed es)) (hdials : ∀ c p, b.dials = some (c, p) → Dialled es c p) :
    Serves cfg (es ++ gs) u.server := by
  obtain ⟨bs, hrun⟩ := h
  obtain ⟨server, evs, hst, rfl, rfl⟩ := serve_some hserve
  have hsub : es ⊆ es ++ evs.map .server := List.subset_append_left _ _
  refine ⟨bs ++ [b], ?_⟩
  rw [serverEvents_append, serverEvents_map]
  exact (hrun.tail ⟨hreports, hdials⟩ hst).mono fun _ b hb =>
    ⟨fun c req hreq => (hb.1 c req hreq).mono hsub, fun c p hp => (hb.2 c p hp).mono hsub⟩

theorem Acts.brings (h : Acts rt s t fs (some b)) (hg : Grounded es s) :
    b.Brings (Executed (es ++ fs)) ∧ ∀ c p, b.dials = some (c, p) → Dialled (es ++ fs) c p := by
  cases h with
  | plain hb | query hb =>
    refine ⟨fun c req hreq => ?_, fun c p hp => ?_⟩
    · subst hreq
      cases hb
    · cases b <;> simp [Server.Action.dials, System.plain] at hp hb
  | unsent => exact ⟨by simp [Server.Action.Brings], by simp [Server.Action.dials]⟩
  | report hreq =>
    refine ⟨?_, by simp [Server.Action.dials]⟩
    rintro c req ⟨⟩
    exact (hg.reports _ hreq).mono (List.subset_append_left _ _)
  | spawn | get =>
    refine ⟨by simp [Server.Action.Brings], ?_⟩
    rintro c p ⟨⟩
    exact ⟨_, List.mem_append_right _ (List.mem_singleton_self _)⟩

theorem Grounded.mono (h : Grounded es s) (hsub : es ⊆ fs) : Grounded fs s where
  reports req hreq := (h.reports req hreq).mono hsub
  tasks p hp := (h.tasks p hp).mono hsub
  accepted address p hp request hr := (h.accepted address p hp request hr).mono hsub

theorem Grounded.setProcess (h : Grounded es s) (address : String) {p : Option Process}
    (hp : ∀ q, p = some q → ∀ request ∈ q.tasks, Sent es request) :
    Grounded es (s.setProcess address p) := by
  refine ⟨h.reports, h.tasks, fun address' q hq request hr => ?_⟩
  simp only [State.setProcess, Function.update_apply] at hq
  split at hq
  · exact hp q hq request hr
  · exact h.accepted address' q hq request hr

theorem Grounded.act (h : Grounded es s) (ha : Acts rt s t fs o) : Grounded (es ++ fs) t := by
  have hsub : es ⊆ es ++ fs := List.subset_append_left es fs
  have h' := h.mono hsub
  cases ha with
  | process hp =>
    refine h'.setProcess _ fun q hq request hr => ?_
    obtain ⟨p₀, hp₀, hmem⟩ := hp q hq request hr
    exact h'.accepted _ p₀ hp₀ request hmem
  | wire htasks hreports =>
    exact ⟨fun req hreq => h'.reports req (hreports hreq), fun p hp => h'.tasks p (htasks hp),
      h'.accepted⟩
  | @deliver address request p tasks htask hp htasks =>
    have hwire : Grounded (es ++ []) { s with tasks } :=
      ⟨h'.reports, fun p hp => h'.tasks p (htasks hp), h'.accepted⟩
    refine hwire.setProcess _ ?_
    rintro q ⟨⟩ request hr
    rcases List.mem_append.mp hr with hr | hr
    · exact h'.accepted _ _ hp request hr
    · obtain rfl := List.mem_singleton.mp hr
      exact h'.tasks _ htask
  | @run address p request env st p' reports hp hr hload hhonest hp' =>
    have hwire : Grounded (es ++ [.executed p.strategy env st request])
        { s with reports := s.reports ++ reports } := by
      refine ⟨fun req hreq => ?_, h'.tasks, h'.accepted⟩
      rcases List.mem_append.mp hreq with hreq | hreq
      · exact h'.reports req hreq
      · exact ⟨_, _, _, _, List.mem_append_right _ (List.mem_singleton_self _), hhonest req hreq⟩
    exact hwire.setProcess _ fun q hq request hmem => h'.accepted _ p hp request (hp' q hq hmem)
  | report _ hreports =>
    exact ⟨fun req hreq => h'.reports req (hreports hreq), h'.tasks, h'.accepted⟩
  | _ => exact ⟨h'.reports, h'.tasks, h'.accepted⟩

theorem Grounded.serve (h : Grounded es s) (hserve : s.serve cfg b = some (u, gs)) :
    Grounded (es ++ gs) u := by
  have h' := h.mono (List.subset_append_left es gs)
  obtain ⟨server, evs, hst, rfl, rfl⟩ := serve_some hserve
  refine ⟨h'.reports, fun p hp => ?_, h'.accepted⟩
  rcases List.mem_append.mp hp with hp | hp
  · exact h'.tasks p hp
  · obtain ⟨ev, hev, hsent⟩ := List.mem_filterMap.mp hp
    cases ev with
    | executeTask w address req =>
      obtain rfl := Option.some.inj hsent
      exact ⟨w, address, List.mem_append_right _ (List.mem_map_of_mem hev)⟩
    | _ => cases hsent

theorem Serves.answering {server : Server.State} (h : Serves cfg es server) :
    Server.Answering (Dialled es) (serverEvents es) server := by
  obtain ⟨bs, hrun⟩ := h
  exact Server.answering_of_run (hrun.mono fun _ _ hb => hb.2)

namespace Linked

variable {k : Nat} {client : Client Obj} {p : Server.Served}

theorem mono (h : Linked rt es s) (hfs : ∀ k c p, .called k c p ∉ fs) : Linked rt (es ++ fs) s := by
  have hsub : es ⊆ es ++ fs := List.subset_append_left es fs
  have hold : ∀ k c p, .called k c p ∈ es ++ fs → .called k c p ∈ es := fun k c p hev =>
    (List.mem_append.mp hev).resolve_right (hfs k c p)
  refine ⟨fun c ev hev => ?_, fun k c p hev => h.fresh k c p (hold k c p hev), ?_,
    fun k => (h.clients k).mono hsub⟩
  · obtain ⟨hmem, hc⟩ := h.inbox c ev hev
    exact ⟨hsub hmem, hc⟩
  · exact fun k c p k' p' hev hev' => h.unique k c p k' p' (hold _ _ _ hev) (hold _ _ _ hev')

theorem same (h : Linked rt es s) (hinbox : t.inbox = s.inbox) (hnext : t.next = s.next)
    (hclients : t.clients = s.clients) : Linked rt es t :=
  ⟨hinbox ▸ h.inbox, hnext ▸ h.fresh, h.unique, hclients ▸ h.clients⟩

theorem setClient (h : Linked rt es s) (hk : client.Linked rt es k) :
    Linked rt es (s.setClient k client) := by
  refine ⟨h.inbox, h.fresh, h.unique, fun k' => ?_⟩
  simp only [State.setClient, Function.update_apply]
  split
  · rename_i hk'
    exact hk' ▸ hk
  · exact h.clients k'

theorem setInbox (h : Linked rt es s) {c : Nat} {rest : List Server.Event}
    (hrest : rest ⊆ s.inbox c) : Linked rt es (s.setInbox c rest) := by
  refine ⟨fun d ev hev => ?_, h.fresh, h.unique, h.clients⟩
  simp only [State.setInbox, Function.update_apply] at hev
  split at hev
  · rename_i hd
    exact hd ▸ h.inbox c ev (hrest hev)
  · exact h.inbox d ev hev

theorem setLink (h : Linked rt es s) (c : Nat) (link : Link) : Linked rt es (s.setLink c link) :=
  h.same rfl rfl rfl

theorem dial (h : Linked rt es s) : Linked rt es s.dial := by
  refine ⟨fun d ev hev => ?_, fun k c p hev => Nat.lt_succ_of_lt (h.fresh k c p hev), h.unique,
    h.clients⟩
  simp only [State.dial, Function.update_apply] at hev
  split at hev
  · cases hev
  · exact h.inbox d ev hev

theorem call (h : Linked rt es s)
    (hk : client.Linked rt (es ++ [.called k s.next p]) k) :
    Linked rt (es ++ [.called k s.next p]) (s.setClient k client).dial := by
  have hsub : es ⊆ es ++ [.called k s.next p] := List.subset_append_left _ _
  have hnew : ∀ k' c p', .called k' c p' ∈ es ++ [.called k s.next p] →
      .called k' c p' ∈ es ∧ c < s.next ∨ k' = k ∧ c = s.next ∧ p' = p := by
    intro k' c p' hev
    rcases List.mem_append.mp hev with hev | hev
    · exact .inl ⟨hev, h.fresh k' c p' hev⟩
    · simp only [List.mem_singleton, Event.called.injEq] at hev
      exact .inr hev
  refine ⟨fun c ev hev => ?_, fun k' c p' hev => ?_, fun k' c p' k'' p'' hev hev' => ?_, fun k' => ?_⟩
  · obtain ⟨hmem, hc⟩ := h.dial.inbox c ev hev
    exact ⟨hsub hmem, hc⟩
  · rcases hnew k' c p' hev with ⟨-, hlt⟩ | ⟨-, rfl, -⟩
    · exact Nat.lt_succ_of_lt hlt
    · exact Nat.lt_succ_self _
  · rcases hnew k' c p' hev with ⟨hold, hlt⟩ | ⟨rfl, hc, rfl⟩ <;>
      rcases hnew k'' c p'' hev' with ⟨hold', hlt'⟩ | ⟨rfl, hc', rfl⟩
    · exact h.unique k' c p' k'' p'' hold hold'
    · omega
    · omega
    · exact ⟨rfl, rfl⟩
  · simp only [State.dial, State.setClient, Function.update_apply]
    split
    · rename_i hk'
      exact hk' ▸ hk
    · exact (h.clients k').mono hsub

theorem held (h : Linked rt es s) {req : InvokeFunctionRequest} {fut : Future Obj}
    (hk : s.clients k = .holds req fut) : Granted es req fut.jobID ∧
      (fut.resolved = true → Delivered rt es fut.jobID fut.cachedResult) := by
  have hclient := h.clients k
  rwa [hk] at hclient

theorem granted (h : Linked rt es s) (hs : Serves cfg es s.server) {call d : Nat}
    {req req' : InvokeFunctionRequest} {j : String} {created : Bool} {rest : List Server.Event}
    (hk : s.clients k = .invoking req call)
    (hin : s.inbox call = .invoked d req' j created :: rest) : Granted es req j := by
  obtain ⟨hev, hd⟩ := h.inbox call (.invoked d req' j created) (by simp [hin])
  obtain rfl := Option.some.inj hd
  obtain ⟨k', hcalled'⟩ := hs.answering.invoked d req' j created (mem_serverEvents.mpr hev)
  have hcalled := h.clients k
  rw [hk] at hcalled
  obtain ⟨rfl, ⟨⟩⟩ := h.unique _ _ _ _ _ hcalled hcalled'
  exact ⟨d, created, hev⟩

theorem announced (h : Linked rt es s) (hs : Serves cfg es s.server) {call : Nat}
    {req : InvokeFunctionRequest} {fut : Future Obj} {timeout : String} {printLogs : Bool}
    {rest : List Server.Event} {j : String} {result : JobResult} {print : Option Stop}
    (hk : s.clients k = .getting req fut call timeout printLogs)
    (hr : Reads rt s call rest (.event (.result j result) print)) : Announced es fut.jobID result := by
  cases hr with
  | @event d _ _ _ hin =>
    obtain ⟨hev, hd⟩ := h.inbox call (.watched d (.result j result)) (by simp [hin])
    obtain rfl := Option.some.inj hd
    obtain ⟨k', hcalled'⟩ := hs.answering.watched d _ (mem_serverEvents.mpr hev)
    have hcalled := h.clients k
    rw [hk] at hcalled
    obtain ⟨rfl, ⟨⟩⟩ := h.unique _ _ _ _ _ hcalled.2.1 hcalled'
    exact ⟨d, hev⟩

end Linked

theorem Reads.rest {call : Nat} {rest : List Server.Event} {item : Item}
    (h : Reads rt s call rest item) : rest ⊆ s.inbox call := by
  cases h with
  | event hin | tooLarge hin | refused hin => simp [hin]
  | timeout | fail => exact List.Subset.refl _
  | unsent | ended => simp

section Getting

variable {k call : Nat} {req : InvokeFunctionRequest} {fut fut' : Future Obj} {timeout : String}
  {printLogs : Bool} {rest : List Server.Event} {item : Item}

theorem Linked.delivered (h : Linked rt es s) (hs : Serves cfg es s.server)
    (hk : s.clients k = .getting req fut call timeout printLogs) (hr : Reads rt s call rest item)
    {value : Obj} (hrec : fut.receive rt timeout printLogs item = (fut', some (.ok value))) :
    Delivered rt es fut.jobID value := by
  obtain ⟨j, result, print, rfl, hdone, hvalue⟩ := Future.receive_ok (congrArg Prod.snd hrec)
  exact ⟨result, h.announced hs hk hr, hdone, hvalue⟩

theorem Linked.blamed (h : Linked rt es s) (hs : Serves cfg es s.server)
    (hk : s.clients k = .getting req fut call timeout printLogs) (hr : Reads rt s call rest item)
    {e : Sdk.Error} (hrec : fut.receive rt timeout printLogs item = (fut', some (.error e))) :
    Blamed es fut.jobID e := by
  cases e with
  | futureError message =>
    rcases Future.receive_futureError (congrArg Prod.snd hrec) with
      ⟨-, hm⟩ | ⟨j, result, print, rfl, hfailed, hm⟩
    · exact .inl hm
    · exact .inr ⟨result, h.announced hs hk hr, hfailed, hm⟩
  | _ => trivial

theorem Linked.received (h : Linked rt es s) (hs : Serves cfg es s.server)
    (hk : s.clients k = .getting req fut call timeout printLogs) (hr : Reads rt s call rest item)
    {r : Option (Except Sdk.Error Obj)} (hrec : fut.receive rt timeout printLogs item = (fut', r)) :
    fut'.jobID = fut.jobID ∧ Granted es req fut.jobID ∧
      .called k call (.watching fut.jobID) ∈ es ∧
      (fut'.resolved = true → r = some (.ok fut'.cachedResult) ∧
        Delivered rt es fut.jobID fut'.cachedResult) := by
  have hclient := h.clients k
  rw [hk] at hclient
  obtain ⟨hgranted, hcalled, hunres⟩ := hclient
  refine ⟨Future.jobID_of_receive hrec, hgranted, hcalled, fun hres => ?_⟩
  rcases Future.receive_resolved hrec hres with hold | rfl
  · simp [hunres] at hold
  · exact ⟨rfl, h.delivered hs hk hr hrec⟩

end Getting

theorem Linked.act (h : Linked rt es s) (hs : Serves cfg es s.server) (ha : Acts rt s t fs o) :
    Linked rt (es ++ fs) t := by
  cases ha with
  | query => exact (h.mono (by simp)).dial
  | report =>
    exact Linked.dial ((h.mono (by simp)).same rfl rfl rfl)
  | spawn => exact h.call (List.mem_append_right _ (List.mem_singleton_self _))
  | spawned hk hin =>
    refine ((h.mono (by simp)).setInbox (by simp [hin])).setClient ⟨?_, by simp [Future.new]⟩
    exact (h.granted hs hk hin).mono (List.subset_append_left _ _)
  | failed hk hrest => exact ((h.mono (by simp)).setInbox hrest).setClient trivial
  | get hk hres =>
    exact h.call ⟨(h.held hk).1.mono (List.subset_append_left _ _),
      List.mem_append_right _ (List.mem_singleton_self _), hres⟩
  | reads hk hr hrec =>
    obtain ⟨hid, hgranted, hcalled, hdone⟩ := h.received hs hk hr hrec
    refine Linked.mono ((h.setInbox hr.rest).setClient ?_) (by simp)
    refine ⟨hid ▸ hgranted, hid ▸ hcalled, ?_⟩
    by_contra hres
    simpa using (hdone (by simpa using hres)).1
  | returned hk hr hrec | raised hk hr hrec =>
    obtain ⟨hid, hgranted, -, hdone⟩ := h.received hs hk hr hrec
    refine Linked.mono (((h.setInbox hr.rest).setLink _ _).setClient ?_) (by simp)
    exact ⟨hid ▸ hgranted, fun hres => hid ▸ (hdone hres).2⟩
  | _ => exact (h.mono (by simp)).same rfl rfl rfl

theorem Linked.serve (h : Linked rt es s) (hserve : s.serve cfg b = some (u, gs)) :
    Linked rt (es ++ gs) u := by
  obtain ⟨server, evs, hst, rfl, rfl⟩ := serve_some hserve
  have h' : Linked rt (es ++ evs.map .server) s := h.mono (by simp)
  refine ⟨fun c ev hev => ?_, h'.fresh, h'.unique, h'.clients⟩
  rcases List.mem_append.mp hev with hev | hev
  · exact h'.inbox c ev hev
  · obtain ⟨hmem, hc⟩ := List.mem_filter.mp hev
    exact ⟨List.mem_append_right _ (List.mem_map_of_mem hmem), of_decide_eq_true hc⟩

theorem Acts.founded (ha : Acts rt s t fs o) (hs : Serves cfg es s.server) (hg : Grounded es s)
    (hl : Linked rt es s) : ∀ ev ∈ fs, ev.Founded rt (es ++ fs) := by
  have hsub : es ⊆ es ++ fs := List.subset_append_left es fs
  suffices hold : ∀ ev ∈ fs, ev.Founded rt es from fun ev hev => (hold ev hev).mono hsub
  cases ha with
  | run hp hr hload =>
    simp only [List.mem_singleton, forall_eq]
    exact ⟨hload, hg.accepted _ _ hp _ hr⟩
  | spawned hk hin =>
    simp only [List.mem_singleton, forall_eq]
    exact hl.granted hs hk hin
  | cached hk hres =>
    simp only [List.mem_singleton, forall_eq]
    exact ⟨(hl.held hk).1, (hl.held hk).2 hres⟩
  | unavailable hk =>
    simp only [List.mem_singleton, forall_eq]
    exact ⟨(hl.held hk).1, trivial⟩
  | returned hk hr hrec =>
    simp only [List.mem_singleton, forall_eq]
    exact ⟨(hl.received hs hk hr hrec).2.1, hl.delivered hs hk hr hrec⟩
  | raised hk hr hrec =>
    simp only [List.mem_singleton, forall_eq]
    exact ⟨(hl.received hs hk hr hrec).2.1, hl.blamed hs hk hr hrec⟩
  | unpicklable | refused | spawn | failed | get =>
    simp only [List.mem_singleton, forall_eq]
    trivial
  | _ => simp

structure Founded (rt : Runtime Obj) (cfg : Config) (es : List (Event Obj)) (s : State Obj) :
    Prop where
  serves : Serves cfg es s.server
  grounded : Grounded es s
  linked : Linked rt es s
  events : ∀ ev ∈ es, ev.Founded rt es

theorem Founded.act (h : Founded rt cfg es s) (ha : Acts rt s t fs o) :
    Founded rt cfg (es ++ fs) t where
  serves := by
    obtain ⟨hserver, hfs⟩ := ha.server
    rw [hserver]
    exact h.serves.mono hfs
  grounded := h.grounded.act ha
  linked := h.linked.act h.serves ha
  events ev hev := by
    rcases List.mem_append.mp hev with hev | hev
    · exact (h.events ev hev).mono (List.subset_append_left _ _)
    · exact ha.founded h.serves h.grounded h.linked ev hev

theorem Founded.serve (h : Founded rt cfg es s) (hserve : s.serve cfg b = some (u, gs))
    (hreports : b.Brings (Executed es)) (hdials : ∀ c p, b.dials = some (c, p) → Dialled es c p) :
    Founded rt cfg (es ++ gs) u where
  serves := h.serves.serve hserve hreports hdials
  grounded := h.grounded.serve hserve
  linked := h.linked.serve hserve
  events ev hev := by
    rcases List.mem_append.mp hev with hev | hev
    · exact (h.events ev hev).mono (List.subset_append_left _ _)
    · obtain ⟨server, evs, -, rfl, -⟩ := serve_some hserve
      obtain ⟨ev', -, rfl⟩ := List.mem_map.mp hev
      trivial

theorem founded_of_run {as : List (Action Obj)}
    (h : (machine rt cfg).Run Lib.Machine.Always {} as es s) : Founded rt cfg es s := by
  refine invariant_of_run h ?_ (fun es s t fs hs ha => hs.act ha) ?_
  · refine ⟨⟨[], .refl⟩, ⟨by simp, by simp, by simp⟩, ⟨by simp, by simp, by simp, ?_⟩, by simp⟩
    exact fun _ => trivial
  · intro es s t fs b u gs hs ha hserve
    rw [← List.append_assoc]
    obtain ⟨hreports, hdials⟩ := ha.brings hs.grounded
    exact (hs.act ha).serve hserve hreports hdials

end Minimodal.System
