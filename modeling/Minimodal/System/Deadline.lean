import Minimodal.System.Remote

namespace Minimodal.System

open Sdk (Runtime Future Item)

variable {Obj : Type} {rt : Runtime Obj} {cfg : Config} {s t u : State Obj}
  {es fs gs : List (Event Obj)} {b : Server.Action} {o : Option Server.Action} {c k k' : Nat}
  {j : String}

theorem watchedBy_filter (evs : List Server.Event) :
    Server.watchedBy c (evs.filter fun ev => ev.call = some c) = Server.watchedBy c evs := by
  rw [Server.watchedBy, Server.watchedBy, List.filterMap_filter]
  refine List.filterMap_congr fun ev _ => ?_
  cases ev <;> simp [Server.Event.call]

/-- The stream under a `get` whose deadline is not over: what has been read holds no result, and
together with what waits in the inbox it is what the handler has sent. -/
def Streams (s : State Obj) (c : Nat) (j : String) : Prop :=
  s.link c = .up → ∃ read : List JobEvent, (∀ ev ∈ read, ev.isResult = false) ∧
    (s.server.calls c).Streams j False (∃ st, .refused c st ∈ s.inbox c)
      (read ++ Server.watchedBy c (s.inbox c))

theorem Streams.frame (h : Streams s c j) (hserver : t.server = s.server)
    (hlink : t.link c = .up → s.link c = .up) (hinbox : t.inbox c = s.inbox c) :
    Streams t c j := by
  intro hup
  rw [hserver, hinbox]
  exact h (hlink hup)

theorem Streams.serve (h : Streams s c j) (hs : Serves cfg es s.server)
    (hserve : s.serve cfg b = some (u, gs)) (hc : c < s.next) (hstarts : b.starts ≠ some c)
    (hstop : ∀ ch, b = .call c ch → ch.stop = true → s.link c ≠ .up) : Streams u c j := by
  obtain ⟨server, evs, hst, rfl, rfl⟩ := serve_some hserve
  intro hup
  simp only at hup
  split at hup
  · cases hup
  · rename_i hhang
    have hund : Server.undisturbed c s.server b := by
      refine ⟨hstarts, ?_, ?_⟩
      all_goals
        rintro rfl
        simp [hangsUp, hc] at hhang
    obtain ⟨read, hread, hstream⟩ := h hup
    obtain ⟨bs, hrun⟩ := hs
    refine ⟨read, hread, ?_⟩
    simp only [Server.watchedBy_append, watchedBy_filter]
    rw [← List.append_assoc]
    rcases Server.step_of_call hst hund with ⟨ch, rfl, hm⟩ | ⟨-, hcalls, hnone⟩
    · refine (hstream.step hm fun ev hev => Server.terminal_isResult_of_run
        (hrun.mono fun _ _ _ => trivial) hev).mono ?_ ?_
      · rintro (hfalse | hdone)
        · exact hfalse
        · exact hstop ch rfl hdone hup
      · rintro (⟨st, hmem⟩ | ⟨st, -, hmem⟩)
        · exact ⟨st, List.mem_append_left _ hmem⟩
        · exact ⟨st, List.mem_append_right _ (List.mem_filter.mpr ⟨hmem, by simp [Server.Event.call]⟩)⟩
    · rw [hcalls, hnone, List.append_nil]
      refine hstream.mono id ?_
      rintro ⟨st, hmem⟩
      exact ⟨st, List.mem_append_left _ hmem⟩

theorem Streams.start (hserve : s.serve cfg (.watchJob c j) = some (u, gs)) (hin : s.inbox c = []) :
    Streams u c j := by
  obtain ⟨server, evs, hst, rfl, rfl⟩ := serve_some hserve
  obtain ⟨-, -, rfl, rfl⟩ := Server.accept_some hst
  refine fun _ => ⟨[], by simp, ?_⟩
  simp only [hin, Server.setCall_calls, if_true]
  unfold Server.Handler.watchJob Server.Handler.requireJobID
  split
  · exact rfl
  · exact ⟨rfl, rfl⟩

theorem Streams.read (h : Streams s c j) {rest : List Server.Event} {ev : JobEvent}
    (hin : s.inbox c = .watched c ev :: rest) (hev : ev.isResult = false) :
    Streams (s.setInbox c rest) c j := by
  intro hup
  obtain ⟨read, hread, hstream⟩ := h hup
  refine ⟨read ++ [ev], ?_, ?_⟩
  · simpa [or_imp, forall_and, hev] using hread
  · rw [hin] at hstream
    simpa [State.setInbox, Server.watchedBy] using hstream

def Client.call : Client Obj → Option Nat
  | .invoking _ c | .getting _ _ c _ _ => some c
  | _ => none

theorem Linked.called (h : Linked rt es s) (hk : (s.clients k).call = some c) :
    ∃ p, .called k c p ∈ es := by
  have hclient := h.clients k
  cases hc : s.clients k with
  | idle => simp [hc, Client.call] at hk
  | holds => simp [hc, Client.call] at hk
  | invoking req d =>
    rw [hc] at hk hclient
    obtain rfl := Option.some.inj hk
    exact ⟨_, hclient⟩
  | getting req fut d timeout printLogs =>
    rw [hc] at hk hclient
    obtain rfl := Option.some.inj hk
    exact ⟨_, hclient.2.1⟩

theorem Linked.call_lt (h : Linked rt es s) (hk : (s.clients k).call = some c) : c < s.next := by
  obtain ⟨p, hev⟩ := h.called hk
  exact h.fresh k c p hev

theorem Linked.call_inj (h : Linked rt es s) (hk : (s.clients k).call = some c)
    (hk' : (s.clients k').call = some c) : k = k' := by
  obtain ⟨p, hev⟩ := h.called hk
  obtain ⟨p', hev'⟩ := h.called hk'
  exact (h.unique k c p k' p' hev hev').1

def Streaming (s : State Obj) : Prop :=
  ∀ k req fut c timeout printLogs, s.clients k = .getting req fut c timeout printLogs →
    Streams s c fut.jobID

section Frame

variable (h : Streams s c j) {call : Nat} {rest : List Server.Event} {link : Link}
  {client : Client Obj}

include h

theorem Streams.setClient : Streams (s.setClient k client) c j := h.frame rfl id rfl

theorem Streams.setInbox (hc : c ≠ call) : Streams (s.setInbox call rest) c j :=
  h.frame rfl id (by simp [State.setInbox, hc])

theorem Streams.setLink (hlink : link ≠ .up) : Streams (s.setLink call link) c j := by
  refine h.frame rfl (fun hup => ?_) rfl
  simp only [State.setLink, Function.update_apply] at hup
  split at hup
  · exact absurd hup hlink
  · exact hup

theorem Streams.dial (hc : c < s.next) : Streams s.dial c j := by
  have hne : c ≠ s.next := Nat.ne_of_lt hc
  exact h.frame rfl (by simp [State.dial, hne]) (by simp [State.dial, hne])

end Frame

theorem Streaming.act (h : Streaming s) (hl : Linked rt es s) (ha : Acts rt s t fs o)
    {req : InvokeFunctionRequest} {fut : Future Obj} {timeout : String} {printLogs : Bool}
    (hk : t.clients k = .getting req fut c timeout printLogs) :
    c < s.next ∧ Streams t c fut.jobID ∨ o = some (.watchJob c fut.jobID) ∧ t.inbox c = [] := by
  have hkept : s.clients k = .getting req fut c timeout printLogs →
      c < s.next ∧ Streams s c fut.jobID := fun hs =>
    ⟨hl.call_lt (by rw [hs]; rfl), h _ _ _ _ _ _ hs⟩
  -- another client may act, but never on the call of this one
  have hset : ∀ {k' : Nat} {client : Client Obj},
      (s.setClient k' client).clients k = .getting req fut c timeout printLogs →
      client = .getting req fut c timeout printLogs ∨ c < s.next ∧ Streams s c fut.jobID ∧
        ∀ call, (s.clients k').call = some call → c ≠ call := by
    intro k' client hset
    simp only [State.setClient, Function.update_apply] at hset
    split at hset
    · exact .inl hset
    · rename_i hne
      refine .inr ⟨(hkept hset).1, (hkept hset).2, ?_⟩
      rintro call hcall rfl
      exact hne (hl.call_inj (by rw [hset]; rfl) hcall)
  cases ha with
  | relink hlink =>
    obtain ⟨hlt, hs⟩ := hkept hk
    exact .inl ⟨hlt, hs.setLink hlink⟩
  | unsent =>
    obtain ⟨hlt, hs⟩ := hkept hk
    exact .inl ⟨hlt, hs.setLink (by simp)⟩
  | query =>
    obtain ⟨hlt, hs⟩ := hkept hk
    exact .inl ⟨hlt, hs.dial hlt⟩
  | report =>
    obtain ⟨hlt, hs⟩ := hkept hk
    exact .inl ⟨hlt, Streams.dial (hs.frame rfl id rfl) hlt⟩
  | spawn =>
    rcases hset hk with heq | ⟨hlt, hs, -⟩
    · cases heq
    · exact .inl ⟨hlt, Streams.dial hs.setClient hlt⟩
  | spawned hk' | failed hk' =>
    rcases hset hk with heq | ⟨hlt, hs, hne⟩
    · cases heq
    · exact .inl ⟨hlt, (hs.setInbox (hne _ (by rw [hk']; rfl))).setClient⟩
  | get hk' =>
    rcases hset hk with heq | ⟨hlt, hs, -⟩
    · cases heq
      exact .inr ⟨rfl, Function.update_self ..⟩
    · exact .inl ⟨hlt, Streams.dial hs.setClient hlt⟩
  | reads hk' hr hrec =>
    rcases hset hk with heq | ⟨hlt, hs, hne⟩
    · cases heq
      obtain ⟨ev, print, rfl, hev⟩ := Future.receive_none (congrArg Prod.snd hrec)
      cases hr with
      | @event d _ _ _ hin =>
        obtain rfl := Option.some.inj (hl.inbox c (.watched d ev) (by simp [hin])).2
        rw [Future.jobID_of_receive hrec]
        exact .inl ⟨hl.call_lt (by rw [hk']; rfl), ((h _ _ _ _ _ _ hk').read hin hev).setClient⟩
    · exact .inl ⟨hlt, (hs.setInbox (hne _ (by rw [hk']; rfl))).setClient⟩
  | returned hk' hr hrec | raised hk' hr hrec =>
    rcases hset hk with heq | ⟨hlt, hs, hne⟩
    · cases heq
    · exact .inl ⟨hlt, ((hs.setInbox (hne _ (by rw [hk']; rfl))).setLink (by simp)).setClient⟩
  | _ => exact .inl (hkept hk)

theorem Acts.starts (ha : Acts rt s t fs (some b)) : b.starts = none ∨ b.starts = some s.next := by
  cases ha with
  | plain _ hb => exact .inl hb
  | unsent => exact .inl rfl
  | query _ hb => exact .inr hb
  | report | spawn | get => exact .inr rfl

theorem Acts.next_le (ha : Acts rt s t fs o) : s.next ≤ t.next := by
  cases ha <;> first | exact le_refl _ | exact Nat.le_succ _

theorem Acts.stops (ha : Acts rt s t fs (some b)) {ch : Server.Choice} (hb : b = .call c ch)
    (hstop : ch.stop = true) : t.link c ≠ .up := by
  subst hb
  cases ha with
  | plain _ _ hb => exact hb c ch rfl hstop
  | unsent => simp [State.setLink]
  | query _ hb => simp [Server.Action.starts] at hb

theorem streaming_of_run {as : List (Action Obj)}
    (h : (machine rt cfg).Run Lib.Machine.Always {} as es s) : Founded rt cfg es s ∧ Streaming s := by
  refine invariant_of_run (P := fun es s => Founded rt cfg es s ∧ Streaming s) h ?_ ?_ ?_
  · exact ⟨founded_of_run .refl, by simp [Streaming]⟩
  · rintro es s t fs ⟨hf, hs⟩ ha
    refine ⟨hf.act ha, fun k req fut c timeout printLogs hk => ?_⟩
    rcases hs.act hf.linked ha hk with ⟨-, hst⟩ | ⟨ho, -⟩
    · exact hst
    · cases ho
  · rintro es s t fs b u gs ⟨hf, hs⟩ ha hserve
    obtain ⟨hreports, hdials⟩ := ha.brings hf.grounded
    have hf' := hf.act ha
    rw [← List.append_assoc]
    refine ⟨hf'.serve hserve hreports hdials, fun k req fut c timeout printLogs hk => ?_⟩
    have hclients : u.clients = t.clients := by
      obtain ⟨server, evs, -, -, rfl⟩ := serve_some hserve
      rfl
    rcases hs.act hf.linked ha (hclients ▸ hk) with ⟨hlt, hst⟩ | ⟨ho, hin⟩
    · refine hst.serve hf'.serves hserve (lt_of_lt_of_le hlt ha.next_le) ?_ fun ch => ha.stops
      rcases ha.starts with hb | hb
      · simp [hb]
      · simpa [hb] using (Nat.ne_of_lt hlt).symm
    · obtain rfl := Option.some.inj ho
      exact .start hserve hin

theorem Streams.not_ended (h : Streams s c j) (hup : s.link c = .up)
    (hidle : s.server.calls c = .idle) (hin : s.inbox c = []) : False := by
  obtain ⟨read, hread, hstream⟩ := h hup
  rw [hidle, hin] at hstream
  rcases hstream with ⟨front, ev, -, hev, hsent⟩ | ⟨hfalse, -⟩ | ⟨⟨st, hmem⟩, -⟩
  · have hmem : ev ∈ read := by
      simp only [Server.watchedBy_nil, List.append_nil] at hsent
      simp [hsent]
    simp [hread ev hmem] at hev
  · exact hfalse
  · cases hmem

/-- As long as the deadline of a `get` is not over, its connection holds and no message of its has
failed to go out, the stream does not end under it: `get` raises the failure of the job, an error
status of the orchestrator, what printing a line or unpickling the result has raised, or it has
been sent a message larger than it takes, and nothing else. -/
theorem get_raises_in_time (rt : Runtime Obj) (cfg : Config) {as : List (Action Obj)}
    (h : (machine rt cfg).Run Lib.Machine.Always {} as es s) {a : Action Obj}
    (hst : step rt cfg s a = some (t, fs)) {req req' : InvokeFunctionRequest} {fut : Future Obj}
    {timeout : String} {printLogs : Bool}
    (hk : s.clients k = .getting req fut c timeout printLogs) (hup : s.link c = .up)
    {e : Sdk.Error} (hraised : .raised k req' j e ∈ fs) :
    (∃ error, e = .futureError ("job " ++ j ++ " failed: " ++ error)) ∨
      (∃ st, e = .rpcError (.status st)) ∨ (∃ stop, e = .python stop) ∨
      e = .rpcError .resourceExhausted ∧
        ∃ ev, .server (.watched c ev) ∈ es ∧ maxReceiveLength < rt.wireSize ev := by
  obtain ⟨hf, hstreaming⟩ := streaming_of_run h
  have hstreams := hstreaming _ _ _ _ _ _ hk
  obtain ⟨t, fs₀, o, ha, hmem⟩ : ∃ t fs₀ o, Acts rt s t fs₀ o ∧ .raised k req' j e ∈ fs₀ := by
    rcases acts_of_step hst with ha | ⟨t, fs₀, b, gs, ha, hserve, rfl⟩
    · exact ⟨_, _, _, ha, hraised⟩
    · refine ⟨_, _, _, ha, (List.mem_append.mp hraised).resolve_right fun hgs => ?_⟩
      obtain ⟨server, evs, -, rfl, -⟩ := serve_some hserve
      simp at hgs
  cases ha with
  | unavailable hk' =>
    simp only [List.mem_singleton, Event.raised.injEq] at hmem
    obtain ⟨rfl, -⟩ := hmem
    rw [hk] at hk'
    cases hk'
  | raised hk' hr hrec =>
    simp only [List.mem_singleton, Event.raised.injEq] at hmem
    obtain ⟨rfl, -, rfl, rfl⟩ := hmem
    rw [hk] at hk'
    cases hk'
    cases hr with
    | event =>
      exact (Future.receive_event_error (congrArg Prod.snd hrec)).imp_right fun hp => .inr (.inl hp)
    | @tooLarge d ev _ hin hsize =>
      obtain ⟨hev, hd⟩ := hf.linked.inbox c (.watched d ev) (by simp [hin])
      obtain rfl := Option.some.inj hd
      exact .inr (.inr (.inr ⟨by cases hrec; rfl, ev, hev, hsize⟩))
    | refused => exact .inr (.inl ⟨_, by cases hrec; rfl⟩)
    | timeout hlink | fail hlink | unsent hlink => simp [hup] at hlink
    | ended hidle hin => exact (hstreams.not_ended hup hidle hin).elim
  | _ => simp at hmem

def sampleWaiting : State Bytes × List (Event Bytes) :=
  ((machine sampleRuntime Server.sampleConfig).exec (fun _ _ => true) {}
    (sampleActions [] "").dropLast).get (by decide)

theorem get_raises_in_time_sample : ∃ t fs e,
    step sampleRuntime Server.sampleConfig sampleWaiting.1 (.receive 0 none) = some (t, fs) ∧
      .raised 0 (sampleCall [] "") "j" e ∈ fs ∧
        ((∃ error, e = .futureError ("job " ++ "j" ++ " failed: " ++ error)) ∨
          (∃ st, e = .rpcError (.status st)) ∨ (∃ stop, e = .python stop) ∨
          e = .rpcError .resourceExhausted ∧ ∃ ev, .server (.watched 1 ev) ∈ sampleWaiting.2 ∧
            maxReceiveLength < sampleRuntime.wireSize ev) := by
  have hrun : (machine sampleRuntime Server.sampleConfig).Run Lib.Machine.Always {} _
      sampleWaiting.2 sampleWaiting.1 :=
    (Lib.Machine.run_of_exec_get (by decide)).mono fun _ _ _ => trivial
  obtain ⟨⟨t, fs⟩, hst, hraised⟩ : ∃ r : State Bytes × List (Event Bytes),
      step sampleRuntime Server.sampleConfig sampleWaiting.1 (.receive 0 none) = some r ∧
        .raised 0 (sampleCall [] "") "j"
          (.futureError ("job " ++ "j" ++ " failed: " ++ sampleTraceback)) ∈ r.2 :=
    ⟨_, rfl, List.mem_of_getLast? rfl⟩
  have hk : sampleWaiting.1.clients 0 =
      .getting (sampleCall [] "") { jobID := "j", cachedResult := [] } 1 "60.0" true := rfl
  exact ⟨t, fs, _, hst, hraised,
    get_raises_in_time sampleRuntime Server.sampleConfig hrun hst hk rfl hraised⟩

end Minimodal.System
