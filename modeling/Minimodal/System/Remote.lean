import Minimodal.System.Origin

namespace Minimodal

theorem Worker.outcome_of_returns {env : Worker.Env} {request : ExecuteTaskRequest}
    {st : Worker.State} {fn : Worker.UserFn} {strategy : Worker.Strategy} {data : Bytes}
    (hload : env.loads request.functionBytes request.argsBytes = .ok fn) (hplain : env.Plain request)
    (hfn : fn.Portable) (h : Worker.Returns env request st data strategy) :
    fn.outcome = .ok (.ok data) := by
  cases strategy with
  | inproc => exact (Worker.inprocCall_outcome hload hplain.stdio hfn).1.symm.trans h
  | naive => exact (Worker.naiveCall_outcome hload hplain.loadFd hfn).1.symm.trans h.2
  | fork => exact (Worker.forkCall_outcome hload hplain.stdio hfn).symm.trans h.2

namespace System

open Sdk (Runtime Func Future deserializeResult loadTask)
open Worker (Strategy Env)

variable {Obj : Type} {rt : Runtime Obj} {cfg : Config} {s : State Obj} {as : List (Action Obj)}
  {es : List (Event Obj)} {j : String}

theorem Serves.run {server : Server.State} (h : Serves cfg es server) :
    ∃ bs, (Server.machine cfg).Run Lib.Machine.Always Server.init bs (serverEvents es) server := by
  obtain ⟨bs, hrun⟩ := h
  exact ⟨bs, hrun.mono fun _ _ _ => trivial⟩

structure Ran (rt : Runtime Obj) (es : List (Event Obj)) (request : ExecuteTaskRequest)
    (strategy : Strategy) (env : Env) (st : Worker.State) : Prop where
  executed : .executed strategy env st request ∈ es
  loads : ∃ site, env.loads = loadTask rt site
  sent : Sent es request

namespace Founded

theorem settled (h : Founded rt cfg es s) {result : JobResult} (ha : Announced es j result) :
    ∃ r, s.server.mem.store.jobs.get j = some r ∧ jobResultEvent r = .result j result ∧
      Server.Ended cfg (serverEvents es) j r := by
  obtain ⟨bs, hrun⟩ := h.serves.run
  obtain ⟨c, hev⟩ := ha
  obtain ⟨r, hget, ht, hres⟩ := (Server.announced_of_run hrun).2.2 _ (mem_serverEvents.mpr hev)
  exact ⟨r, hget, hres, (Server.explained_of_run hrun).2 j r hget ht⟩

theorem reported (h : Founded rt cfg es s) {req : ReportTaskResultRequest}
    (hev : .server (.transitioned j (.report req) (.ok true)) ∈ es) :
    ∃ strategy env st request, Ran rt es request strategy env st ∧ request.jobID = j ∧
      Worker.Honest env request strategy st req := by
  obtain ⟨bs, hrun⟩ := h.serves
  have hsourced := Server.sourced_of_run (hrun.mono fun _ _ hb => hb.1)
  obtain ⟨⟨strategy, env, st, request, hex, hh⟩, hid⟩ :=
    hsourced.events j req _ (mem_serverEvents.mpr hev)
  obtain ⟨hload, hsent⟩ := h.events _ hex
  exact ⟨strategy, env, st, request, ⟨hex, hload, hsent⟩, hh.jobID.symm.trans hid, hh⟩

theorem submitted (h : Founded rt cfg es s) {req : InvokeFunctionRequest} (hg : Granted es req j) :
    ∃ rec, Server.Submitted (serverEvents es) rec req.idempotencyKey ∧ rec.id = j ∧
      (req.idempotencyKey = "" →
        rec.functionBytes = req.functionBytes ∧ rec.argsBytes = req.argsBytes) ∧
      ∀ request, Sent es request → request.jobID = j → request = rec.executeTaskRequest := by
  obtain ⟨bs, hrun⟩ := h.serves.run
  have htraced := (Server.traced_of_run hrun).2
  obtain ⟨c, created, hev⟩ := hg
  obtain ⟨rec, hsub, hid, hbytes⟩ :=
    ((Server.keyed_of_run hrun).invoked c req j created (mem_serverEvents.mpr hev)).submitted
  refine ⟨rec, hsub, hid, hbytes, fun request hsent hj => ?_⟩
  obtain ⟨w, address, hev⟩ := hsent
  obtain ⟨rec', key, hsub', rfl⟩ := htraced.sent w address request (mem_serverEvents.mpr hev)
  obtain ⟨rfl, -⟩ := htraced.unique _ _ _ _ hsub hsub' (hid.trans hj.symm)
  rfl

theorem computed (h : Founded rt cfg es s) {value : Obj} (hd : Delivered rt es j value) :
    ∃ strategy env st request data, Ran rt es request strategy env st ∧ request.jobID = j ∧
      deserializeResult rt data = .ok value ∧
      (Worker.Returns env request st data strategy ∨
        strategy = .naive ∧ Worker.stray env request ≠ []) := by
  obtain ⟨result, ha, hdone, hvalue⟩ := hd
  obtain ⟨r, -, hres, hended⟩ := h.settled ha
  obtain ⟨rfl, rfl⟩ := JobEvent.result.inj hres
  have hdone : r.status = .done := hdone
  cases hended with
  | @reported req hev hs hb he =>
    obtain ⟨strategy, env, st, request, hran, hid, hh⟩ := h.reported (mem_serverEvents.mp hev)
    have hsuccess : req.success = true := by
      cases hb : req.success with
      | true => rfl
      | false => simp [hb, hdone] at hs
    exact ⟨strategy, env, st, request, req.resultBytes, hran, hid, hb ▸ hvalue, hh.success hsuccess⟩
  | undispatched _ hs => simp [hdone] at hs
  | lost _ hs => simp [hdone] at hs

theorem announced_unique (h : Founded rt cfg es s) {result result' : JobResult}
    (ha : Announced es j result) (ha' : Announced es j result') : result = result' := by
  obtain ⟨r, hget, hres, -⟩ := h.settled ha
  obtain ⟨r', hget', hres', -⟩ := h.settled ha'
  obtain rfl := Option.some.inj (hget.symm.trans hget')
  exact (JobEvent.result.inj (hres.symm.trans hres')).2

theorem granted_unique (h : Founded rt cfg es s) {req req' : InvokeFunctionRequest} {j' : String}
    (hkey : req.idempotencyKey ≠ "") (hsame : req'.idempotencyKey = req.idempotencyKey)
    (hg : Granted es req j) (hg' : Granted es req' j') : j' = j := by
  obtain ⟨bs, hrun⟩ := h.serves.run
  have hkeyed := Server.keyed_of_run hrun
  obtain ⟨c, created, hev⟩ := hg
  obtain ⟨c', created', hev'⟩ := hg'
  have hidx := (hkeyed.invoked c req j created (mem_serverEvents.mpr hev)).indexed hkey
  have hidx' := (hkeyed.invoked c' req' j' created' (mem_serverEvents.mpr hev')).indexed
    (hsame ▸ hkey)
  rw [hsame, hidx] at hidx'
  exact (Option.some.inj hidx').symm

theorem failed (h : Founded rt cfg es s) {k : Nat} {req : InvokeFunctionRequest} {error : String}
    (hraised : .raised k req j (.futureError ("job " ++ j ++ " failed: " ++ error)) ∈ es) :
    ∃ result, Announced es j result ∧ result.status ≠ .done ∧ result.error = error := by
  rcases (h.events _ hraised).2 with hm | ⟨result, ha, hfailed, hm⟩
  · rw [String.append_assoc, String.append_right_inj] at hm
    simpa using congrArg String.toList hm
  · exact ⟨result, ha, hfailed, ((String.append_right_inj _).mp hm).symm⟩

end Founded

section Sample

/-- Objects are byte strings; pickling puts a byte in front. The empty function raises; the others
do the same everywhere. -/
def sampleRuntime : Runtime Bytes where
  none := []
  dumps x := .ok (0 :: x)
  loads
    | [] => .error (.raised ⟨.other, Worker.text "Ran out of input"⟩)
    | _ :: x => .ok x
  call _ fn args :=
    if fn.isEmpty then .raises ⟨.other, Worker.text "boom"⟩
    else .write (Worker.text "hi\n") false fun _ => .returns (fn ++ args)
  wireSize
    | .result _ result => result.resultBytes.length
    | _ => 0

theorem sampleRuntime_faithful (x : Bytes) : sampleRuntime.Faithful x := by
  rintro data ⟨⟩
  exact ⟨by simp, rfl⟩

def sampleFunc (fn : Bytes) : Func Bytes := ⟨fn, "f"⟩

def sampleCall (fn : Bytes) (key : String) : InvokeFunctionRequest where
  functionBytes := 0 :: fn
  argsBytes := [0, 2]
  functionName := "f"
  idempotencyKey := key

def sampleServe (c now n : Nat) : List (Action Bytes) :=
  List.replicate n (Action.server (Server.Action.call c { now }))

def sampleFleet : List (Action Bytes) :=
  [.server .start, .server (.main {}), .launch "host:1" "w" .inproc, .register "host:1" 1 0]

def sampleTask : List (Action Bytes) :=
  Server.sampleDispatch.map Action.server ++
    ([.executeTask 0, .runTask "host:1" 0 1 (Worker.sampleEnv Worker.sampleFn) {}] :
      List (Action Bytes))

def sampleActions (fn : Bytes) (key : String) : List (Action Bytes) :=
  sampleFleet ++ Action.spawn 0 (sampleFunc fn) [2] key "j" 1 :: sampleServe 0 2 5 ++
    Action.response 0 :: sampleTask ++ Action.get 0 "60.0" true :: sampleServe 1 3 2 ++
    Action.reportTaskResult 0 :: sampleServe 2 4 8 ++ sampleServe 1 5 4 ++
    List.replicate 2 (Action.receive 0 none)

def sampleRemote : State Bytes × List (Event Bytes) :=
  ((machine sampleRuntime Server.sampleConfig).exec (fun _ _ => true) {} (sampleActions [1] "")).get
    (by decide)

theorem sampleRemote_run : (machine sampleRuntime Server.sampleConfig).Run Lib.Machine.Always {}
    (sampleActions [1] "") sampleRemote.2 sampleRemote.1 :=
  (Lib.Machine.run_of_exec_get (by decide)).mono fun _ _ _ => trivial

theorem sampleRemote_returned : .returned 0 (sampleCall [1] "") "j" [1, 2] ∈ sampleRemote.2 :=
  List.mem_of_getLast? rfl

end Sample

/-- No value comes out of thin air: what `get` returns is the deserialised result of an execution
of the job's task on some worker, and that task is what was submitted under the job, which is the
caller's own function and arguments unless they gave a key. The one exception is the `naive`
strategy with user code that writes to file descriptor 1 itself. -/
theorem returned_value_computed (rt : Runtime Obj) (cfg : Config)
    (h : (machine rt cfg).Run Lib.Machine.Always {} as es s) {k : Nat}
    {req : InvokeFunctionRequest} {value : Obj} (hret : .returned k req j value ∈ es) :
    ∃ rec strategy env st data,
      .server (.submitted rec req.idempotencyKey (.ok (j, true))) ∈ es ∧
      (req.idempotencyKey = "" →
        rec.functionBytes = req.functionBytes ∧ rec.argsBytes = req.argsBytes) ∧
      .executed strategy env st rec.executeTaskRequest ∈ es ∧
      deserializeResult rt data = .ok value ∧
      (Worker.Returns env rec.executeTaskRequest st data strategy ∨
        strategy = .naive ∧ Worker.stray env rec.executeTaskRequest ≠ []) := by
  have hf := founded_of_run h
  obtain ⟨hgranted, hdelivered⟩ := hf.events _ hret
  obtain ⟨rec, hsub, rfl, hbytes, htask⟩ := hf.submitted hgranted
  obtain ⟨strategy, env, st, request, data, hran, hid, hvalue, hreturns⟩ := hf.computed hdelivered
  obtain rfl := htask request hran.sent hid
  exact ⟨rec, strategy, env, st, data, mem_serverEvents.mp hsub, hbytes, hran.executed, hvalue,
    hreturns⟩

theorem returned_value_computed_sample : ∃ rec strategy env st,
    .server (.submitted rec "" (.ok ("j", true))) ∈ sampleRemote.2 ∧ rec.functionBytes = [0, 1] ∧
      rec.argsBytes = [0, 2] ∧ .executed strategy env st rec.executeTaskRequest ∈ sampleRemote.2 := by
  obtain ⟨rec, strategy, env, st, data, hsub, hbytes, hex, -⟩ := returned_value_computed
    sampleRuntime Server.sampleConfig sampleRemote_run sampleRemote_returned
  exact ⟨rec, strategy, env, st, hsub, (hbytes rfl).1, (hbytes rfl).2, hex⟩

/-- Remote execution means what local execution means: for a function that does the same wherever
it runs, whose code, arguments and value survive pickling, that leaves file descriptor 1 alone and
writes only UTF-8 text, and workers that are plain, whatever `remote` returns is what `local`
returns. It does so through every restart, retry and reassignment, and under every cold-start
strategy. -/
theorem remote_agrees_with_local (rt : Runtime Obj) (cfg : Config)
    (h : (machine rt cfg).Run Lib.Machine.Always {} as es s)
    (hplain : ∀ strategy env st request, .executed strategy env st request ∈ es →
      env.Plain request)
    {f : Func Obj} {args : Obj} {req : InvokeFunctionRequest} {home : Nat}
    (hreq : f.request rt args "" = .ok req) (hfn : rt.Faithful f.fn) (hargs : rt.Faithful args)
    (hsame : ∀ site, rt.call site f.fn args = rt.call home f.fn args)
    (hresult : ∀ value, (rt.call home f.fn args).outcome = .ok value → rt.Faithful value)
    (hportable : ((rt.call home f.fn args).pickled rt.dumps).Portable)
    {k : Nat} {value : Obj} (hret : .returned k req j value ∈ es) :
    (rt.call home f.fn args).outcome = .ok value := by
  have hf := founded_of_run h
  obtain ⟨hgranted, hdelivered⟩ := hf.events _ hret
  obtain ⟨hdf, hda, hkey⟩ := Func.request_ok hreq
  obtain ⟨rec, -, rfl, hbytes, htask⟩ := hf.submitted hgranted
  obtain ⟨hfb, hab⟩ := hbytes hkey
  obtain ⟨strategy, env, st, request, data, hran, hid, hvalue, hreturns⟩ := hf.computed hdelivered
  obtain rfl := htask request hran.sent hid
  have hp := hplain _ _ _ _ hran.executed
  have hload : env.loads rec.executeTaskRequest.functionBytes rec.executeTaskRequest.argsBytes =
      .ok ((rt.call home f.fn args).pickled rt.dumps) := by
    obtain ⟨site, hloads⟩ := hran.loads
    rw [hloads, ← hsame site]
    exact Sdk.loadTask_dumps hfn hargs (hdf.trans (congrArg _ hfb.symm))
      (hda.trans (congrArg _ hab.symm)) site
  have hreturns := hreturns.resolve_right fun hnaive => hnaive.2 (hp.stray_eq_nil hload hportable)
  have houtcome := Worker.outcome_of_returns hload hp hportable hreturns
  obtain ⟨value', hlocal, hdumps⟩ := Sdk.Program.outcome_pickled houtcome
  obtain rfl : value' = value := by
    rw [Sdk.deserializeResult_dumps (hresult _ hlocal) hdumps] at hvalue
    exact Except.ok.inj hvalue
  exact hlocal

/-- What the worker that has run a task does beside the user's code. -/
def surroundings : Event Bytes →
    Option ((Worker.Text → Bool → Option Worker.Raised) × (Bytes → Bytes → Bytes) × Bytes)
  | .executed _ env _ _ => some (env.stdio, env.loadFd, env.atExit)
  | _ => none

theorem remote_agrees_with_local_sample :
    .returned 0 (sampleCall [1] "") "j" [1, 2] ∈ sampleRemote.2 ∧
      (sampleRuntime.call 0 [1] [2]).outcome = .ok [1, 2] := by
  have hreq : (sampleFunc [1]).request sampleRuntime [2] "" = .ok (sampleCall [1] "") := rfl
  have hportable : ((sampleRuntime.call 0 [1] [2]).pickled sampleRuntime.dumps).Portable :=
    ⟨rfl, trivial⟩
  refine ⟨sampleRemote_returned, remote_agrees_with_local sampleRuntime Server.sampleConfig
    sampleRemote_run ?_ hreq (sampleRuntime_faithful _) (sampleRuntime_faithful _) (fun _ => rfl)
    (fun _ _ => sampleRuntime_faithful _) hportable sampleRemote_returned⟩
  intro strategy env st request hex
  have hall : sampleRemote.2.filterMap surroundings =
      [(fun _ _ => none, fun _ _ => [], [])] := rfl
  have hmem : (env.stdio, env.loadFd, env.atExit) ∈ sampleRemote.2.filterMap surroundings :=
    List.mem_filterMap.mpr ⟨_, hex, rfl⟩
  rw [hall, List.mem_singleton, Prod.mk.injEq, Prod.mk.injEq] at hmem
  obtain ⟨hstdio, hload, hexit⟩ := hmem
  exact ⟨by simp [hstdio], by simp [hload], hexit⟩

/-- Callers that share an idempotency key share the outcome: once one of them has got a value,
every other gets the same value of the same job, and none is told that the job has failed. The
orchestrator may have restarted in between any number of times. -/
theorem keyed_callers_agree (rt : Runtime Obj) (cfg : Config)
    (h : (machine rt cfg).Run Lib.Machine.Always {} as es s) {k : Nat}
    {req req' : InvokeFunctionRequest} {value : Obj} (hret : .returned k req j value ∈ es)
    (hkey : req.idempotencyKey ≠ "") (hsame : req'.idempotencyKey = req.idempotencyKey) :
    (∀ k' j' value', .returned k' req' j' value' ∈ es → j' = j ∧ value' = value) ∧
      ∀ k' j' error,
        .raised k' req' j' (.futureError ("job " ++ j' ++ " failed: " ++ error)) ∉ es := by
  have hf := founded_of_run h
  obtain ⟨hgranted, result, ha, hdone, hvalue⟩ := hf.events _ hret
  refine ⟨fun k' j' value' hret' => ?_, fun k' j' error hraised => ?_⟩
  · obtain ⟨hgranted', result', ha', -, hvalue'⟩ := hf.events _ hret'
    obtain rfl := hf.granted_unique hkey hsame hgranted hgranted'
    obtain rfl := hf.announced_unique ha ha'
    exact ⟨rfl, Except.ok.inj (hvalue'.symm.trans hvalue)⟩
  · obtain rfl := hf.granted_unique hkey hsame hgranted (hf.events _ hraised).1
    obtain ⟨result', ha', hfailed, -⟩ := hf.failed hraised
    obtain rfl := hf.announced_unique ha ha'
    exact hfailed hdone

def sampleShared : State Bytes × List (Event Bytes) :=
  ((machine sampleRuntime Server.sampleConfig).exec (fun _ _ => true) {}
    (sampleActions [1] "key" ++
      ([.server .crash, .server .start, .server (.main {}),
        .spawn 1 (sampleFunc [9]) [2] "key" "i" 6] : List (Action Bytes)) ++ sampleServe 3 7 2 ++
      ([.response 1, .get 1 "60.0" true] : List (Action Bytes)) ++ sampleServe 4 8 7 ++
      List.replicate 2 (Action.receive 1 none))).get (by decide)

def returns : Event Bytes → Option (Nat × InvokeFunctionRequest × String × Bytes)
  | .returned k req j value => some (k, req, j, value)
  | _ => none

theorem mem_of_returns {es : List (Event Bytes)} {k : Nat} {req : InvokeFunctionRequest}
    {value : Bytes} (h : (k, req, j, value) ∈ es.filterMap returns) :
    .returned k req j value ∈ es := by
  obtain ⟨ev, hev, heq⟩ := List.mem_filterMap.mp h
  cases ev with
  | returned k' req' j' value' =>
    obtain ⟨rfl, rfl, rfl, rfl⟩ := Option.some.inj heq
    exact hev
  | _ => cases heq

theorem keyed_callers_agree_sample :
    .returned 1 (sampleCall [9] "key") "j" [1, 2] ∈ sampleShared.2 ∧
      ∀ k j' value, .returned k (sampleCall [9] "key") j' value ∈ sampleShared.2 →
        j' = "j" ∧ value = [1, 2] := by
  have hrun : (machine sampleRuntime Server.sampleConfig).Run Lib.Machine.Always {} _
      sampleShared.2 sampleShared.1 :=
    (Lib.Machine.run_of_exec_get (by decide)).mono fun _ _ _ => trivial
  have hret : sampleShared.2.filterMap returns =
      [(0, sampleCall [1] "key", "j", [1, 2]), (1, sampleCall [9] "key", "j", [1, 2])] := by decide
  have hfirst : .returned 0 (sampleCall [1] "key") "j" [1, 2] ∈ sampleShared.2 :=
    mem_of_returns (by simp [hret])
  have hsame : (sampleCall [9] "key").idempotencyKey = (sampleCall [1] "key").idempotencyKey := rfl
  refine ⟨mem_of_returns (by simp [hret]), ?_⟩
  exact (keyed_callers_agree sampleRuntime Server.sampleConfig hrun hfirst (by decide) hsame).1

theorem server_of_act {a : Action Obj} {t : State Obj} {ch : Server.Choice}
    (h : s.act rt a = some (t, es, some (.drainer ch))) : a = .server (.drainer ch) := by
  cases a with
  | server b =>
    simp only [State.act, Option.ite_none_right_eq_some] at h
    obtain ⟨-, h⟩ := h
    split at h
    all_goals
      cases h
      rfl
  | getJobStatus | streamTaskLogs | launch | kill | dropTask | dropReport | cut =>
    simp only [State.act] at h
    repeat' split at h
    all_goals cases h
  | register | heartbeat | reportTaskResult | cancelTask =>
    simp only [State.act, Option.map_eq_some_iff] at h
    obtain ⟨p, -, hp⟩ := h
    cases hp
  | executeTask | runTask =>
    simp only [State.act, bind, Option.bind_eq_some_iff] at h
    obtain ⟨p, -, q, -, hq⟩ := h
    cases hq
  | _ =>
    simp only [State.act] at h
    repeat' split at h
    all_goals cases h

/-- The errors that `Dispatch` has returned for a job on the way along `as`. -/
def Refused (rt : Runtime Obj) (cfg : Config) (as : List (Action Obj)) (j : String) (e : Err) : Prop :=
  (machine rt cfg).Takes (fun s a => ∃ b, a = .server b ∧ s.server.refusal j b = some e) {} as

theorem worded_of_run (h : (machine rt cfg).Run Lib.Machine.Always {} as es s) :
    Server.Worded cfg (Refused rt cfg as) (serverEvents es) s.server := by
  have hinit : Server.Worded cfg (Refused rt cfg []) [] Server.init := ⟨trivial, by simp⟩
  refine h.invariant_history
    (P := fun as es (s : State Obj) =>
      Server.Worded cfg (Refused rt cfg as) (serverEvents es) s.server) hinit ?_
  intro as es s a t fs hrun hworded _ hst
  have hworded := hworded.mono fun j e (he : Refused rt cfg as j e) => he.append [a]
  simp only [machine, step] at hst
  split at hst
  · cases hst
  · rename_i ha
    obtain ⟨rfl, rfl⟩ := Prod.mk.inj (Option.some.inj hst)
    obtain ⟨hserver, hfs⟩ := (acts_of_act ha).server
    rw [serverEvents_append, hfs, List.append_nil, hserver]
    exact hworded
  · rename_i t₀ fs₀ b ha
    obtain ⟨⟨u, gs⟩, hserve, heq⟩ := Option.map_eq_some_iff.mp hst
    obtain ⟨rfl, rfl⟩ := Prod.mk.inj heq
    obtain ⟨hserver, hfs⟩ := (acts_of_act ha).server
    obtain ⟨server, evs, hserver_step, rfl, rfl⟩ := serve_some hserve
    rw [hserver] at hserver_step
    obtain ⟨bs, hserver_run⟩ := (founded_of_run hrun).serves.run
    obtain ⟨hi, hq⟩ := Server.queued_of_run hserver_run
    rw [serverEvents_append, serverEvents_append, hfs, List.nil_append, serverEvents_map]
    refine hworded.step hi hq hserver_step fun j e he => hrun.takes ⟨b, ?_, he⟩
    cases b with
    | drainer ch => exact server_of_act ha
    | _ => cases he

/-- A failure that `get` raises has a cause: a worker has run what was submitted under the job, and
the report of just this error that it made has finished the job; or no worker would take the job;
or the store failed under `Dispatch`, which said so; or too many of its workers have died. -/
theorem raised_failure_caused (rt : Runtime Obj) (cfg : Config)
    (h : (machine rt cfg).Run Lib.Machine.Always {} as es s) {k : Nat}
    {req : InvokeFunctionRequest} {error : String}
    (hraised : .raised k req j (.futureError ("job " ++ j ++ " failed: " ++ error)) ∈ es) :
    (∃ rec strategy env st report,
        .server (.submitted rec req.idempotencyKey (.ok (j, true))) ∈ es ∧
        .executed strategy env st rec.executeTaskRequest ∈ es ∧
        .server (.transitioned j (.report report) (.ok true)) ∈ es ∧
        Worker.Honest env rec.executeTaskRequest strategy st report ∧
        report.success = false ∧ report.error = error) ∨
      error = noWorkerMessage cfg.maxAttempts ∨
      (∃ e, Refused rt cfg as j e ∧ error = dispatchFailedMessage e) ∨
      error = "exceeded max retries after worker death(s)" := by
  have hf := founded_of_run h
  obtain ⟨result, ha, hfailed, rfl⟩ := hf.failed hraised
  obtain ⟨rec, hsub, rfl, -, htask⟩ := hf.submitted (hf.events _ hraised).1
  obtain ⟨r, -, hres, hended⟩ := hf.settled ha
  obtain ⟨-, rfl⟩ := JobEvent.result.inj hres
  have hfailed : r.status ≠ .done := hfailed
  cases hended with
  | @reported report hev hs hb he =>
    obtain ⟨strategy, env, st, request, hran, hid, hh⟩ := hf.reported (mem_serverEvents.mp hev)
    obtain rfl := htask request hran.sent hid
    have hsuccess : report.success = false := by
      cases hb : report.success with
      | false => rfl
      | true => simp [hb, hfailed] at hs
    refine .inl ⟨rec, strategy, env, st, report, mem_serverEvents.mp hsub, hran.executed,
      mem_serverEvents.mp hev, hh, hsuccess, ?_⟩
    simp [he, hsuccess]
  | undispatched hev hs he =>
    subst he
    exact .inr (((worded_of_run h).events _ _ _ hev).imp_right .inl)
  | lost hev hs he => exact .inr (.inr (.inr he))

def sampleBroken : State Bytes × List (Event Bytes) :=
  ((machine sampleRuntime Server.sampleConfig).exec (fun _ _ => true) {} (sampleActions [] "")).get
    (by decide)

theorem head_dispatchFailedMessage (e : Err) :
    (dispatchFailedMessage e).toList.head? = some 'd' := by
  have hd : "dispatch failed: ".toList.head? = some 'd' := by decide
  have happend : (dispatchFailedMessage e).toList = "dispatch failed: ".toList ++ e.error.toList :=
    String.toList_append
  rw [happend, List.head?_append, hd]
  rfl

def sampleTraceback : String := "Traceback (most recent call last):\nboom"

theorem raised_failure_caused_sample : ∃ (rec : JobRecord) (strategy : Strategy) (env : Env)
    (st : Worker.State) (report : ReportTaskResultRequest),
    .executed strategy env st rec.executeTaskRequest ∈ sampleBroken.2 ∧
      .server (.transitioned "j" (.report report) (.ok true)) ∈ sampleBroken.2 ∧
      Worker.Honest env rec.executeTaskRequest strategy st report ∧ report.success = false ∧
      report.error = sampleTraceback := by
  have hrun : (machine sampleRuntime Server.sampleConfig).Run Lib.Machine.Always {} _
      sampleBroken.2 sampleBroken.1 :=
    (Lib.Machine.run_of_exec_get (by decide)).mono fun _ _ _ => trivial
  have hraised : .raised 0 (sampleCall [] "") "j"
      (.futureError ("job " ++ "j" ++ " failed: " ++ sampleTraceback)) ∈ sampleBroken.2 :=
    List.mem_of_getLast? rfl
  rcases raised_failure_caused sampleRuntime Server.sampleConfig hrun hraised with
    ⟨rec, strategy, env, st, report, -, hex, hreport⟩ | hm | ⟨e, -, hm⟩ | hm
  · exact ⟨rec, strategy, env, st, report, hex, hreport⟩
  · exact absurd hm (by decide)
  · have htrace : sampleTraceback.toList.head? = some 'T' := by decide
    cases htrace.symm.trans (hm ▸ head_dispatchFailedMessage e)
  · exact absurd hm (by decide)

end System

end Minimodal
