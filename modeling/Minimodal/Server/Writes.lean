import Minimodal.Server.Terminal

namespace Minimodal

theorem Mutator.run_functionBytes {mutate : Mutator} {c c' : Captured} {r r' : JobRecord}
    (h : mutate.run c r = (c', .ok r')) (hm : ∀ req, mutate ≠ .report req) :
    r'.functionBytes = r.functionBytes := by
  cases rewrites_of_run h with
  | report => exact absurd rfl (hm _)
  | _ => rfl

theorem Mutator.run_report {req : ReportTaskResultRequest} {c c' : Captured} {r r' : JobRecord}
    (h : (report req).run c r = (c', .ok r')) :
    r.terminal = false ∧ r' = reportResult req r := by
  cases rewrites_of_run h with
  | report ht => exact ⟨ht, rfl⟩

theorem reportResult_terminal (req : ReportTaskResultRequest) (r : JobRecord) :
    (reportResult req r).terminal = true := by
  cases hs : req.success <;> simp [reportResult, JobRecord.terminal, hs]

theorem BoltStore.submit_created {s s' : BoltStore} {rec : JobRecord} {key id : String} {now : Nat}
    (h : s.submitWithIdempotency rec key now = (s', .ok (id, true))) :
    id = rec.id ∧ ∃ hkey, s'.jobs =
      s.jobs.insert rec.id ({ rec with idempotencyKey := key }.stamp now) hkey := by
  obtain ⟨hid, hget⟩ := submitTx_created h
  refine ⟨hid, Lib.Bucket.admitted_of_get hget, Lib.Bucket.ext_get fun j => ?_⟩
  have hsame := Server.submit_get s rec key now j
  rw [h] at hsame
  rw [Lib.Bucket.get_insert]
  split
  · rename_i hj
    rw [← hj]
    exact hget
  · rename_i hj
    exact hsame.resolve_right fun he => hj he.1.symm

namespace Server

def Event.writes : Event → Bool
  | .transitioned _ _ (.ok true) | .submitted _ _ (.ok (_, true)) => true
  | _ => false

/-- What a step does to the records, and how that shows in its events: nothing, one transition,
or one new record. -/
inductive Writes (st st' : BoltStore) : List Event → Prop
  | none {es} : st'.jobs = st.jobs → (∀ ev ∈ es, ev.writes = false) → Writes st st' es
  | transition {jobID mutate r r' c now} (hkey : validKey jobID = true) :
      st.jobs.get jobID = some r → mutate ≠ .missingPayload → mutate.run {} r = (c, .ok r') →
      st'.jobs = st.jobs.insert jobID (r'.stamp now) hkey →
      Writes st st' [.transitioned jobID mutate (.ok true)]
  | create {rec key now} (hkey : validKey rec.id = true) : st.jobs.get rec.id = .none →
      rec.Newborn →
      st'.jobs = st.jobs.insert rec.id ({ rec with idempotencyKey := key }.stamp now) hkey →
      Writes st st' [.submitted rec key (.ok (rec.id, true))]

inductive Written (j : String) (old : Option JobRecord) : Option JobRecord → List Event → Prop
  | none {es} : (∀ mutate, .transitioned j mutate (.ok true) ∉ es) → Written j old old es
  | transition {mutate r r' c now} : old = some r → mutate ≠ .missingPayload →
      mutate.run {} r = (c, .ok r') →
      Written j old (some (r'.stamp now)) [.transitioned j mutate (.ok true)]
  | create {rec key now} : old = .none → rec.Newborn →
      Written j old (some ({ rec with idempotencyKey := key }.stamp now))
        [.submitted rec key (.ok (j, true))]

variable {cfg : Config} {s t : State} {a : Action} {es fs : List Event} {m m' : Mem} {ch : Choice}

theorem Transits.writes {jobID : String} {mutate : Mutator} {c : Captured} {b : Except Err Bool}
    (h : Transits m ch jobID mutate m' c b) (hm : mutate ≠ .missingPayload) :
    Writes m.store m'.store [.transitioned jobID mutate b] := by
  cases h with
  | commit hkey _ hget hrun => exact .transition hkey hget hm hrun rfl
  | skip | error => exact .none rfl (by simp [Event.writes])

theorem Drainer.Steps.writes {d d' : Drainer} (h : Drainer.Steps cfg m ch d m' d' es)
    (hd : d.Ok) : Writes m.store m'.store es := by
  cases h with
  | missingPayload => exact hd.elim
  | mark ht | markSkip ht | markError ht | revert ht | fail ht => exact ht.writes (by simp)
  | _ => exact .none rfl (by simp [Event.writes])

theorem Detector.Steps.writes {d d' : Detector} (h : Detector.Steps cfg m ch d m' d' es) :
    Writes m.store m'.store es := by
  cases h with
  | requeue ht | giveUp ht | skip ht => exact ht.writes (by simp)
  | _ => exact .none rfl (by simp [Event.writes])

theorem Main.Steps.writes {pc pc' : Main} (h : Main.Steps m ch pc m' pc' es) :
    Writes m.store m'.store es := by
  cases h with
  | replay ht | replayError ht => exact ht.writes (by simp)
  | _ => exact .none rfl (by simp)

theorem Event.Quiet.not_writes {ev : Event} (h : ev.Quiet = true) : ev.writes = false := by
  cases ev <;> first | rfl | simp [Event.Quiet] at h

theorem Handler.Steps.writes {c : Nat} {h h' : Handler} (hst : Handler.Steps m ch c h m' h' es)
    (hnew : ∀ req rec, h = .submit req rec → rec.Newborn ∧ m.store.jobs.get rec.id = none) :
    Writes m.store m'.store es := by
  cases hst with
  | created _ hres =>
    obtain ⟨hnb, hnone⟩ := hnew _ _ rfl
    obtain ⟨rfl, hkey, hjobs⟩ := BoltStore.submit_created hres
    exact .create hkey hnone hnb hjobs
  | existing _ hres =>
    have hsame := BoltStore.submitTx_existing (congrArg Prod.snd hres)
    have hstore := (congrArg Prod.fst hres).symm.trans hsame
    exact .none (congrArg BoltStore.jobs hstore) (by simp [Event.writes])
  | report ht | reportError ht => exact ht.writes (by simp)
  | quiet _ _ hm hes =>
    exact .none (congrArg BoltStore.jobs hm.store) fun ev hev => Event.Quiet.not_writes (hes ev hev)
  | _ => exact .none rfl (by simp [Event.writes])

theorem Stepped.writes (h : Stepped cfg s a t es) (hi : Inv s) :
    Writes s.mem.store t.mem.store es := by
  cases h with
  | main hcode hp => exact (Main.steps hcode hp).writes
  | drainer _ hcode hp => exact (Drainer.steps hcode hp).writes hi.drainer
  | detector _ hcode hp => exact (Detector.steps hcode hp).writes
  | call hcode hp =>
    refine (Handler.steps hcode hp).writes fun req rec hc => ?_
    obtain ⟨hnb, -, hnone⟩ := hi.submitting _ req rec hc
    exact ⟨hnb, hnone⟩
  | _ => exact .none rfl (by simp [Event.writes])

theorem Writes.written {st st' : BoltStore} (h : Writes st st' es) (j : String) :
    Written j (st.jobs.get j) (st'.jobs.get j) es := by
  cases h with
  | none hjobs hes =>
    rw [hjobs]
    exact .none fun mutate hmem => by simpa [Event.writes] using hes _ hmem
  | transition hkey hget hm hrun hjobs =>
    rw [hjobs, Lib.Bucket.get_insert]
    split
    · rename_i hj
      subst hj
      exact .transition hget hm hrun
    · rename_i hj
      exact .none fun mutate hmem => by simp [Ne.symm hj] at hmem
  | create hkey hnone hnb hjobs =>
    rw [hjobs, Lib.Bucket.get_insert]
    split
    · rename_i hj
      subst hj
      exact .create hnone hnb
    · exact .none (by simp)

def Reported (es : List Event) (j : String) : Prop :=
  ∃ req, .transitioned j (.report req) (.ok true) ∈ es

theorem reported_append {j : String} :
    Reported (es ++ fs) j ↔ Reported es j ∨ Reported fs j := by
  simp [Reported, exists_or]

/-- The payload of a job goes with its report, and with nothing else. -/
def Cleared (es : List Event) (j : String) : Option JobRecord → Prop
  | none => ¬ Reported es j
  | some r =>
    (Reported es j → r.terminal = true ∧ r.functionBytes = [] ∧ r.argsBytes = []) ∧
      (¬ Reported es j → r.functionBytes ≠ [])

theorem Written.cleared {j : String} {old new : Option JobRecord} (h : Written j old new fs)
    (hc : Cleared es j old) : Cleared (es ++ fs) j new := by
  cases h with
  | none hes =>
    have hold : Reported (es ++ fs) j ↔ Reported es j := by
      rw [reported_append, or_iff_left]
      rintro ⟨req, hmem⟩
      exact hes _ hmem
    cases old with
    | none => exact fun h => hc (hold.mp h)
    | some r => exact ⟨fun h => hc.1 (hold.mp h), fun h => hc.2 fun h' => h (hold.mpr h')⟩
  | @transition mutate r r' c now hold hm hrun =>
    subst hold
    by_cases hreport : ∃ req, mutate = .report req
    · obtain ⟨req, rfl⟩ := hreport
      obtain ⟨-, rfl⟩ := Mutator.run_report hrun
      refine ⟨fun _ => ⟨reportResult_terminal req r, rfl, rfl⟩, fun hn => ?_⟩
      exact absurd (reported_append.mpr (.inr ⟨req, by simp⟩)) hn
    · have hnew : ¬ Reported [.transitioned j mutate (.ok true)] j := by
        rintro ⟨req, hmem⟩
        simp only [List.mem_singleton, Event.transitioned.injEq] at hmem
        exact hreport ⟨req, hmem.2.1.symm⟩
      refine ⟨fun h => ?_, fun hn => ?_⟩
      · -- the record was final, so it is as the report has left it
        obtain ⟨ht, hf, ha⟩ := hc.1 ((reported_append.mp h).resolve_right hnew)
        have he := (Mutator.evolves hm hrun).frozen ht
        rw [← he] at ht hf ha
        exact ⟨ht, hf, ha⟩
      · have hf := Mutator.run_functionBytes hrun fun req he => hreport ⟨req, he⟩
        rw [JobRecord.stamp_functionBytes, hf]
        exact hc.2 fun h => hn (reported_append.mpr (.inl h))
  | create hold hnb =>
    subst hold
    have hnr : ∀ rec key, ¬ Reported (es ++ [Event.submitted rec key (.ok (j, true))]) j := by
      intro rec key h
      rcases reported_append.mp h with h | ⟨req, hmem⟩
      · exact hc h
      · simp at hmem
    exact ⟨fun h => absurd h (hnr _ _), fun _ => hnb.loaded⟩

theorem cleared_of_run {as : List Action}
    (h : (machine cfg).Run Lib.Machine.Always init as es s) :
    Inv s ∧ ∀ j, Cleared es j (s.mem.store.jobs.get j) := by
  refine h.invariant_trace
    (P := fun es s => Inv s ∧ ∀ j, Cleared es j (s.mem.store.jobs.get j)) ?_ ?_
  · exact ⟨.init, fun j => by simp [Server.init, Cleared, Reported]⟩
  · rintro es s a t fs ⟨hi, hc⟩ - hst
    have hst := stepped_of_step hst
    exact ⟨(hi.step hst).1, fun j => ((hst.writes hi).written j).cleared (hc j)⟩

/-- A job has lost its payload exactly if it was a report that finished it. -/
theorem payload_cleared_iff_reported (cfg : Config) {as : List Action} {es : List Event}
    {s : State} (h : (machine cfg).Run Lib.Machine.Always init as es s) {j : String}
    {r : JobRecord} (hget : s.mem.store.getJob j = some r) :
    (r.functionBytes = [] ∧ r.argsBytes = [] ↔ Reported es j) ∧
      (Reported es j → r.status = .done ∨ r.status = .failed) := by
  obtain ⟨-, hc⟩ := cleared_of_run h
  have hj := hc j
  rw [show s.mem.store.jobs.get j = some r from hget] at hj
  refine ⟨⟨fun ⟨hf, _⟩ => ?_, fun hrep => (hj.1 hrep).2⟩, fun hrep => ?_⟩
  · by_contra hn
    exact hj.2 hn hf
  · exact r.terminal_iff.mp (hj.1 hrep).1

theorem payload_cleared_iff_reported_sample :
    ∃ r, sampleFinished.1.mem.store.getJob "j" = some r ∧ r.status = .done ∧
      r.functionBytes = [] ∧ r.argsBytes = [] := by
  have hrun : (machine sampleConfig).Run Lib.Machine.Always init _ sampleFinished.2
      sampleFinished.1 := (Lib.Machine.run_of_exec_get (by decide)).mono fun _ _ _ => trivial
  have hrep : Reported sampleFinished.2 "j" :=
    ⟨{ jobID := "j", workerID := "w", success := true, resultBytes := [7] }, by decide⟩
  exact ⟨_, rfl, rfl, (payload_cleared_iff_reported sampleConfig hrun rfl).1.mpr hrep⟩

def sampleUndispatched : State × List Event :=
  ((machine { sampleConfig with maxDispatchAttempts := 1 }).exec (fun _ _ => true) init
    [.start, .main {},
      .invokeFunction 0 { functionBytes := [1], argsBytes := [2], functionName := "f" } "j" 1,
      .call 0 { now := 2 }, .call 0 {}, .call 0 {}, .call 0 {}, .call 0 {}, .drainer {},
      .drainer {}, .drainer {}, .drainer {}, .drainer { now := 3 }]).get (by decide)

/-- The job is FAILED, and its payload stays. -/
theorem payload_kept_by_failure : ∃ as es s r,
    (machine { sampleConfig with maxDispatchAttempts := 1 }).Run Lib.Machine.Always init as es s ∧
      s.mem.store.getJob "j" = some r ∧ r.status = .failed ∧
      r.error = "dispatch failed: no worker accepted after 1 attempts" ∧
      r.functionBytes = [1] ∧ r.argsBytes = [2] := by
  have hrun : (machine { sampleConfig with maxDispatchAttempts := 1 }).Run Lib.Machine.Always init
      _ sampleUndispatched.2 sampleUndispatched.1 :=
    (Lib.Machine.run_of_exec_get (by decide)).mono fun _ _ _ => trivial
  refine ⟨_, _, sampleUndispatched.1, _, hrun, rfl, rfl, ?_, rfl, rfl⟩
  decide

end Server

end Minimodal
