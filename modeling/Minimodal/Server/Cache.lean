import Minimodal.Server.Redispatch

namespace Minimodal

structure JobStatusResponse.Shows (resp : JobStatusResponse) (rec : JobRecord) : Prop where
  resultBytes : resp.resultBytes = rec.resultBytes
  error : resp.error = rec.error
  coldStartMs : resp.coldStartMs = rec.coldStartMs
  totalDurationMs : resp.totalDurationMs = int64 (rec.coldStartMs + rec.executionMs)
  watched : jobResultEvent rec = .result rec.id
    { status := rec.status
      resultBytes := resp.resultBytes
      error := resp.error
      coldStartMs := resp.coldStartMs
      totalDurationMs := resp.totalDurationMs
      retryCount := int32 rec.retryCount
      workerID := rec.workerID }

def ResultEntry.agrees (e : ResultEntry) (r : JobRecord) : Bool :=
  e.resultBytes = r.resultBytes && e.coldStartMs = r.coldStartMs &&
    e.executionMs = r.executionMs && (r.error ≠ "" || e.errorMsg = "")

def JobRecord.hasResult (r : JobRecord) : Bool :=
  r.resultBytes ≠ [] || r.coldStartMs > 0 || r.executionMs > 0

/-- The report carries a result, and no error text along with a success. -/
def ReportTaskResultRequest.clean (req : ReportTaskResultRequest) : Bool :=
  (!req.success || req.error = "") &&
    (req.resultBytes ≠ [] || req.coldStartMs > 0 || req.executionMs > 0)

variable {r r' : JobRecord} {e : ResultEntry}

theorem JobStatusResponse.Shows.of_fields {resp : JobStatusResponse}
    (hres : resp.resultBytes = r.resultBytes) (herr : resp.error = r.error)
    (hcold : resp.coldStartMs = r.coldStartMs)
    (htotal : resp.totalDurationMs = int64 (r.coldStartMs + r.executionMs)) : resp.Shows r :=
  ⟨hres, herr, hcold, htotal, by simp only [jobResultEvent, hres, herr, hcold, htotal]⟩

@[simp] theorem jobStatusResponse_jobID (r : JobRecord) (now : Nat) (entry : Option ResultEntry) :
    (jobStatusResponse r now entry).jobID = r.id := by
  unfold jobStatusResponse
  repeat' split
  all_goals rfl

theorem jobStatusResponse_hit (h : e.agrees r = true) (now : Nat) :
    (jobStatusResponse r now (some e)).Shows r := by
  simp only [ResultEntry.agrees, Bool.and_eq_true, Bool.or_eq_true, decide_eq_true_eq] at h
  obtain ⟨⟨⟨hres, hcold⟩, hexec⟩, herr⟩ := h
  refine .of_fields hres (if_neg ?_) hcold ?_
  · rintro ⟨hmsg, hnone⟩
    exact hmsg (herr.resolve_left (absurd hnone))
  · simp only [jobStatusResponse, hcold, hexec, Int.add_comm]

theorem jobStatusResponse_miss (h : r.hasResult = true) (now : Nat) :
    (jobStatusResponse r now none).Shows r := by
  simp only [JobRecord.hasResult, Bool.or_eq_true, decide_eq_true_eq, or_assoc] at h
  simp only [jobStatusResponse, if_pos h]
  exact .of_fields rfl rfl rfl rfl

def JobRecord.Same (r r' : JobRecord) : Prop := { r' with updatedAt := r.updatedAt } = r

theorem JobRecord.Same.terminal (h : r.Same r') : r'.terminal = r.terminal := by
  rw [← show _ = r from h]
  rfl

theorem JobRecord.Same.trans {r'' : JobRecord} (h : r.Same r') (h' : r'.Same r'') :
    r.Same r'' := by
  have hr : { r' with updatedAt := r.updatedAt } = r := h
  have hr' : { r'' with updatedAt := r'.updatedAt } = r' := h'
  rw [← hr'] at hr
  exact hr

theorem JobRecord.Same.hasResult (h : r.Same r') : r'.hasResult = r.hasResult := by
  rw [← show _ = r from h]
  rfl

theorem JobRecord.Same.agrees (h : r.Same r') (e : ResultEntry) : e.agrees r' = e.agrees r := by
  rw [← show _ = r from h]
  rfl

theorem JobRecord.Same.shows {resp : JobStatusResponse} (h : r.Same r') (hs : resp.Shows r) :
    resp.Shows r' := by
  have hr : { r' with updatedAt := r.updatedAt } = r := h
  rw [← hr] at hs
  exact ⟨hs.resultBytes, hs.error, hs.coldStartMs, hs.totalDurationMs, hs.watched⟩

theorem Mutator.run_terminal {m : Mutator} {c c' : Captured} (h : m.run c r = (c', .ok r'))
    (hr : r.terminal = false) (ht : r'.terminal = true) :
    m = .missingPayload ∨ (∃ message, m = .dispatchFailed message) ∨
      (∃ k, m = .reap k ∧ r.status = .running ∧ r.retryCount + 1 > k) ∨
      ∃ req, m = .report req ∧ r' = reportResult req r := by
  cases rewrites_of_run h with
  | missingPayload => exact .inl rfl
  | dispatchFailed => exact .inr (.inl ⟨_, rfl⟩)
  | giveUp hrun hk => exact .inr (.inr (.inl ⟨_, rfl, hrun, hk⟩))
  | report => exact .inr (.inr (.inr ⟨_, rfl, rfl⟩))
  | keep => simp [hr] at ht
  | _ => simp [JobRecord.terminal] at ht

namespace Server

variable {cfg : Config} {s t : State} {a : Action} {es fs : List Event} {m m' : Mem} {ch : Choice}
  {j : String}

theorem Transits.finishes {jobID : String} {mutate : Mutator} {c : Captured} {b : Except Err Bool}
    (h : Transits m ch jobID mutate m' c b) (hr : m.store.jobs.get j = some r)
    (ho : r.terminal = false) (hr' : m'.store.jobs.get j = some r') (ht : r'.terminal = true) :
    j = jobID ∧ ∃ r₁, mutate.run {} r = (c, .ok r₁) ∧ r' = r₁.stamp ch.now := by
  rcases h.get hr' with ⟨hold, -⟩ | ⟨hj, -, r₀, r₁, hget, hrun, he⟩
  · rw [hr, Option.some.injEq] at hold
    simp [← hold, ho] at ht
  · rw [hr, Option.some.injEq] at hget
    exact ⟨hj, r₁, hget ▸ hrun, he⟩

theorem Drainer.Steps.finishes {d d' : Drainer} (h : Drainer.Steps cfg m ch d m' d' es)
    (hd : d.Ok) (hr : m.store.jobs.get j = some r) (ho : r.terminal = false)
    (hr' : m'.store.jobs.get j = some r') (ht : r'.terminal = true) :
    ∃ a message exhausted, d = .fail a message exhausted ∧ a.jobID = j := by
  have hsame : m'.store = m.store → False := by
    intro hs
    rw [hs, hr, Option.some.injEq] at hr'
    simp [← hr', ho] at ht
  cases h with
  | missingPayload => exact hd.elim
  | fail htr =>
    obtain ⟨hj, -⟩ := htr.finishes hr ho hr' ht
    exact ⟨_, _, _, rfl, hj.symm⟩
  | mark htr | markSkip htr | markError htr | revert htr =>
    obtain ⟨-, r₁, hrun, rfl⟩ := htr.finishes hr ho hr' ht
    simpa using Mutator.run_terminal hrun ho ht
  | _ => exact (hsame rfl).elim

theorem Detector.Steps.finishes {d d' : Detector} (h : Detector.Steps cfg m ch d m' d' es)
    (hr : m.store.jobs.get j = some r) (ho : r.terminal = false)
    (hr' : m'.store.jobs.get j = some r') (ht : r'.terminal = true) :
    ∃ w job jobs dead, d = .reassign w job jobs dead ∧ job.id = j ∧ r.status = .running ∧
      r.retryCount + 1 > cfg.maxRetries := by
  have hsame : m'.store = m.store → False := by
    intro hs
    rw [hs, hr, Option.some.injEq] at hr'
    simp [← hr', ho] at ht
  cases h with
  | requeue htr | giveUp htr | skip htr =>
    obtain ⟨hj, r₁, hrun, rfl⟩ := htr.finishes hr ho hr' ht
    have hreap := Mutator.run_terminal hrun ho ht
    simp only [reduceCtorEq, false_or, Mutator.reap.injEq, exists_eq_left', false_and,
      exists_false, or_false] at hreap
    exact ⟨_, _, _, _, rfl, hj.symm, hreap.1, hreap.2⟩
  | _ => exact (hsame rfl).elim

theorem Main.Steps.not_finishes {pc pc' : Main} (h : Main.Steps m ch pc m' pc' es)
    (hr : m.store.jobs.get j = some r) (ho : r.terminal = false)
    (hr' : m'.store.jobs.get j = some r') : r'.terminal = false := by
  by_contra ht
  have ht : r'.terminal = true := by simpa using ht
  have hsame : m'.store = m.store → False := by
    intro hs
    rw [hs, hr, Option.some.injEq] at hr'
    simp [← hr', ho] at ht
  cases h with
  | replay htr | replayError htr =>
    obtain ⟨-, r₁, hrun, rfl⟩ := htr.finishes hr ho hr' ht
    simpa using Mutator.run_terminal hrun ho ht
  | _ => exact hsame rfl

theorem Handler.Steps.finishes {c : Nat} {h h' : Handler} (hst : Handler.Steps m ch c h m' h' es)
    (hnew : ∀ req rec, h = .submit req rec → m.store.jobs.get rec.id = none)
    (hr : m.store.jobs.get j = some r) (ho : r.terminal = false)
    (hr' : m'.store.jobs.get j = some r') (ht : r'.terminal = true) :
    ∃ req, h = .report req ∧ req.jobID = j ∧ r' = (reportResult req r).stamp ch.now ∧
      m' = { m with store := m'.store } := by
  have hsame : m'.store.jobs.get j = m.store.jobs.get j → False := by
    intro hs
    rw [hs, hr, Option.some.injEq] at hr'
    simp [← hr', ho] at ht
  cases hst with
  | @created req rec _ _ _ hres | @existing req rec _ _ _ hres =>
    rcases submit_get m.store rec req.idempotencyKey ch.now j with heq | ⟨rfl, -, -⟩
    · rw [hres] at heq
      exact (hsame heq).elim
    · simp [hnew req rec rfl] at hr
  | report htr | reportError htr =>
    obtain ⟨rfl, r₁, hrun, rfl⟩ := htr.finishes hr ho hr' ht
    cases Mutator.rewrites_of_run hrun
    exact ⟨_, rfl, rfl, rfl, htr.mem⟩
  | quiet _ _ hm _ => exact (hsame (by rw [hm.store])).elim
  | _ => exact (hsame rfl).elim

theorem Drainer.Steps.results {d d' : Drainer} (h : Drainer.Steps cfg m ch d m' d' es) :
    m'.results = m.results := by
  cases h with
  | missingPayload ht | mark ht | markSkip ht | markError ht | revert ht | fail ht => rw [ht.mem]
  | _ => rfl

theorem Detector.Steps.results {d d' : Detector} (h : Detector.Steps cfg m ch d m' d' es) :
    m'.results = m.results := by
  cases h with
  | requeue ht | giveUp ht | skip ht => rw [ht.mem]
  | _ => rfl

theorem Main.Steps.results {pc pc' : Main} (h : Main.Steps m ch pc m' pc' es) :
    m'.results = m.results := by
  cases h with
  | replay ht | replayError ht => rw [ht.mem]
  | _ => rfl

theorem Handler.Steps.results {c : Nat} {h h' : Handler} (hst : Handler.Steps m ch c h m' h' es)
    (hf : m'.results.find j = some e) :
    m.results.find j = some e ∨ ∃ req, h = .putResult req ∧ req.jobID = j ∧ e = resultEntry req ∧
      m'.store = m.store := by
  cases hst with
  | putResult =>
    rcases LruResults.find_put hf with ⟨rfl, rfl⟩ | ⟨-, hold⟩
    · exact .inr ⟨_, rfl, rfl, rfl, rfl⟩
    · exact .inl hold
  | report ht | reportError ht =>
    rw [ht.mem] at hf
    exact .inl hf
  | quiet _ _ hm _ => exact .inl (hm.results j ▸ hf)
  | _ => exact .inl hf

/-- Finished jobs have a result, and what the cache holds for them is that result. -/
def Cached (s : State) : Prop :=
  ∀ j r, s.mem.store.jobs.get j = some r → r.terminal = true →
    r.hasResult = true ∧ ∀ e, s.mem.results.find j = some e → e.agrees r = true

def Unfinishing (m m' : BoltStore) : Prop :=
  ∀ j r', m'.jobs.get j = some r' → r'.terminal = true →
    ∃ r, m.jobs.get j = some r ∧ r.terminal = true

theorem Unfinishing.of {m m' : BoltStore}
    (hnew : ∀ j r', m.jobs.get j = none → m'.jobs.get j = some r' → r'.terminal = false)
    (hold : ∀ j r r', m.jobs.get j = some r → r.terminal = false → m'.jobs.get j = some r' →
      r'.terminal = true → False) : Unfinishing m m' := by
  intro j r' hr' ht'
  cases hget : m.jobs.get j with
  | none => simp [hnew j r' hget hr'] at ht'
  | some r =>
    cases ho : r.terminal with
    | true => exact ⟨r, rfl, ho⟩
    | false => exact (hold j r r' hget ho hr' ht').elim

theorem Cached.kept (h : Cached s) (hkept : Kept s.mem.store t.mem.store)
    (hres : ∀ j e, t.mem.results.find j = some e → s.mem.results.find j = some e)
    (hun : Unfinishing s.mem.store t.mem.store) : Cached t := by
  intro j r' hr' ht'
  obtain ⟨r, hr, ht⟩ := hun j r' hr' ht'
  obtain ⟨hhas, hagrees⟩ := h j r hr ht
  obtain ⟨r'', hr'', he⟩ := hkept j r hr
  rw [hr', Option.some.injEq] at hr''
  subst hr''
  have hsame : r.Same r' := he.frozen ht
  exact ⟨hsame.hasResult.trans hhas, fun e he => (hsame.agrees e).trans (hagrees e (hres j e he))⟩

/-- Reports do not interfere: one for a finished job repeats the stored result, and one that
finishes its job is clean and still finds its own entry in the cache, if any. Only reports
finish jobs: the drainer does not fail any, and the reaper's jobs have retries left. -/
def reportsAlone (cfg : Config) (s : State) : Action → Bool
  | .call c _ =>
    match s.calls c with
    | .putResult req =>
      (s.mem.store.getJob req.jobID).all fun r =>
        !r.terminal || (Handler.resultEntry req).agrees r
    | .report req =>
      (s.mem.store.getJob req.jobID).all fun r => r.terminal ||
        (req.clean &&
          (s.mem.results.find req.jobID).all (· = Handler.resultEntry req))
    | _ => true
  | .drainer _ =>
    match s.drainer with
    | .fail a _ _ => (s.mem.store.getJob a.jobID).all (·.terminal)
    | _ => true
  | .detector _ =>
    match s.detector with
    | .reassign _ job _ _ =>
      (s.mem.store.getJob job.id).all fun r =>
        r.status ≠ .running || r.retryCount + 1 ≤ cfg.maxRetries
    | _ => true
  | _ => true

theorem clean_agrees {req : ReportTaskResultRequest} (h : req.clean = true) (r : JobRecord) :
    (reportResult req r).hasResult = true ∧
      (Handler.resultEntry req).agrees (reportResult req r) = true := by
  simp only [ReportTaskResultRequest.clean, Bool.and_eq_true] at h
  refine ⟨h.2, ?_⟩
  cases hs : req.success with
  | true =>
    have herr : req.error = "" := by simpa [hs] using h.1
    simp [ResultEntry.agrees, Handler.resultEntry, reportResult, herr]
  | false =>
    simp only [ResultEntry.agrees, Handler.resultEntry, reportResult, hs, Bool.false_eq_true,
      if_false, decide_true, Bool.true_and]
    by_cases herr : req.error = "" <;> simp [herr]

theorem Cached.init : Cached init := by
  intro j r hr
  simp [Server.init] at hr

theorem Handler.Steps.newborn {c : Nat} {h h' : Handler} (hst : Handler.Steps m ch c h m' h' es)
    (hnb : ∀ req rec, h = .submit req rec → rec.Newborn) (hr : m.store.jobs.get j = none)
    (hr' : m'.store.jobs.get j = some r') : r'.terminal = false := by
  cases hst with
  | @created req rec _ _ _ hres | @existing req rec _ _ _ hres =>
    rcases submit_get m.store rec req.idempotencyKey ch.now j with heq | ⟨-, -, heq⟩
    · rw [hres, hr] at heq
      simp [show Lib.Bucket.get _ j = none from heq] at hr'
    · rw [hres] at heq
      rw [show Lib.Bucket.get _ j = some _ from heq, Option.some.injEq] at hr'
      simp [← hr', JobRecord.terminal, (hnb req rec rfl).status]
  | report ht | reportError ht =>
    rcases ht.get hr' with ⟨hold, -⟩ | ⟨-, -, r₀, -, hold, -⟩ <;> simp [hr] at hold
  | quiet _ _ hm _ =>
    rw [hm.store, hr] at hr'
    simp at hr'
  | _ => simp [hr] at hr'

theorem Cached.call (h : Cached s) (hi : Inv s) {c : Nat} {h' : Handler}
    (halone : reportsAlone cfg s (.call c ch) = true)
    (hh : Handler.Steps s.mem ch c (s.calls c) m h' es) (hkept : Kept s.mem.store m.store) :
    Cached ({ s with mem := m }.setCall c h') := by
  intro j r' hr' ht'
  cases hget : s.mem.store.jobs.get j with
  | none =>
    have hopen := hh.newborn (fun req rec he => (hi.submitting c req rec he).1) hget hr'
    simp [hopen] at ht'
  | some r =>
    cases ho : r.terminal with
    | true =>
      obtain ⟨hhas, hagrees⟩ := h j r hget ho
      obtain ⟨r'', hr'', hev⟩ := hkept j r hget
      obtain rfl := Option.some.inj (hr''.symm.trans hr')
      have hsame : r.Same r'' := hev.frozen ho
      refine ⟨hsame.hasResult.trans hhas, fun e he => (hsame.agrees e).trans ?_⟩
      rcases hh.results he with hold | ⟨req, hc, rfl, rfl, -⟩
      · exact hagrees e hold
      · simpa [reportsAlone, hc, BoltStore.getJob, hget, ho] using halone
    | false =>
      have hnew := fun req rec he => (hi.submitting c req rec he).2.2
      obtain ⟨req, hc, rfl, rfl, -⟩ := hh.finishes hnew hget ho hr' ht'
      simp only [reportsAlone, hc, BoltStore.getJob, hget, Option.all_some, ho, Bool.false_or,
        Bool.and_eq_true] at halone
      obtain ⟨hhas, hagrees⟩ := clean_agrees halone.1 r
      refine ⟨hhas, fun e he => ?_⟩
      rcases hh.results he with hold | ⟨req', hc', -⟩
      · simp only [hold, Option.all_some, decide_eq_true_eq] at halone
        exact halone.2 ▸ hagrees
      · simp [hc] at hc'

theorem Cached.step (h : Cached s) (hi : Inv s) (halone : reportsAlone cfg s a = true)
    (hst : Stepped cfg s a t fs) : Cached t := by
  have hkept := (hi.step hst).2
  cases hst with
  | start | crash => exact h.kept hkept (by simp [State.lose]) fun j r' hr' ht' => ⟨r', hr', ht'⟩
  | beginShutdown | cancel | close | registerWorker | heartbeat | invokeFunction | accept =>
    exact h.kept hkept (fun _ _ hf => hf) fun j r' hr' ht' => ⟨r', hr', ht'⟩
  | main hcode hp =>
    have hm := Main.steps hcode hp
    refine h.kept hkept (fun j e hf => hm.results ▸ hf) (.of ?_ ?_)
    · intro j r' hnone hr'
      simp [perform_domain (Main.plain hcode) hp hnone] at hr'
    · intro j r r' hr ho hr' ht'
      simp [hm.not_finishes hr ho hr'] at ht'
  | drainer _ hcode hp =>
    have hd := Drainer.steps hcode hp
    refine h.kept hkept (fun j e hf => hd.results ▸ hf) (.of ?_ ?_)
    · intro j r' hnone hr'
      simp [perform_domain (Drainer.plain hi.drainer hcode) hp hnone] at hr'
    · intro j r r' hr ho hr' ht'
      obtain ⟨att, message, exhausted, hdr, rfl⟩ := hd.finishes hi.drainer hr ho hr' ht'
      simp [reportsAlone, hdr, BoltStore.getJob, hr, ho] at halone
  | detector _ hcode hp =>
    have hd := Detector.steps hcode hp
    refine h.kept hkept (fun j e hf => hd.results ▸ hf) (.of ?_ ?_)
    · intro j r' hnone hr'
      simp [perform_domain (Detector.plain hcode) hp hnone] at hr'
    · intro j r r' hr ho hr' ht'
      obtain ⟨w, job, jobs, dead, hdet, rfl, hrun, hk⟩ := hd.finishes hr ho hr' ht'
      simp [reportsAlone, hdet, BoltStore.getJob, hr, hrun] at halone
      omega
  | call hcode hp => exact h.call hi halone (Handler.steps hcode hp) hkept

def Final (st : BoltStore) (rec : JobRecord) : Prop :=
  ∃ r, st.jobs.get rec.id = some r ∧ rec.Same r

def Told (st : BoltStore) (resp : JobStatusResponse) : Prop :=
  resp.status = .done ∨ resp.status = .failed →
    ∃ r, st.jobs.get resp.jobID = some r ∧ r.terminal = true ∧ resp.Shows r

def Handler.Told (st : BoltStore) : Handler → Prop
  | .clockStatus rec => rec.terminal = true → Final st rec
  | .cacheStatus rec _ => rec.terminal = true ∧ Final st rec
  | .replyStatus resp => Server.Told st resp
  | _ => True

theorem Final.kept {st st' : BoltStore} {rec : JobRecord} (h : Final st rec)
    (ht : rec.terminal = true) (hkept : Kept st st') : Final st' rec := by
  obtain ⟨r, hr, hsame⟩ := h
  obtain ⟨r', hr', he⟩ := hkept _ r hr
  exact ⟨r', hr', hsame.trans (he.frozen (hsame.terminal.trans ht))⟩

theorem Told.kept {st st' : BoltStore} {resp : JobStatusResponse} (h : Told st resp)
    (hkept : Kept st st') : Told st' resp := by
  intro hs
  obtain ⟨r, hr, ht, hshows⟩ := h hs
  obtain ⟨r', hr', he⟩ := hkept _ r hr
  have hsame : r.Same r' := he.frozen ht
  exact ⟨r', hr', he.terminal ht, hsame.shows hshows⟩

def Handler.Answers (R : BoltStore → JobStatusResponse → Prop) (st : BoltStore) : Handler → Prop
  | .clockStatus rec => rec.terminal = true → Final st rec
  | .cacheStatus rec _ => rec.terminal = true ∧ Final st rec
  | .replyStatus resp => R st resp
  | _ => True

theorem Handler.told_iff {st : BoltStore} {h : Handler} :
    h.Told st ↔ h.Answers Server.Told st := by
  cases h <;> rfl

theorem Handler.Answers.kept {R : BoltStore → JobStatusResponse → Prop} {st st' : BoltStore}
    {h : Handler} (ht : h.Answers R st) (hkept : Kept st st')
    (hR : ∀ resp, R st resp → R st' resp) : h.Answers R st' := by
  cases h with
  | clockStatus rec => exact fun hrt => (ht hrt).kept hrt hkept
  | cacheStatus rec now => exact ⟨ht.1, ht.2.kept ht.1 hkept⟩
  | replyStatus resp => exact hR resp ht
  | _ => exact trivial

theorem told_of_lookup (hc : Cached s) {rec : JobRecord} (ht : rec.terminal = true)
    (hf : Final s.mem.store rec) (now : Nat) :
    Told s.mem.store (jobStatusResponse rec now (s.mem.results.find rec.id)) := by
  obtain ⟨r, hr, hsame⟩ := hf
  have hrt : r.terminal = true := hsame.terminal.trans ht
  obtain ⟨hhas, hagrees⟩ := hc _ r hr hrt
  intro _
  cases hfind : s.mem.results.find rec.id with
  | none =>
    have hshows := jobStatusResponse_miss (hsame.hasResult.symm.trans hhas) now
    exact ⟨r, by rw [jobStatusResponse_jobID, hr], hrt, hsame.shows hshows⟩
  | some e =>
    have hshows := jobStatusResponse_hit ((hsame.agrees e).symm.trans (hagrees e hfind)) now
    exact ⟨r, hr, hrt, hsame.shows hshows⟩

theorem perform_jobStatus {op : Op} {res : op.Res} {c : Nat} {resp : JobStatusResponse}
    (h : perform cfg m ch op = some (m', res, es)) (hev : .jobStatus c resp ∈ es) :
    op = .reply (.jobStatus c resp) := by
  cases performs_of_perform h with
  | reply => rw [List.mem_singleton.mp hev]
  | _ => simp at hev

def Handler.telling : Handler → Bool
  | .clockStatus _ | .cacheStatus _ _ | .replyStatus _ => true
  | _ => false

theorem Handler.answers_of_silent {R : BoltStore → JobStatusResponse → Prop} {h : Handler}
    (hq : h.telling = false) (st : BoltStore) : h.Answers R st := by
  cases h <;> first | exact trivial | simp [telling] at hq

def Op.tells : Op → Bool
  | .reply (.jobStatus _ _) => true
  | _ => false

theorem Handler.sendAll_silent (jobID : String) (evs : List JobEvent) (k : WatchNext) :
    (sendAll jobID evs k).telling = false := by
  unfold sendAll
  split <;> rfl

theorem Handler.code_silent {c : Nat} {h : Handler} {stmt : Code Handler} (hq : h.telling = false)
    (hload : ∀ jobID, h ≠ .loadStatus jobID) (hcode : Handler.code c h = some stmt) :
    stmt.op.tells = false ∧ ∀ r, (stmt.next r).telling = false := by
  cases h with
  | idle => simp [code] at hcode
  | loadStatus jobID => exact absurd rfl (hload jobID)
  | clockStatus | cacheStatus | replyStatus => simp [telling] at hq
  | enqueue req jobID pc =>
    simp only [code, Option.some.injEq] at hcode
    subst hcode
    exact ⟨by cases pc <;> rfl, fun r => EnqueuePc.next_ind (fun _ => rfl) rfl pc r⟩
  | notify req pc =>
    simp only [code, Option.some.injEq] at hcode
    subst hcode
    exact ⟨by cases pc <;> rfl, fun r => NotifyPc.next_ind (fun _ => rfl) rfl pc r⟩
  | count req =>
    simp only [code] at hcode
    split at hcode <;>
    · simp only [Option.some.injEq] at hcode
      subst hcode
      exact ⟨rfl, fun _ => rfl⟩
  | _ =>
    simp only [code, Option.some.injEq] at hcode
    subst hcode
    refine ⟨rfl, fun r => ?_⟩
    simp only
    repeat' split
    all_goals
      first
        | rfl
        | exact sendAll_silent _ _ _

section Answers

variable {R : BoltStore → JobStatusResponse → Prop}

theorem Handler.answers_step (hs : s.mem.store.Sound)
    (hopen : ∀ rec now, rec.terminal = false → R s.mem.store (statusOfRecord rec now))
    (hlook : ∀ rec now, rec.terminal = true → Final s.mem.store rec →
      R s.mem.store (jobStatusResponse rec now (s.mem.results.find rec.id)))
    {c : Nat} {h : Handler} {stmt : Code Handler} {res : stmt.op.Res}
    (hcode : Handler.code c h = some stmt)
    (hp : perform cfg s.mem ch stmt.op = some (m', res, es)) (ht : h.Answers R s.mem.store) :
    (stmt.next res).Answers R s.mem.store ∧
      ∀ c' resp, .jobStatus c' resp ∈ es → R s.mem.store resp := by
  have hquiet : stmt.op.tells = false →
      ∀ c' resp, .jobStatus c' resp ∈ es → R s.mem.store resp := by
    intro hq c' resp hev
    simp [perform_jobStatus hp hev, Op.tells] at hq
  by_cases hload : ∃ jobID, h = .loadStatus jobID
  · obtain ⟨jobID, rfl⟩ := hload
    simp only [code, Option.some.injEq] at hcode
    subst hcode
    refine ⟨?_, hquiet rfl⟩
    rcases res with e | _ | rec
    · exact trivial
    · exact trivial
    · intro _
      obtain ⟨-, -, hget⟩ := getJob_some hp rfl
      have hid : rec.id = jobID := (hs jobID rec hget).keyed
      exact ⟨rec, hid ▸ hget, rfl⟩
  cases htell : h.telling with
  | false =>
    obtain ⟨hop, hnext⟩ := code_silent htell (fun jobID he => hload ⟨jobID, he⟩) hcode
    exact ⟨answers_of_silent (hnext res) _, hquiet hop⟩
  | true =>
    cases h with
    | clockStatus rec =>
      simp only [code, Option.some.injEq] at hcode
      subst hcode
      refine ⟨?_, hquiet rfl⟩
      simp only
      split
      · rename_i hrt
        exact ⟨hrt, ht hrt⟩
      · rename_i hrt
        exact hopen rec _ (by simpa using hrt)
    | cacheStatus rec now =>
      simp only [code, Option.some.injEq] at hcode
      subst hcode
      refine ⟨?_, hquiet rfl⟩
      simp only [perform, Option.some.injEq, Prod.mk.injEq] at hp
      obtain ⟨-, rfl, -⟩ := hp
      exact hlook rec now ht.1 ht.2
    | replyStatus resp =>
      simp only [code, Option.some.injEq] at hcode
      subst hcode
      refine ⟨trivial, fun c' resp' hev => ?_⟩
      have hop := perform_jobStatus hp hev
      simp only [Op.reply.injEq, Event.jobStatus.injEq] at hop
      exact hop.2 ▸ ht
    | _ => simp [telling] at htell

end Answers

section Silent

variable {c : Nat} {resp : JobStatusResponse}

theorem Main.Steps.silent {pc pc' : Main} (h : Main.Steps m ch pc m' pc' es) :
    .jobStatus c resp ∉ es := by
  cases h <;> simp

theorem Drainer.Steps.silent {d d' : Drainer} (h : Drainer.Steps cfg m ch d m' d' es) :
    .jobStatus c resp ∉ es := by
  cases h <;> simp

theorem Detector.Steps.silent {d d' : Detector} (h : Detector.Steps cfg m ch d m' d' es) :
    .jobStatus c resp ∉ es := by
  cases h <;> simp

end Silent

theorem telling_setCall {c d : Nat} {h : Handler} (hh : h.telling = false)
    (ht : ((s.setCall c h).calls d).telling = true) : (s.setCall c h).calls d = s.calls d := by
  rw [setCall_calls] at ht ⊢
  split at ht
  · simp [hh] at ht
  · rename_i hne
    rw [if_neg hne]

structure Answered (R : BoltStore → JobStatusResponse → Prop) (es : List Event) (s : State) :
    Prop where
  calls : ∀ c, (s.calls c).Answers R s.mem.store
  sent : ∀ c resp, .jobStatus c resp ∈ es → R s.mem.store resp

namespace Answered

variable {R : BoltStore → JobStatusResponse → Prop}

theorem init : Answered R [] init := ⟨fun _ => trivial, by simp⟩

theorem kept (h : Answered R es s) (hkept : Kept s.mem.store t.mem.store)
    (hR : ∀ resp, R s.mem.store resp → R t.mem.store resp)
    (hcalls : ∀ c, (t.calls c).telling = true → t.calls c = s.calls c)
    (hf : ∀ c resp, .jobStatus c resp ∉ fs) : Answered R (es ++ fs) t where
  calls c := by
    cases htell : (t.calls c).telling with
    | false => exact Handler.answers_of_silent htell _
    | true =>
      rw [hcalls c htell]
      exact (h.calls c).kept hkept hR
  sent c resp hev := by
    rcases List.mem_append.mp hev with hev | hev
    · exact hR resp (h.sent c resp hev)
    · exact absurd hev (hf c resp)

theorem step (h : Answered R es s) (hi : Inv s)
    (hR : ∀ resp, R s.mem.store resp → R t.mem.store resp)
    (hopen : ∀ rec now, rec.terminal = false → R s.mem.store (statusOfRecord rec now))
    (hlook : ∀ rec now, rec.terminal = true → Final s.mem.store rec →
      R s.mem.store (jobStatusResponse rec now (s.mem.results.find rec.id)))
    (hst : Stepped cfg s a t fs) : Answered R (es ++ fs) t := by
  have hkept := (hi.step hst).2
  cases hst with
  | start | crash =>
    exact h.kept hkept hR (fun c hc => by simp [State.lose, Handler.telling] at hc) (by simp)
  | beginShutdown | cancel | close | registerWorker | heartbeat =>
    exact h.kept hkept hR (fun _ _ => rfl) (by simp)
  | main hcode hp =>
    exact h.kept hkept hR (fun _ _ => rfl) fun _ _ => (Main.steps hcode hp).silent
  | drainer _ hcode hp =>
    exact h.kept hkept hR (fun _ _ => rfl) fun _ _ => (Drainer.steps hcode hp).silent
  | detector _ hcode hp =>
    exact h.kept hkept hR (fun _ _ => rfl) fun _ _ => (Detector.steps hcode hp).silent
  | @call c _ stmt mem res _ hcode hp =>
    obtain ⟨hnext, hev⟩ := Handler.answers_step hi.sound hopen hlook hcode hp (h.calls c)
    refine ⟨fun d => ?_, fun d resp hd => ?_⟩
    · rw [setCall_calls]
      split
      · exact hnext.kept hkept hR
      · exact (h.calls d).kept hkept hR
    · rcases List.mem_append.mp hd with hd | hd
      · exact hR resp (h.sent d resp hd)
      · exact hR resp (hev d resp hd)
  | @invokeFunction c req uuid now =>
    refine h.kept hkept hR (fun d hd => telling_setCall ?_ hd) (by simp)
    simp only [Handler.invokeFunction]
    repeat' split
    all_goals rfl
  | @accept _ c h' _ _ hh =>
    refine h.kept hkept hR (fun d hd => telling_setCall ?_ hd) (by simp)
    cases h' <;> first | rfl | exact hh.elim

end Answered

structure Truthful (es : List Event) (s : State) : Prop where
  calls : ∀ c, (s.calls c).Told s.mem.store
  told : ∀ c resp, .jobStatus c resp ∈ es → Told s.mem.store resp

theorem truthful_iff : Truthful es s ↔ Answered Told es s :=
  ⟨fun h => ⟨fun c => Handler.told_iff.mp (h.calls c), h.told⟩,
    fun h => ⟨fun c => Handler.told_iff.mpr (h.calls c), h.sent⟩⟩

theorem Truthful.init : Truthful [] init := truthful_iff.mpr .init

theorem Truthful.step (h : Truthful es s) (hc : Cached s) (hi : Inv s)
    (hst : Stepped cfg s a t fs) : Truthful (es ++ fs) t := by
  refine truthful_iff.mpr ((truthful_iff.mp h).step hi ?_ ?_ ?_ hst)
  · exact fun resp hresp => hresp.kept (hi.step hst).2
  · intro rec now hrt hst
    simp [rec.terminal_iff.mpr hst] at hrt
  · exact fun rec now hrt hf => told_of_lookup hc hrt hf now

/-- In every run in which reports do not interfere, `GetJobStatus` of a finished job shows
what is stored, whether the lookup in the cache hits or misses, and so does every response
ever sent. -/
theorem status_independent_of_cache (cfg : Config) {as : List Action} {es : List Event} {s : State}
    (h : (machine cfg).Run (fun s a => reportsAlone cfg s a = true) init as es s) :
    (∀ j r now, s.mem.store.getJob j = some r → r.status = .done ∨ r.status = .failed →
      (∀ e, s.mem.results.find j = some e → (jobStatusResponse r now (some e)).Shows r) ∧
        (jobStatusResponse r now none).Shows r) ∧
      ∀ c resp, .jobStatus c resp ∈ es → resp.status = .done ∨ resp.status = .failed →
        ∃ r, s.mem.store.getJob resp.jobID = some r ∧ resp.Shows r := by
  have hinv : Inv s ∧ Cached s ∧ Truthful es s := by
    refine h.invariant_trace (P := fun es s => Inv s ∧ Cached s ∧ Truthful es s)
      ⟨.init, .init, .init⟩ ?_
    intro es u a v e ⟨hi, hc, htr⟩ halone hst
    have hst := stepped_of_step hst
    exact ⟨(hi.step hst).1, hc.step hi halone hst, htr.step hc hi hst⟩
  obtain ⟨-, hc, htr⟩ := hinv
  refine ⟨fun j r now hget hr => ?_, fun c resp hev hr => ?_⟩
  · obtain ⟨hhas, hagrees⟩ := hc j r hget (r.terminal_iff.mpr hr)
    exact ⟨fun e he => jobStatusResponse_hit (hagrees e he) now, jobStatusResponse_miss hhas now⟩
  · obtain ⟨r, hget, -, hshows⟩ := htr.told c resp hev hr
    exact ⟨r, hget, hshows⟩

def sampleStatus (call : Nat) : List Action :=
  .getJobStatus call "j" :: List.replicate 4 (.call call { now := 9 })

def sampleAsked : State × List Event :=
  ((machine sampleConfig).exec (reportsAlone sampleConfig) init
    (sampleSubmit ++ sampleDispatch ++
      sampleReport 1 4 { jobID := "j", workerID := "w", success := true, resultBytes := [7] } ++
      sampleStatus 2)).get (by decide)

theorem status_independent_of_cache_sampleAsked : ∃ resp,
    .jobStatus 2 resp ∈ sampleAsked.2 ∧ resp.status = .done ∧
      ∃ r, sampleAsked.1.mem.store.getJob "j" = some r ∧ r.resultBytes = [7] ∧ resp.Shows r := by
  have hrun : (machine sampleConfig).Run (fun s a => reportsAlone sampleConfig s a = true) init _
      sampleAsked.2 sampleAsked.1 := Lib.Machine.run_of_exec_get (by decide)
  have hev : .jobStatus 2 ⟨"j", .done, [7], "", 0, 0, 0, "w"⟩ ∈ sampleAsked.2 := by decide
  obtain ⟨r, hget, hshows⟩ := (status_independent_of_cache sampleConfig hrun).2 _ _ hev (.inl rfl)
  refine ⟨_, hev, rfl, r, hget, ?_, hshows⟩
  exact hshows.resultBytes.symm

/-- A late failure report for a finished job, and then `GetJobStatus`. -/
def sampleOverwritten : State × List Event :=
  ((machine sampleConfig).exec (fun _ a => a.storeSucceeds) init
    (sampleSubmit ++ sampleDispatch ++
      sampleReport 1 4 { jobID := "j", workerID := "w", success := true, resultBytes := [7] } ++
      sampleReport 2 5 { jobID := "j", workerID := "v", success := false, error := "late" } ++
      sampleStatus 3)).get (by decide)

/-- The response is that of the late report, while the record is as the first one left it. -/
theorem status_overwritten : ∃ as es s resp r,
    (machine sampleConfig).Run (fun _ a => a.storeSucceeds = true) init as es s ∧
      .jobStatus 3 resp ∈ es ∧ s.mem.store.getJob "j" = some r ∧ r.status = .done ∧
      r.resultBytes = [7] ∧ r.error = "" ∧ resp.status = .done ∧ resp.resultBytes = [] ∧
      resp.error = "late" ∧ (jobStatusResponse r 9 none).resultBytes = [7] :=
  ⟨_, sampleOverwritten.2, sampleOverwritten.1, ⟨"j", .done, [], "late", 0, 0, 0, "w"⟩, _,
    Lib.Machine.run_of_exec_get (by decide), by decide, rfl, rfl, rfl, rfl, rfl, rfl, rfl, by decide⟩

end Server

end Minimodal
