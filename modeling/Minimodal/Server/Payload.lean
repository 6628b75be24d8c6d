import Minimodal.Server.Terminal

namespace Minimodal.Server

variable {cfg : Config} {s t : State} {a : Action} {es fs : List Event} {m m' : Mem} {ch : Choice}

def Submitted (es : List Event) (rec : JobRecord) (key : String) : Prop :=
  .submitted rec key (.ok (rec.id, true)) ∈ es

theorem Submitted.mono {rec : JobRecord} {key : String} (h : Submitted es rec key) :
    Submitted (es ++ fs) rec key :=
  List.mem_append_left _ h

structure Carries (rec : JobRecord) (key : String) (r : JobRecord) : Prop where
  id : r.id = rec.id
  idempotencyKey : r.idempotencyKey = key
  createdAt : r.createdAt = rec.createdAt
  functionName : r.functionName = rec.functionName
  payload : r.terminal = false →
    r.functionBytes = rec.functionBytes ∧ r.argsBytes = rec.argsBytes

theorem Carries.evolves {rec r r' : JobRecord} {key : String} (h : Carries rec key r)
    (he : Evolves r r') : Carries rec key r' where
  id := he.id.trans h.id
  idempotencyKey := he.idempotencyKey.trans h.idempotencyKey
  createdAt := he.createdAt.trans h.createdAt
  functionName := he.functionName.trans h.functionName
  payload ht := by
    obtain ⟨ht', hf, ha⟩ := he.payload ht
    obtain ⟨hf', ha'⟩ := h.payload ht'
    exact ⟨hf.trans hf', ha.trans ha'⟩

def Drainer.loaded : Drainer → Option JobRecord
  | .dispatch _ (.pick rec _) | .dispatch _ (.mark rec _ _ _) | .dispatch _ (.dial rec _ _ _)
  | .dispatch _ (.send rec _ _ _) | .dispatch _ (.await rec _ _) | .dispatch _ (.drop rec _ _)
  | .dispatch _ (.revert rec _) => some rec
  | _ => none

@[simp] theorem Drainer.return_loaded (a : Attempt) : (Drainer.return_ a).loaded = none :=
  return_ind a rfl rfl

@[simp] theorem Drainer.retry_loaded (a : Attempt) : (Drainer.retry cfg a).loaded = none :=
  retry_ind a rfl rfl

theorem Drainer.Steps.loaded {d d' : Drainer} (h : Drainer.Steps cfg m ch d m' d' es)
    {rec : JobRecord} (hrec : d'.loaded = some rec) :
    d.loaded = some rec ∨ ∃ j, m.store.jobs.get j = some rec ∧ rec.terminal = false := by
  cases h with
  | load hget ht _ =>
    simp only [Drainer.loaded, Option.some.injEq] at hrec
    exact .inr ⟨_, hrec ▸ hget, hrec ▸ ht⟩
  | pickNone =>
    split at hrec
    · simp at hrec
    · simp [Drainer.loaded] at hrec
  | notified =>
    split at hrec
    · simp [Drainer.loaded] at hrec
    · simp at hrec
  | loadTerminal | markSkip | accepted | backoffStop | recordFailed | stall => simp at hrec
  | pick | mark | dial | dialError | send | sendError | rejected | failed | drop | revert =>
    exact .inl hrec
  | _ => simp [Drainer.loaded] at hrec

def Handler.created : Handler → Option (InvokeFunctionRequest × String)
  | .enqueue req jobID _ | .recordInvocation req jobID | .invoked req jobID true => some (req, jobID)
  | _ => none

def Event.Minor : Event → Prop
  | .submitted _ _ (.ok (_, true)) | .executeTask _ _ _ | .invoked _ _ _ true => False
  | _ => True

/-- The history of the payloads: every record, every record in flight, every request sent
to a worker and every answer given to a client goes back to one submit. -/
structure Traced (es : List Event) (s : State) : Prop where
  born : ∀ rec key, Submitted es rec key →
    ∃ r, s.mem.store.jobs.get rec.id = some r ∧ Carries rec key r
  known : ∀ j r, s.mem.store.jobs.get j = some r → ∃ rec key, rec.id = j ∧ Submitted es rec key
  unique : ∀ rec key rec' key', Submitted es rec key → Submitted es rec' key' →
    rec.id = rec'.id → rec = rec' ∧ key = key'
  loaded : ∀ rec₀, s.drainer.loaded = some rec₀ →
    ∃ rec key, Submitted es rec key ∧ rec₀.executeTaskRequest = rec.executeTaskRequest
  sent : ∀ w address q, .executeTask w address q ∈ es →
    ∃ rec key, Submitted es rec key ∧ q = rec.executeTaskRequest
  built : ∀ c req rec, s.calls c = .submit req rec → ∃ now, rec = builtRecord req rec.id now
  created : ∀ c req j, (s.calls c).created = some (req, j) →
    ∃ now, Submitted es (builtRecord req j now) req.idempotencyKey
  invoked : ∀ c req j, .invoked c req j true ∈ es →
    ∃ now, Submitted es (builtRecord req j now) req.idempotencyKey

theorem Traced.init : Traced [] init where
  born := by simp [Submitted]
  known := by simp [Server.init]
  unique := by simp [Submitted]
  loaded := by simp [Server.init, Drainer.loaded]
  sent := by simp
  built := by simp [Server.init]
  created := by simp [Server.init, Handler.created]
  invoked := by simp

theorem Minor.not_submitted {rec : JobRecord} {key : String} (hf : ∀ ev ∈ fs, ev.Minor)
    (h : Submitted (es ++ fs) rec key) : Submitted es rec key := by
  rcases List.mem_append.mp h with h | h
  · exact h
  · exact (hf _ h).elim

theorem Traced.minor (h : Traced es s) (hkept : Kept s.mem.store t.mem.store)
    (hdom : ∀ j, s.mem.store.jobs.get j = none → t.mem.store.jobs.get j = none)
    (hdrain : ∀ rec, t.drainer.loaded = some rec → s.drainer.loaded = some rec ∨
      ∃ j, s.mem.store.jobs.get j = some rec ∧ rec.terminal = false)
    (hbuilt : ∀ c req rec, t.calls c = .submit req rec → ∃ now, rec = builtRecord req rec.id now)
    (hcreated : ∀ c, (t.calls c).created = none ∨ ∃ d, (t.calls c).created = (s.calls d).created)
    (hf : ∀ ev ∈ fs, ev.Minor) : Traced (es ++ fs) t where
  born rec key hsub := by
    obtain ⟨r, hr, hc⟩ := h.born rec key (Minor.not_submitted hf hsub)
    obtain ⟨r', hr', he⟩ := hkept _ r hr
    exact ⟨r', hr', hc.evolves he⟩
  known j r hr := by
    cases hj : s.mem.store.jobs.get j with
    | none => simp [hdom j hj] at hr
    | some r' =>
      obtain ⟨rec, key, hid, hsub⟩ := h.known j r' hj
      exact ⟨rec, key, hid, hsub.mono⟩
  unique rec key rec' key' hsub hsub' :=
    h.unique rec key rec' key' (Minor.not_submitted hf hsub) (Minor.not_submitted hf hsub')
  loaded rec₀ hrec := by
    rcases hdrain rec₀ hrec with hold | ⟨j, hget, ht⟩
    · obtain ⟨rec, key, hsub, he⟩ := h.loaded rec₀ hold
      exact ⟨rec, key, hsub.mono, he⟩
    · -- loaded from the store just now, so it carries what was submitted
      obtain ⟨rec, key, rfl, hsub⟩ := h.known j rec₀ hget
      obtain ⟨r, hr, hc⟩ := h.born rec key hsub
      rw [hget, Option.some.injEq] at hr
      subst hr
      obtain ⟨hfb, hab⟩ := hc.payload ht
      refine ⟨rec, key, hsub.mono, ?_⟩
      simp [JobRecord.executeTaskRequest, hc.id, hc.functionName, hfb, hab]
  sent w address q hq := by
    rcases List.mem_append.mp hq with hq | hq
    · obtain ⟨rec, key, hsub, he⟩ := h.sent w address q hq
      exact ⟨rec, key, hsub.mono, he⟩
    · exact (hf _ hq).elim
  built := hbuilt
  created c req j hc := by
    rcases hcreated c with hnone | ⟨d, hd⟩
    · simp [hnone] at hc
    · obtain ⟨now, hsub⟩ := h.created d req j (hd ▸ hc)
      exact ⟨now, hsub.mono⟩
  invoked c req j hc := by
    rcases List.mem_append.mp hc with hc | hc
    · obtain ⟨now, hsub⟩ := h.invoked c req j hc
      exact ⟨now, hsub.mono⟩
    · exact (hf _ hc).elim

theorem Traced.event (h : Traced es s) (ev : Event)
    (hns : ∀ rec key, ev ≠ .submitted rec key (.ok (rec.id, true)))
    (hsent : ∀ w address q, ev = .executeTask w address q →
      ∃ rec key, Submitted es rec key ∧ q = rec.executeTaskRequest)
    (hinv : ∀ c req j, ev = .invoked c req j true →
      ∃ now, Submitted es (builtRecord req j now) req.idempotencyKey) :
    Traced (es ++ [ev]) s := by
  have hold : ∀ rec key, Submitted (es ++ [ev]) rec key → Submitted es rec key := by
    intro rec key hsub
    rcases List.mem_append.mp hsub with hsub | hsub
    · exact hsub
    · exact absurd (List.mem_singleton.mp hsub).symm (hns rec key)
  refine ⟨fun rec key hsub => h.born rec key (hold rec key hsub), ?_, ?_, ?_, ?_, h.built, ?_, ?_⟩
  · intro j r hr
    obtain ⟨rec, key, hid, hsub⟩ := h.known j r hr
    exact ⟨rec, key, hid, hsub.mono⟩
  · intro rec key rec' key' hsub hsub'
    exact h.unique rec key rec' key' (hold _ _ hsub) (hold _ _ hsub')
  · intro rec₀ hrec
    obtain ⟨rec, key, hsub, he⟩ := h.loaded rec₀ hrec
    exact ⟨rec, key, hsub.mono, he⟩
  · intro w address q hq
    rcases List.mem_append.mp hq with hq | hq
    · obtain ⟨rec, key, hsub, he⟩ := h.sent w address q hq
      exact ⟨rec, key, hsub.mono, he⟩
    · obtain ⟨rec, key, hsub, he⟩ := hsent w address q (List.mem_singleton.mp hq).symm
      exact ⟨rec, key, hsub.mono, he⟩
  · intro c req j hc
    obtain ⟨now, hsub⟩ := h.created c req j hc
    exact ⟨now, hsub.mono⟩
  · intro c req j hc
    rcases List.mem_append.mp hc with hc | hc
    · obtain ⟨now, hsub⟩ := h.invoked c req j hc
      exact ⟨now, hsub.mono⟩
    · obtain ⟨now, hsub⟩ := hinv c req j (List.mem_singleton.mp hc).symm
      exact ⟨now, hsub.mono⟩

theorem Traced.submit (h : Traced es s) (hi : Inv s) {c : Nat} {req : InvokeFunctionRequest}
    {rec : JobRecord} {store : BoltStore} {now : Nat} (hc : s.calls c = .submit req rec)
    {jobID : String} (hres : s.mem.store.submitWithIdempotency rec req.idempotencyKey now =
      (store, .ok (jobID, true))) :
    Traced (es ++ [Event.submitted rec req.idempotencyKey (.ok (jobID, true))])
      ({ s with mem.store := store }.setCall c (.enqueue req jobID .check)) := by
  obtain ⟨hnb, hid, hnone⟩ := hi.submitting c req rec hc
  obtain ⟨now₀, hbuilt⟩ := h.built c req rec hc
  have hkept := (submit_sound hnb hnone hi.sound req.idempotencyKey now).2
  obtain ⟨hj, hget⟩ := BoltStore.submitTx_created hres
  simp only [JobRecord.stamp_id] at hj hget
  subst hj
  have hother : ∀ j, j ≠ rec.id → store.jobs.get j = s.mem.store.jobs.get j := by
    intro j hj
    have hsame := submit_get s.mem.store rec req.idempotencyKey now j
    rw [hres] at hsame
    exact hsame.resolve_right fun ⟨he, _⟩ => hj he
  rw [hres] at hkept
  have hfresh : ∀ rec' key', Submitted es rec' key' → rec'.id ≠ rec.id := by
    intro rec' key' hsub he
    obtain ⟨r, hr, -⟩ := h.born rec' key' hsub
    rw [he, hnone] at hr
    simp at hr
  have hcases : ∀ rec' key',
      Submitted (es ++ [Event.submitted rec req.idempotencyKey (.ok (rec.id, true))]) rec' key' →
      Submitted es rec' key' ∨ rec' = rec ∧ key' = req.idempotencyKey := by
    intro rec' key' hsub
    rcases List.mem_append.mp hsub with hsub | hsub
    · exact .inl hsub
    · simp only [List.mem_singleton, Event.submitted.injEq] at hsub
      exact .inr ⟨hsub.1, hsub.2.1⟩
  have hnew : Submitted (es ++ [Event.submitted rec req.idempotencyKey (.ok (rec.id, true))]) rec
      req.idempotencyKey := List.mem_append_right _ (by simp)
  refine ⟨?_, ?_, ?_, ?_, ?_, ?_, ?_, ?_⟩
  · intro rec' key' hsub
    rcases hcases rec' key' hsub with hsub | ⟨rfl, rfl⟩
    · obtain ⟨r, hr, hcar⟩ := h.born rec' key' hsub
      exact ⟨r, (hother _ (hfresh rec' key' hsub)).trans hr, hcar⟩
    · refine ⟨_, hget, ⟨rfl, rfl, ?_, rfl, fun _ => ⟨rfl, rfl⟩⟩⟩
      exact JobRecord.stamp_dated hnb.dated now
  · intro j r hr
    by_cases hj : j = rec.id
    · exact ⟨rec, _, hj.symm, hnew⟩
    · obtain ⟨rec', key', hid', hsub⟩ := h.known j r ((hother j hj).symm.trans hr)
      exact ⟨rec', key', hid', hsub.mono⟩
  · intro r₁ k₁ r₂ k₂ h₁ h₂ he
    rcases hcases r₁ k₁ h₁ with hold₁ | ⟨hr₁, hk₁⟩
    · rcases hcases r₂ k₂ h₂ with hold₂ | ⟨hr₂, -⟩
      · exact h.unique r₁ k₁ r₂ k₂ hold₁ hold₂ he
      · exact absurd (he.trans (by rw [hr₂])) (hfresh r₁ k₁ hold₁)
    · rcases hcases r₂ k₂ h₂ with hold₂ | ⟨hr₂, hk₂⟩
      · exact absurd (he.symm.trans (by rw [hr₁])) (hfresh r₂ k₂ hold₂)
      · exact ⟨hr₁.trans hr₂.symm, hk₁.trans hk₂.symm⟩
  · intro rec₀ hrec
    obtain ⟨rec', key', hsub, he⟩ := h.loaded rec₀ hrec
    exact ⟨rec', key', hsub.mono, he⟩
  · intro w address q hq
    obtain ⟨rec', key', hsub, he⟩ := h.sent w address q (by simpa using hq)
    exact ⟨rec', key', hsub.mono, he⟩
  · intro d req' rec' hd
    rw [setCall_calls] at hd
    split at hd
    · simp at hd
    · exact h.built d req' rec' hd
  · intro d req' j hd
    rw [setCall_calls] at hd
    split at hd
    · simp only [Handler.created, Option.some.injEq, Prod.mk.injEq] at hd
      obtain ⟨rfl, rfl⟩ := hd
      exact ⟨now₀, hbuilt ▸ hnew⟩
    · obtain ⟨now', hsub⟩ := h.created d req' j hd
      exact ⟨now', hsub.mono⟩
  · intro d req' j hd
    obtain ⟨now', hsub⟩ := h.invoked d req' j (by simpa using hd)
    exact ⟨now', hsub.mono⟩

theorem Main.Steps.minor {pc pc' : Main} (h : Main.Steps m ch pc m' pc' es) :
    ∀ ev ∈ es, ev.Minor := by
  cases h <;> simp [Event.Minor]

theorem Detector.Steps.minor {d d' : Detector} (h : Detector.Steps cfg m ch d m' d' es) :
    ∀ ev ∈ es, ev.Minor := by
  cases h <;> simp [Event.Minor]

theorem Drainer.Steps.minor {d d' : Drainer} (h : Drainer.Steps cfg m ch d m' d' es) :
    (∀ ev ∈ es, ev.Minor) ∨
      ∃ w address rec, es = [.executeTask w address rec.executeTaskRequest] ∧
        d.loaded = some rec := by
  cases h with
  | send => exact .inr ⟨_, _, _, rfl, rfl⟩
  | _ => exact .inl (by simp [Event.Minor])

theorem Event.minor_of_quiet (ev : Event) (h : ev.Quiet = true) : ev.Minor := by
  cases ev <;> simp_all [Event.Quiet, Event.Minor]

theorem Handler.created_of_quiet {h : Handler} (hq : h.Quiet = true) : h.created = none := by
  cases h <;> simp_all [Handler.Quiet, Handler.created]

theorem Handler.Steps.minor {c : Nat} {h h' : Handler}
    (hst : Handler.Steps m ch c h m' h' es) (hns : ∀ req rec, h ≠ .submit req rec)
    (hna : ∀ req j created, h ≠ .invoked req j created) :
    (∀ ev ∈ es, ev.Minor) ∧ (h'.created = none ∨ h'.created = h.created) := by
  cases hst with
  | created | existing | submitError => exact absurd rfl (hns _ _)
  | invoked => exact absurd rfl (hna _ _ _)
  | quiet _ hq _ hes => exact ⟨fun ev hev => ev.minor_of_quiet (hes ev hev), .inl (created_of_quiet hq)⟩
  | check | checkSkip | send | recordInvocation => exact ⟨by simp, .inr rfl⟩
  | _ => exact ⟨by simp [Event.Minor], .inl rfl⟩

theorem Traced.setCall {s' : State} (h : Traced es s') (c : Nat) {h' : Handler}
    (hns : ∀ req rec, h' ≠ .submit req rec)
    (hcr : h'.created = none ∨ h'.created = (s'.calls c).created) (hf : ∀ ev ∈ fs, ev.Minor) :
    Traced (es ++ fs) (s'.setCall c h') := by
  refine h.minor (.refl _) (fun _ hj => hj) (fun _ hd => .inl hd) ?_ ?_ hf
  · intro d req rec hd
    rw [setCall_calls] at hd
    split at hd
    · exact absurd hd (hns req rec)
    · exact h.built d req rec hd
  · intro d
    rw [setCall_calls]
    split
    · exact hcr.imp_right fun he => ⟨c, he⟩
    · exact .inr ⟨d, rfl⟩

theorem Traced.call (h : Traced es s) (hi : Inv s) {c : Nat} {stmt : Code Handler}
    {r : stmt.op.Res} (hcode : Handler.code c (s.calls c) = some stmt)
    (hp : perform cfg s.mem ch stmt.op = some (m, r, fs)) :
    Traced (es ++ fs) ({ s with mem := m }.setCall c (stmt.next r)) := by
  have hst := Handler.steps hcode hp
  have hns' := hst.not_submit
  by_cases hsub : ∃ req rec, s.calls c = .submit req rec
  · obtain ⟨req, rec, hc⟩ := hsub
    generalize stmt.next r = h' at hst hns' ⊢
    rw [hc] at hst
    cases hst with
    | created _ hres => exact h.submit hi hc hres
    | existing _ hres =>
      have hstore := BoltStore.submitTx_existing (congrArg Prod.snd hres)
      obtain rfl := (congrArg Prod.fst hres).symm.trans hstore
      exact h.setCall c hns' (.inl rfl) (by simp [Event.Minor])
    | submitError => exact h.setCall c hns' (.inl rfl) (by simp [Event.Minor])
    | quiet hq _ _ _ => simp [Handler.Quiet] at hq
  by_cases hans : ∃ req j created, s.calls c = .invoked req j created
  · obtain ⟨req, j, created, hc⟩ := hans
    generalize stmt.next r = h' at hst hns' ⊢
    rw [hc] at hst
    cases hst with
    | invoked =>
      have hev : Traced (es ++ [Event.invoked c req j created]) s := by
        refine h.event _ (by simp) (by simp) ?_
        intro c' req' j' he
        simp only [Event.invoked.injEq] at he
        obtain ⟨rfl, rfl, rfl, rfl⟩ := he
        exact h.created c req j (by simp [hc, Handler.created])
      have hidle : Traced ((es ++ [Event.invoked c req j created]) ++ []) (s.setCall c .idle) :=
        hev.setCall c (by simp) (.inl rfl) (by simp)
      rwa [List.append_nil] at hidle
    | quiet hq _ _ _ => simp [Handler.Quiet] at hq
  · have hns : ∀ req rec, s.calls c ≠ .submit req rec := fun req rec he => hsub ⟨req, rec, he⟩
    have hop := Handler.plain hns hcode
    obtain ⟨hminor, hcr⟩ := hst.minor hns fun req j created he => hans ⟨req, j, created, he⟩
    have hmem : Traced (es ++ []) { s with mem := m } :=
      h.minor (perform_sound hop hi.sound hp).2 (fun _ hj => perform_domain hop hp hj)
        (fun _ hd => .inl hd) h.built (fun d => .inr ⟨d, rfl⟩) (by simp)
    rw [List.append_nil] at hmem
    exact hmem.setCall c hns' hcr hminor

theorem Traced.step (h : Traced es s) (hi : Inv s) (hst : Stepped cfg s a t fs) :
    Traced (es ++ fs) t := by
  have hkept := (hi.step hst).2
  have hsame : ∀ c, (s.calls c).created = none ∨ ∃ d, (s.calls c).created = (s.calls d).created :=
    fun c => .inr ⟨c, rfl⟩
  cases hst with
  | start | crash =>
    exact h.minor hkept (fun _ hj => hj) (by simp [State.lose, Drainer.loaded])
      (by simp [State.lose]) (by simp [State.lose, Handler.created]) (by simp [Event.Minor])
  | beginShutdown | cancel | close | registerWorker | heartbeat =>
    exact h.minor hkept (fun _ hj => hj) (fun _ hd => .inl hd) h.built hsame
      (by simp [Event.Minor])
  | main hcode hp =>
    exact h.minor hkept (fun _ hj => perform_domain (Main.plain hcode) hp hj)
      (fun _ hd => .inl hd) h.built hsame (Main.steps hcode hp).minor
  | detector _ hcode hp =>
    exact h.minor hkept (fun _ hj => perform_domain (Detector.plain hcode) hp hj)
      (fun _ hd => .inl hd) h.built hsame (Detector.steps hcode hp).minor
  | drainer _ hcode hp =>
    have hst := Drainer.steps hcode hp
    have hdom := fun j hj => perform_domain (j := j) (Drainer.plain hi.drainer hcode) hp hj
    rcases hst.minor with hminor | ⟨w, address, rec, rfl, hrec⟩
    · exact h.minor hkept hdom (fun _ hd => hst.loaded hd) h.built hsame hminor
    · have hmove : Traced (es ++ []) _ :=
        h.minor hkept hdom (fun _ hd => hst.loaded hd) h.built hsame (by simp)
      rw [List.append_nil] at hmove
      refine hmove.event _ (by simp) ?_ (by simp)
      intro w' address' q hq
      obtain ⟨rec', key, hsub, he⟩ := h.loaded rec hrec
      simp only [Event.executeTask.injEq] at hq
      exact ⟨rec', key, hsub, hq.2.2.symm.trans he⟩
  | @call c ch stmt mem r es' hcode hp =>
    exact h.call hi hcode hp
  | @invokeFunction c req uuid now hmain hidle hnew =>
    refine h.minor hkept (fun _ hj => hj) (fun _ hd => .inl hd) ?_ ?_ (by simp)
    · intro d req' rec' hd
      rw [setCall_calls] at hd
      split at hd
      · obtain ⟨rfl, rfl, -⟩ := Handler.invokeFunction_submit hd
        exact ⟨now, rfl⟩
      · exact h.built d req' rec' hd
    · intro d
      rw [setCall_calls]
      split
      · left
        simp only [Handler.invokeFunction]
        repeat' split
        all_goals rfl
      · exact .inr ⟨d, rfl⟩
  | @accept a c h' hmain hidle hh =>
    refine h.minor hkept (fun _ hj => hj) (fun _ hd => .inl hd) ?_ ?_ (by simp)
    · intro d req' rec' hd
      rw [setCall_calls] at hd
      split at hd
      · exact absurd hd (hh.not_submit req' rec')
      · exact h.built d req' rec' hd
    · intro d
      rw [setCall_calls]
      split
      · left
        cases h' <;> first | rfl | exact hh.elim
      · exact .inr ⟨d, rfl⟩

theorem traced_of_run {as : List Action}
    (h : (machine cfg).Run Lib.Machine.Always init as es s) : Inv s ∧ Traced es s :=
  h.invariant_trace (P := fun es s => Inv s ∧ Traced es s) ⟨.init, .init⟩
    fun _ _ _ _ _ hp _ hst =>
      ⟨(hp.1.step (stepped_of_step hst)).1, hp.2.step hp.1 (stepped_of_step hst)⟩

/-- A job that `InvokeFunction` has acknowledged stays in the store across crashes, keeps
what was submitted until it is finished, and every request sent for it carries the payload
submitted; the missing-payload branch of `Dispatch` is never taken. -/
theorem acknowledged_durable (cfg : Config) {as : List Action} {es : List Event} {s : State}
    (h : (machine cfg).Run Lib.Machine.Always init as es s) :
    (∀ c req j, .invoked c req j true ∈ es →
      ∃ now, .submitted (builtRecord req j now) req.idempotencyKey (.ok (j, true)) ∈ es ∧
        (∃ r, s.mem.store.getJob j = some r ∧
          (r.status ≠ .done → r.status ≠ .failed →
            r.id = j ∧ r.functionName = req.functionName ∧
            r.functionBytes = req.functionBytes ∧ r.argsBytes = req.argsBytes ∧
            r.idempotencyKey = req.idempotencyKey ∧ r.createdAt = some now ∧
            (r.workerID = "" ↔ r.status = .pending))) ∧
        ∀ w address q, .executeTask w address q ∈ es → q.jobID = j →
          q.functionBytes = req.functionBytes ∧ q.argsBytes = req.argsBytes ∧
            q.functionName = req.functionName) ∧
      ∀ a, s.drainer ≠ .dispatch a .missingPayload := by
  obtain ⟨hi, ht⟩ := traced_of_run h
  refine ⟨?_, ?_⟩
  · intro c req j hinv
    obtain ⟨now, hsub⟩ := ht.invoked c req j hinv
    refine ⟨now, hsub, ?_, ?_⟩
    · obtain ⟨r, hget, hc⟩ := ht.born _ _ hsub
      refine ⟨r, hget, fun hdone hfailed => ?_⟩
      have hrt : r.terminal = false := by simp [JobRecord.terminal, hdone, hfailed]
      obtain ⟨hf, ha⟩ := hc.payload hrt
      exact ⟨hc.id, hc.functionName, hf, ha, hc.idempotencyKey, hc.createdAt,
        (hi.sound j r hget).assigned hrt⟩
    · intro w address q hq hj
      obtain ⟨rec, key, hsub', rfl⟩ := ht.sent w address q hq
      -- one submit per id, so the request was built from this one
      obtain ⟨rfl, -⟩ := ht.unique _ _ _ _ hsub' hsub hj
      exact ⟨rfl, rfl, rfl⟩
  · intro a ha
    have hok := hi.drainer
    rw [ha] at hok
    exact hok

def sampleResent : State × List Event :=
  ((machine sampleConfig).exec (fun _ _ => true) init
    (sampleSubmit ++ sampleDispatch ++
      ([.crash, .start, .main {}, .main {}, .main {}, .main {},
        .registerWorker ⟨"v", "host:2", 1⟩ 9, .drainer {}, .drainer {}, .drainer { order := ["v"] },
        .drainer { now := 10 }, .drainer {}, .drainer {}] : List Action))).get (by decide)

theorem acknowledged_durable_sampleResent :
    .invoked 0 { functionBytes := [1], argsBytes := [2], functionName := "f" } "j" true ∈
        sampleResent.2 ∧
      (∃ r, sampleResent.1.mem.store.getJob "j" = some r ∧ r.status = .running ∧
        r.workerID = "v" ∧ r.functionBytes = [1]) ∧
      .executeTask "v" "host:2" ⟨"j", [1], [2], "f"⟩ ∈ sampleResent.2 ∧
      ∀ w address q, .executeTask w address q ∈ sampleResent.2 → q.jobID = "j" →
        q.functionBytes = [1] ∧ q.argsBytes = [2] ∧ q.functionName = "f" := by
  have hrun : (machine sampleConfig).Run Lib.Machine.Always init _ sampleResent.2 sampleResent.1 :=
    (Lib.Machine.run_of_exec_get (by decide)).mono fun _ _ _ => trivial
  have hinv : .invoked 0 { functionBytes := [1], argsBytes := [2], functionName := "f" } "j" true ∈
      sampleResent.2 := by decide
  obtain ⟨_, _, _, hsent⟩ := (acknowledged_durable sampleConfig hrun).1 _ _ _ hinv
  exact ⟨hinv, ⟨_, rfl, rfl, rfl, rfl⟩, by decide, hsent⟩

end Minimodal.Server
