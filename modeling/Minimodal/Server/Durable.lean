import Minimodal.Server.Evolve
import Minimodal.Server.Step

namespace Minimodal.Server

variable {cfg : Config} {s t : State} {a : Action} {es : List Event} {m m' : Mem} {ch : Choice}

/-- The drainer never reaches the missing-payload branch and never picks the empty id. -/
def Drainer.Ok : Drainer → Prop
  | .dispatch _ .missingPayload => False
  | .dispatch _ (.mark _ _ workerID _) => workerID ≠ ""
  | _ => True

@[simp] theorem Drainer.return_ok (a : Attempt) : (Drainer.return_ a).Ok :=
  return_ind a trivial trivial

@[simp] theorem Drainer.retry_ok (a : Attempt) : (Drainer.retry cfg a).Ok :=
  retry_ind a trivial trivial

theorem Drainer.Steps.ok {d d' : Drainer} (h : Drainer.Steps cfg m ch d m' d' es)
    (hs : m.store.Sound) (hd : d.Ok) : d'.Ok := by
  cases h with
  | loadMissing hget ht hempty => exact (hs _ _ hget).loaded ht hempty
  | pick hget halive hex =>
    have hid := Lib.Bucket.admitted_of_get hget
    simpa [validWorkerID, Ok] using hid
  | pickNone =>
    split
    · exact retry_ok _
    · exact trivial
  | notified =>
    split
    · exact trivial
    · exact return_ok _
  | stall => exact retry_ok _
  | loadTerminal | markSkip | accepted | backoffStop | recordFailed => exact return_ok _
  | _ => exact trivial

theorem Drainer.plain {d : Drainer} {stmt : Code Drainer} (hd : d.Ok)
    (hcode : Drainer.code cfg d = some stmt) : stmt.op.Plain := by
  cases d with
  | dispatch a pc =>
    simp only [code, Option.some.injEq] at hcode
    subst hcode
    cases pc <;> exact hd
  | notify a exhausted pc =>
    simp only [code, Option.some.injEq] at hcode
    subst hcode
    cases pc <;> exact trivial
  | stopped => simp [code] at hcode
  | _ =>
    simp only [code, Option.some.injEq] at hcode
    subst hcode
    exact trivial

theorem Main.plain {pc : Main} {stmt : Code Main} (hcode : Main.code pc = some stmt) :
    stmt.op.Plain := by
  cases pc with
  | down | serving => simp [code] at hcode
  | enqueue jobID pc jobs =>
    simp only [code, Option.some.injEq] at hcode
    subst hcode
    cases pc <;> exact trivial
  | _ =>
    simp only [code, Option.some.injEq] at hcode
    subst hcode
    exact trivial

theorem Detector.plain {d : Detector} {stmt : Code Detector}
    (hcode : Detector.code cfg d = some stmt) : stmt.op.Plain := by
  cases d with
  | owed dead =>
    cases dead <;>
    · simp only [code, Option.some.injEq] at hcode
      subst hcode
      exact trivial
  | reassign workerID job jobs dead =>
    simp only [code, Option.some.injEq] at hcode
    subst hcode
    exact trivial
  | enqueue workerID jobID pc jobs dead =>
    simp only [code, Option.some.injEq] at hcode
    subst hcode
    cases pc <;> exact trivial
  | notify workerID jobID pc jobs dead =>
    simp only [code, Option.some.injEq] at hcode
    subst hcode
    cases pc <;> exact trivial
  | stopped => simp [code] at hcode

theorem Handler.plain {call : Nat} {h : Handler} {stmt : Code Handler}
    (hns : ∀ req rec, h ≠ .submit req rec) (hcode : Handler.code call h = some stmt) :
    stmt.op.Plain := by
  cases h with
  | idle => simp [code] at hcode
  | submit req rec => exact absurd rfl (hns req rec)
  | enqueue req jobID pc =>
    simp only [code, Option.some.injEq] at hcode
    subst hcode
    cases pc <;> exact trivial
  | notify req pc =>
    simp only [code, Option.some.injEq] at hcode
    subst hcode
    cases pc <;> exact trivial
  | count req =>
    simp only [code] at hcode
    split at hcode <;>
    · simp only [Option.some.injEq] at hcode
      subst hcode
      exact trivial
  | _ =>
    simp only [code, Option.some.injEq] at hcode
    subst hcode
    exact trivial

theorem Handler.Steps.not_submit {call : Nat} {h h' : Handler}
    (hst : Handler.Steps m ch call h m' h' es) (req : InvokeFunctionRequest) (rec : JobRecord) :
    h' ≠ .submit req rec := by
  cases hst with
  | quiet _ hq _ _ =>
    rintro rfl
    simp [Handler.Quiet] at hq
  | _ => simp

def builtRecord (req : InvokeFunctionRequest) (uuid : String) (now : Nat) : JobRecord where
  id := uuid
  status := .pending
  functionName := req.functionName
  functionBytes := req.functionBytes
  argsBytes := req.argsBytes
  createdAt := some now

theorem Handler.invokeFunction_submit {req req' : InvokeFunctionRequest} {uuid : String}
    {now : Nat} {rec : JobRecord} (h : invokeFunction cfg req uuid now = .submit req' rec) :
    req' = req ∧ rec = builtRecord req uuid now ∧ req.functionBytes ≠ [] := by
  simp only [invokeFunction] at h
  split at h
  · simp at h
  · rename_i hne
    split at h
    · simp at h
    · simp only [Handler.submit.injEq] at h
      exact ⟨h.1.symm, h.2.symm, fun he => hne (by simp [he])⟩

/-- What holds in every state: records are sound and were issued, the drainer is where
it may be, a record on its way into the store is new, and no call is served before the
recovery is over. -/
structure Inv (s : State) : Prop where
  sound : s.mem.store.Sound
  issued : ∀ j r, s.mem.store.jobs.get j = some r → j ∈ s.uuids
  drainer : s.drainer.Ok
  submitting : ∀ c req rec, s.calls c = .submit req rec →
    rec.Newborn ∧ rec.id ∈ s.uuids ∧ s.mem.store.jobs.get rec.id = none
  distinct : ∀ c d req rec req' rec', s.calls c = .submit req rec →
    s.calls d = .submit req' rec' → rec.id = rec'.id → c = d
  booting : s.main ≠ .serving → ∀ c, s.calls c = .idle

theorem Inv.init : Inv init where
  sound := by
    intro j r h
    simp [Server.init] at h
  issued := by
    intro j r h
    simp [Server.init] at h
  drainer := trivial
  submitting := by simp [Server.init]
  distinct := by simp [Server.init]
  booting _ _ := rfl

theorem Inv.lose (hi : Inv s) : Inv s.lose where
  sound := hi.sound
  issued := hi.issued
  drainer := trivial
  submitting := by simp [State.lose]
  distinct := by simp [State.lose]
  booting _ _ := rfl

theorem Inv.memory (hi : Inv s) {op : Op} {r : op.Res} (hop : op.Plain)
    (hp : perform cfg s.mem ch op = some (m, r, es)) {drainer : Drainer} (hd : drainer.Ok)
    {main : Main} (hmain : main ≠ .serving → ∀ c, s.calls c = .idle) (detector : Detector) :
    Inv { s with mem := m, drainer, main, detector } := by
  refine ⟨(perform_sound hop hi.sound hp).1, ?_, hd, ?_, hi.distinct, hmain⟩
  · intro j q hq
    cases hj : s.mem.store.jobs.get j with
    | none => simp [perform_domain hop hp hj] at hq
    | some q' => exact hi.issued j q' hj
  · intro c req rec hc
    obtain ⟨hnb, hid, hnone⟩ := hi.submitting c req rec hc
    exact ⟨hnb, hid, perform_domain hop hp hnone⟩

theorem Inv.setCall (hi : Inv s) (hmain : s.main = .serving) (c : Nat) {h : Handler}
    (hns : ∀ req rec, h ≠ .submit req rec) : Inv (s.setCall c h) where
  sound := hi.sound
  issued := hi.issued
  drainer := hi.drainer
  submitting := by
    intro d req rec hd
    rw [setCall_calls] at hd
    split at hd
    · exact absurd hd (hns req rec)
    · exact hi.submitting d req rec hd
  distinct := by
    intro d d' req rec req' rec' hd hd'
    rw [setCall_calls] at hd hd'
    split at hd
    · exact absurd hd (hns req rec)
    · split at hd'
      · exact absurd hd' (hns req' rec')
      · exact hi.distinct d d' req rec req' rec' hd hd'
  booting hne := absurd hmain hne

theorem Inv.serving (hi : Inv s) {c : Nat} (hc : s.calls c ≠ .idle) : s.main = .serving := by
  by_contra hne
  exact hc (hi.booting hne c)

theorem Inv.serving_of_code (hi : Inv s) {c : Nat} {stmt : Code Handler}
    (hcode : Handler.code c (s.calls c) = some stmt) : s.main = .serving := by
  refine hi.serving (c := c) ?_
  intro he
  simp [he, Handler.code] at hcode

theorem Inv.submit (hi : Inv s) {c : Nat} {req : InvokeFunctionRequest} {rec : JobRecord}
    (hc : s.calls c = .submit req rec) (key : String) (now : Nat) {h : Handler}
    (hns : ∀ req rec, h ≠ .submit req rec) :
    Inv ({ s with mem.store := (s.mem.store.submitWithIdempotency rec key now).1 }.setCall c h) := by
  obtain ⟨hnb, hid, hnone⟩ := hi.submitting c req rec hc
  have hsound := submit_sound hnb hnone hi.sound key now
  have hmain : s.main = .serving := hi.serving (c := c) (by simp [hc])
  refine ⟨hsound.1, ?_, hi.drainer, ?_, ?_, fun hne => absurd hmain hne⟩
  · intro j r hr
    rcases submit_get s.mem.store rec key now j with heq | ⟨rfl, -, -⟩
    · exact hi.issued j r (heq ▸ hr)
    · exact hid
  · intro d req' rec' hd
    rw [setCall_calls] at hd
    split at hd
    · exact absurd hd (hns req' rec')
    · rename_i hne
      obtain ⟨hnb', hid', hnone'⟩ := hi.submitting d req' rec' hd
      refine ⟨hnb', hid', ?_⟩
      rcases submit_get s.mem.store rec key now rec'.id with heq | ⟨he, -, -⟩
      · exact heq.trans hnone'
      · exact absurd (hi.distinct d c req' rec' req rec hd hc he) hne
  · intro d d' req' rec' req'' rec'' hd hd'
    rw [setCall_calls] at hd hd'
    split at hd
    · exact absurd hd (hns req' rec')
    · split at hd'
      · exact absurd hd' (hns req'' rec'')
      · exact hi.distinct d d' req' rec' req'' rec'' hd hd'

theorem Inv.invoke (hi : Inv s) {c : Nat} {req : InvokeFunctionRequest} {uuid : String} {now : Nat}
    (hmain : s.main = .serving) (hnew : uuid ∉ s.uuids) :
    Inv ({ s with uuids := uuid :: s.uuids }.setCall c (.invokeFunction cfg req uuid now)) := by
  have hbuilt : ∀ d req' rec', d = c →
      Handler.invokeFunction cfg req uuid now = .submit req' rec' →
      rec' = builtRecord req uuid now ∧ req.functionBytes ≠ [] :=
    fun d req' rec' _ hsub => (Handler.invokeFunction_submit hsub).2
  refine ⟨hi.sound, fun j r hr => List.mem_cons_of_mem _ (hi.issued j r hr), hi.drainer, ?_, ?_,
    fun hne => absurd hmain hne⟩
  · intro d req' rec' hd
    rw [setCall_calls] at hd
    split at hd
    · rename_i hdc
      obtain ⟨rfl, hne⟩ := hbuilt d req' rec' hdc hd
      refine ⟨⟨rfl, rfl, rfl, hne, rfl⟩, by simp [builtRecord], ?_⟩
      cases hget : s.mem.store.jobs.get uuid with
      | none => exact hget
      | some r => exact absurd (hi.issued uuid r hget) hnew
    · obtain ⟨hnb, hid, hnone⟩ := hi.submitting d req' rec' hd
      exact ⟨hnb, List.mem_cons_of_mem _ hid, hnone⟩
  · intro d d' req' rec' req'' rec'' hd hd' he
    rw [setCall_calls] at hd hd'
    split at hd
    · rename_i hdc
      obtain ⟨rfl, -⟩ := hbuilt d req' rec' hdc hd
      split at hd'
      · rename_i hdc'
        rw [hdc, hdc']
      · have hid := (hi.submitting d' req'' rec'' hd').2.1
        rw [← he] at hid
        exact absurd hid hnew
    · split at hd'
      · rename_i hdc'
        obtain ⟨rfl, -⟩ := hbuilt d' req'' rec'' hdc' hd'
        have hid := (hi.submitting d req' rec' hd).2.1
        rw [he] at hid
        exact absurd hid hnew
      · exact hi.distinct d d' req' rec' req'' rec'' hd hd' he

theorem Handler.Entry.not_submit {h : Handler} (hh : h.Entry) (req : InvokeFunctionRequest)
    (rec : JobRecord) : h ≠ .submit req rec := by
  rintro rfl
  exact hh

theorem Stepped.submitting {P : JobRecord → Prop} (h : Stepped cfg s a t es)
    (hbuilt : ∀ req uuid now, req.functionBytes ≠ [] → P (builtRecord req uuid now))
    (hs : ∀ c req rec, s.calls c = .submit req rec → P rec) :
    ∀ c req rec, t.calls c = .submit req rec → P rec := by
  intro c req rec hc
  cases h with
  | start | crash => simp [State.lose] at hc
  | call hcode hp =>
    rw [setCall_calls] at hc
    split at hc
    · exact absurd hc ((Handler.steps hcode hp).not_submit req rec)
    · exact hs c req rec hc
  | invokeFunction =>
    rw [setCall_calls] at hc
    split at hc
    · obtain ⟨-, rfl, hne⟩ := Handler.invokeFunction_submit hc
      exact hbuilt _ _ _ hne
    · exact hs c req rec hc
  | accept _ _ hh =>
    rw [setCall_calls] at hc
    split at hc
    · exact absurd hc (hh.not_submit req rec)
    · exact hs c req rec hc
  | _ => exact hs c req rec hc

theorem builtRecord_newborn (req : InvokeFunctionRequest) (uuid : String) (now : Nat)
    (hne : req.functionBytes ≠ []) : (builtRecord req uuid now).Newborn :=
  ⟨rfl, rfl, rfl, hne, rfl⟩

theorem Inv.newborn (hi : Inv s) (c : Nat) (req : InvokeFunctionRequest) (rec : JobRecord)
    (hc : s.calls c = .submit req rec) : rec.Newborn :=
  (hi.submitting c req rec hc).1

theorem Inv.step (hi : Inv s) (h : Stepped cfg s a t es) :
    Inv t ∧ Kept s.mem.store t.mem.store := by
  cases h with
  | start _ =>
    have hl := hi.lose
    exact ⟨⟨hl.sound, hl.issued, hl.drainer, hl.submitting, hl.distinct, fun _ _ => rfl⟩, .refl _⟩
  | crash => exact ⟨hi.lose, .refl _⟩
  | beginShutdown _ | cancel _ | close _ | registerWorker _ | heartbeat _ =>
    exact ⟨⟨hi.sound, hi.issued, hi.drainer, hi.submitting, hi.distinct, hi.booting⟩, .refl _⟩
  | main hcode hp =>
    have hop := Main.plain hcode
    have hne : s.main ≠ .serving := by
      intro he
      simp [he, Main.code] at hcode
    exact ⟨hi.memory hop hp hi.drainer (fun _ => hi.booting hne) _, (perform_sound hop hi.sound hp).2⟩
  | drainer _ hcode hp =>
    have hop := Drainer.plain hi.drainer hcode
    have hd := (Drainer.steps hcode hp).ok hi.sound hi.drainer
    exact ⟨hi.memory hop hp hd hi.booting _, (perform_sound hop hi.sound hp).2⟩
  | detector _ hcode hp =>
    have hop := Detector.plain hcode
    exact ⟨hi.memory hop hp hi.drainer hi.booting _, (perform_sound hop hi.sound hp).2⟩
  | @call c ch stmt mem r es hcode hp =>
    have hst := Handler.steps hcode hp
    have hmain := hi.serving_of_code hcode
    by_cases hsub : ∃ req rec, s.calls c = .submit req rec
    · obtain ⟨req, rec, hc⟩ := hsub
      obtain ⟨hnb, -, hnone⟩ := hi.submitting c req rec hc
      have hkept := (submit_sound hnb hnone hi.sound req.idempotencyKey ch.now).2
      have hinv := fun h' hns => hi.submit hc req.idempotencyKey ch.now (h := h') hns
      generalize stmt.next r = h' at hst ⊢
      rw [hc] at hst
      cases hst with
      | created _ hres | existing _ hres =>
        rw [hres] at hkept hinv
        exact ⟨hinv _ (by simp), hkept⟩
      | submitError => exact ⟨hi.setCall hmain c (by simp), .refl _⟩
      | quiet hq _ _ _ => simp [Handler.Quiet] at hq
    · have hop := Handler.plain (fun req rec he => hsub ⟨req, rec, he⟩) hcode
      exact ⟨(hi.memory hop hp hi.drainer hi.booting s.detector).setCall hmain c hst.not_submit,
        (perform_sound hop hi.sound hp).2⟩
  | invokeFunction hmain _ hnew => exact ⟨hi.invoke hmain hnew, .refl _⟩
  | accept hmain _ hh => exact ⟨hi.setCall hmain _ hh.not_submit, .refl _⟩

theorem inv_of_run {as : List Action} (h : (machine cfg).Run Lib.Machine.Always init as es s) :
    Inv s :=
  h.invariant (P := Inv) .init fun _ _ _ _ hi _ hst => (hi.step (stepped_of_step hst)).1

theorem Inv.kept_of_run (hi : Inv s) {ok : State → Action → Prop} {as : List Action}
    (h : (machine cfg).Run ok s as es t) : Inv t ∧ Kept s.mem.store t.mem.store := by
  refine h.invariant (P := fun t => Inv t ∧ Kept s.mem.store t.mem.store) ⟨hi, .refl _⟩ ?_
  intro u a v e hu _ hst
  obtain ⟨hv, hk⟩ := hu.1.step (stepped_of_step hst)
  exact ⟨hv, hu.2.trans hk⟩

end Minimodal.Server
