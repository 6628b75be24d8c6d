import Minimodal.Server.Status
import Minimodal.Server.Terminal

namespace Minimodal.Server

variable {cfg : Config} {s t : State} {a : Action} {es : List Event} {m m' : Mem} {ch : Choice}
  {j : String}

def Drainer.job : Drainer → Option String
  | .dispatch a _ | .stall a | .backoff a | .fail a _ _ | .notify a _ _ | .recordFailed a
  | .unstall a => some a.jobID
  | .idle | .stopped => none

/-- The job that the drainer will still settle if it is PENDING: once the job is marked
RUNNING, whoever makes it PENDING again queues it. -/
def Drainer.keeps : Drainer → Option String
  | .dispatch _ (.dial _ _ _ _) | .dispatch _ (.send _ _ _ _) | .dispatch _ (.await _ _ _) => none
  | .dispatch a _ | .stall a | .backoff a | .fail a _ _ => some a.jobID
  | _ => none

theorem Drainer.job_of_keeps {d : Drainer} (h : d.keeps = some j) : d.job = some j := by
  cases d with
  | dispatch a pc => cases pc <;> simp_all [keeps, job]
  | _ => simp_all [keeps, job]

theorem Drainer.keeps_retry (a : Attempt) : (retry cfg a).keeps = some a.jobID :=
  retry_ind a rfl rfl

def Handler.enqueuing : Handler → Option String
  | .enqueue _ jobID _ => some jobID
  | _ => none

theorem Handler.enqueuing_of_quiet {h : Handler} (hq : h.Quiet = true) : h.enqueuing = none := by
  cases h <;> simp_all [Handler.Quiet, enqueuing]

def Detector.enqueuing : Detector → Option String
  | .enqueue _ jobID _ _ _ => some jobID
  | _ => none

@[simp] theorem Detector.enqueuing_next (w : String) (jobs : List JobRecord) (dead : List String) :
    (next w jobs dead).enqueuing = none := by
  cases jobs <;> rfl

/-- Custody of the jobs passes from `before` to `after` in one step of a thread: a job that
is PENDING afterwards is held by the thread, or it was PENDING before and is still held. -/
def Passes (m m' : Mem) (before after : Option String) : Prop :=
  ∀ j, m'.store.Pending j →
    after = some j ∨ m.store.Pending j ∧
      (j ∈ m.pendingQueue ∨ before = some j → j ∈ m'.pendingQueue ∨ after = some j)

theorem Passes.keep {before : Option String} (hs : m'.store = m.store)
    (hq : m'.pendingQueue = m.pendingQueue) {after : Option String}
    (h : ∀ j, m.store.Pending j → before = some j → after = some j) : Passes m m' before after := by
  intro j hp
  rw [hs] at hp
  refine .inr ⟨hp, ?_⟩
  rintro (hj | hj)
  · exact .inl (hq ▸ hj)
  · exact .inr (h j hp hj)

theorem Passes.take (hq : m'.pendingQueue = m.pendingQueue) {after : Option String}
    (h : ∀ j, m'.store.Pending j → after = some j ∨ m.store.Pending j) :
    Passes m m' none after := by
  intro j hp
  refine (h j hp).imp_right fun hold => ⟨hold, ?_⟩
  rintro (hj | hj)
  · exact .inl (hq ▸ hj)
  · simp at hj

theorem Transits.queue {jobID : String} {mutate : Mutator} {c : Captured} {b : Except Err Bool}
    (h : Transits m ch jobID mutate m' c b) : m'.pendingQueue = m.pendingQueue := by
  rw [h.mem]

theorem Passes.settle {jobID : String} {mutate : Mutator} {c : Captured} {b : Except Err Bool}
    (h : Transits m ch jobID mutate m' c b) (hm : mutate.Settles) (hf : ch.fault = none)
    (after : Option String) : Passes m m' (some jobID) after := by
  intro j hp
  obtain ⟨hold, hne⟩ := h.settled hm hf hp
  refine .inr ⟨hold, ?_⟩
  rintro (hj | hj)
  · exact .inl (h.queue ▸ hj)
  · exact absurd (Option.some.inj hj).symm hne

theorem Drainer.Steps.passes {d d' : Drainer} (h : Drainer.Steps cfg m ch d m' d' es)
    (hf : ch.fault = none) (hctx : m.ctxDone = false) : Passes m m' d.keeps d'.keeps := by
  cases h with
  | @receive jobID rest hq =>
    intro j hp
    refine .inr ⟨hp, ?_⟩
    simp only [keeps, hq, List.mem_cons, reduceCtorEq, or_false]
    rintro (rfl | hj)
    · exact .inr rfl
    · exact .inl hj
  | loadTerminal hget ht =>
    refine .keep rfl rfl ?_
    rintro j ⟨r, hr, hst⟩ hj
    obtain rfl := Option.some.inj hj
    rw [hget, Option.some.injEq] at hr
    simp [hr, JobRecord.terminal, hst] at ht
  | missingPayload ht => exact .settle ht trivial hf _
  | mark ht | markSkip ht | markError ht => exact .settle ht trivial hf _
  | fail ht => exact .settle ht trivial hf _
  | revert ht =>
    intro j hp
    rcases ht.pending hp with hold | rfl
    · exact .inr ⟨hold, by rw [ht.queue]; exact id⟩
    · exact .inl rfl
  | pickNone =>
    refine .keep rfl rfl fun j _ hj => ?_
    split
    · rw [keeps_retry]
      exact hj
    · exact hj
  | stall =>
    refine .keep rfl rfl fun j _ hj => ?_
    rw [keeps_retry]
    exact hj
  | backoffStop hdone => simp [hctx] at hdone
  | backoff hid =>
    refine .keep rfl rfl fun j _ hj => ?_
    rw [← hj]
    exact congrArg some hid
  | stop | dial | send | accepted | notify | notified | recordFailed | unstall =>
    exact .keep rfl rfl (by simp [keeps])
  | dialError | sendError | rejected | failed => exact .keep rfl rfl (by simp [keeps])
  | _ => exact .keep rfl rfl fun _ _ hj => hj

theorem Detector.Steps.passes {d d' : Detector} (h : Detector.Steps cfg m ch d m' d' es)
    (hdown : m.shuttingDown = false) : Passes m m' d.enqueuing d'.enqueuing := by
  cases h with
  | requeue ht hc =>
    refine .take ht.queue fun j hp => ?_
    rcases ht.reaped hp with hold | ⟨rfl, -, -⟩
    · exact .inr hold
    · exact .inl rfl
  | giveUp ht hc =>
    refine .take ht.queue fun j hp => .inr ?_
    rcases ht.reaped hp with hold | ⟨-, -, hc'⟩
    · exact hold
    · simp [hc] at hc'
  | skip ht hb =>
    refine .take ht.queue fun j hp => .inr ?_
    rcases ht.reaped hp with hold | ⟨-, hb', -⟩
    · exact hold
    · exact absurd hb' hb
  | checkSkip hd => simp [hdown] at hd
  | send =>
    intro j hp
    refine .inr ⟨hp, ?_⟩
    simp only [enqueuing, List.mem_append, List.mem_singleton]
    rintro (hj | hj)
    · exact .inl (.inl hj)
    · exact .inl (.inr (Option.some.inj hj).symm)
  | check => exact .keep rfl rfl fun _ _ hj => hj
  | _ => exact .keep rfl rfl (by simp [enqueuing])

theorem Handler.Steps.passes {c : Nat} {h h' : Handler} (hst : Handler.Steps m ch c h m' h' es)
    (hf : ch.fault = none) (hdown : m.shuttingDown = false) :
    Passes m m' h.enqueuing h'.enqueuing := by
  cases hst with
  | @created req rec store jobID _ hres =>
    refine .take (by rfl) ?_
    rintro j ⟨r, hr, hst⟩
    obtain ⟨hid, -⟩ := BoltStore.submitTx_created hres
    rcases submit_get m.store rec req.idempotencyKey ch.now j with heq | ⟨rfl, -, -⟩
    · rw [hres] at heq
      exact .inr ⟨r, heq ▸ hr, hst⟩
    · exact .inl (congrArg some hid)
  | existing _ hres =>
    have hstore := BoltStore.submitTx_existing (congrArg Prod.snd hres)
    obtain rfl := (congrArg Prod.fst hres).symm.trans hstore
    exact .keep rfl rfl (by simp [enqueuing])
  | checkSkip hd => simp [hdown] at hd
  | send =>
    intro j hp
    refine .inr ⟨hp, ?_⟩
    simp only [enqueuing, List.mem_append, List.mem_singleton]
    rintro (hj | hj)
    · exact .inl (.inl hj)
    · exact .inl (.inr (Option.some.inj hj).symm)
  | check => exact .keep rfl rfl fun _ _ hj => hj
  | report ht | reportError ht =>
    exact .take ht.queue fun j hp => .inr (ht.settled trivial hf hp).1
  | quiet hq _ hm _ => exact .keep hm.store hm.pendingQueue (by simp [enqueuing_of_quiet hq])
  | _ => exact .keep rfl rfl (by simp [enqueuing])

def Main.remaining : Main → Option (List String)
  | .down | .list => none
  | .replay job jobs => some (job.id :: jobs.map (·.id))
  | .enqueue jobID _ jobs => some (jobID :: jobs.map (·.id))
  | .serving => some []

@[simp] theorem Main.remaining_next (jobs : List JobRecord) :
    (next jobs).remaining = some (jobs.map (·.id)) := by
  cases jobs <;> rfl

def Waiting (m : Mem) (pc : Main) : Prop :=
  ∀ js, pc.remaining = some js → ∀ j, m.store.Unfinished j → j ∈ m.pendingQueue ∨ j ∈ js

theorem Main.Steps.waiting {pc pc' : Main} (h : Main.Steps m ch pc m' pc' es)
    (hf : ch.fault = none) (hdown : m.shuttingDown = false) (hs : m.store.Sound)
    (hopen : ∀ j, m'.store.Unfinished j → m.store.Unfinished j) (hw : Waiting m pc) :
    Waiting m' pc' := by
  intro js hjs j hj
  cases h with
  | list =>
    simp only [remaining_next, Option.some.injEq] at hjs
    exact .inr (hjs ▸ (BoltStore.mem_listUnfinished hs.keyedById).mpr hj)
  | listError hbad => simp [hf] at hbad
  | replay ht =>
    obtain rfl := Option.some.inj hjs
    rw [ht.queue]
    exact hw _ rfl j (hopen j hj)
  | replayError ht =>
    simp only [remaining_next, Option.some.injEq] at hjs
    subst hjs
    cases ht with
    | error hbad =>
      -- without a fault the transition fails only on a record that does not exist
      rcases hw _ rfl j hj with hq | hr
      · exact .inl hq
      · refine .inr ((List.mem_cons.mp hr).resolve_left ?_)
        rintro rfl
        obtain ⟨r, hget, -⟩ := hj
        simp [hf, hget] at hbad
  | check => exact hw js hjs j hj
  | checkSkip hd => simp [hdown] at hd
  | send =>
    simp only [remaining_next, Option.some.injEq] at hjs
    subst hjs
    rcases hw _ rfl j hj with hq | hr
    · exact .inl (List.mem_append_left _ hq)
    · rcases List.mem_cons.mp hr with rfl | hr
      · exact .inl (List.mem_append_right _ (by simp))
      · exact .inr hr

theorem perform_flags {op : Op} {r : op.Res} (h : perform cfg m ch op = some (m', r, es)) :
    m'.shuttingDown = m.shuttingDown ∧ m'.ctxDone = m.ctxDone := by
  cases performs_of_perform h <;> exact ⟨rfl, rfl⟩

def Action.storeSucceeds : Action → Bool
  | .main ch | .drainer ch | .detector ch | .call _ ch => ch.fault.isNone
  | _ => true

def Held (s : State) (j : String) : Prop :=
  j ∈ s.mem.pendingQueue ∨ s.drainer.keeps = some j ∨ s.detector.enqueuing = some j ∨
    ∃ c, (s.calls c).enqueuing = some j

structure Custody (s : State) : Prop where
  boot : s.main ≠ .serving → s.mem.shuttingDown = false ∧ Waiting s.mem s.main
  ctx : s.mem.ctxDone = true → s.mem.shuttingDown = true
  held : s.main = .serving → s.mem.shuttingDown = false → ∀ j, s.mem.store.Pending j → Held s j

theorem Passes.held {before after : Option String} {P : Prop} (h : Passes m m' before after)
    (hp : m'.store.Pending j)
    (hold : m.store.Pending j → (j ∈ m.pendingQueue ∨ before = some j) ∨ P) :
    (j ∈ m'.pendingQueue ∨ after = some j) ∨ P := by
  rcases h j hp with hnew | ⟨hp', hkeep⟩
  · exact .inl (.inr hnew)
  · exact (hold hp').imp_left hkeep

theorem Custody.init : Custody init where
  boot _ := ⟨rfl, fun _ hjs => by simp [Server.init, Main.remaining] at hjs⟩
  ctx h := by simp [Server.init] at h
  held h := by simp [Server.init] at h

theorem Custody.serving (h : Custody s) (hmain : t.main = .serving)
    (hflags : t.mem.shuttingDown = s.mem.shuttingDown ∧ t.mem.ctxDone = s.mem.ctxDone)
    (hheld : s.mem.shuttingDown = false → s.mem.ctxDone = false →
      ∀ j, t.mem.store.Pending j → Held t j) : Custody t where
  boot hne := absurd hmain hne
  ctx := by
    rw [hflags.1, hflags.2]
    exact h.ctx
  held _ hdown j hj := by
    rw [hflags.1] at hdown
    refine hheld hdown ?_ j hj
    cases hc : s.mem.ctxDone with
    | false => rfl
    | true => simp [h.ctx hc] at hdown

theorem Custody.setCall (h : Custody s) (c : Nat) {h' : Handler} (hmain : s.main = .serving)
    (hidle : s.calls c = .idle) : Custody (s.setCall c h') := by
  refine h.serving hmain ⟨rfl, rfl⟩ fun hdown _ j hp => ?_
  refine (h.held hmain hdown j hp).imp_right (Or.imp_right (Or.imp_right ?_))
  rintro ⟨d, hd⟩
  refine ⟨d, ?_⟩
  rw [setCall_calls, if_neg]
  · exact hd
  · rintro rfl
    simp [hidle, Handler.enqueuing] at hd

theorem Custody.call (h : Custody s) {c : Nat} {h' : Handler} (hmain : s.main = .serving)
    (hflags : m.shuttingDown = s.mem.shuttingDown ∧ m.ctxDone = s.mem.ctxDone)
    (hpass : s.mem.shuttingDown = false → Passes s.mem m (s.calls c).enqueuing h'.enqueuing) :
    Custody ({ s with mem := m }.setCall c h') := by
  refine h.serving hmain hflags fun hdown _ j hj => ?_
  have hthis := (hpass hdown).held (P := s.drainer.keeps = some j ∨
    s.detector.enqueuing = some j ∨ ∃ d, d ≠ c ∧ (s.calls d).enqueuing = some j) hj fun hold => by
      rcases h.held hmain hdown j hold with hq | hd | hd | ⟨d, hd⟩
      · exact .inl (.inl hq)
      · exact .inr (.inl hd)
      · exact .inr (.inr (.inl hd))
      · by_cases hdc : d = c
        · exact .inl (.inr (hdc ▸ hd))
        · exact .inr (.inr (.inr ⟨d, hdc, hd⟩))
  rcases hthis with (hq | hh') | hd | hd | ⟨d, hdc, hd⟩
  · exact .inl hq
  · exact .inr (.inr (.inr ⟨c, by rw [setCall_calls, if_pos rfl]; exact hh'⟩))
  · exact .inr (.inl hd)
  · exact .inr (.inr (.inl hd))
  · exact .inr (.inr (.inr ⟨d, by rw [setCall_calls, if_neg hdc]; exact hd⟩))

theorem Unfinished.of_step (hi : Inv s) (hst : Stepped cfg s a t es)
    (hdom : ∀ j, s.mem.store.jobs.get j = none → t.mem.store.jobs.get j = none)
    (hj : t.mem.store.Unfinished j) : s.mem.store.Unfinished j := by
  obtain ⟨r', hr', ht'⟩ := hj
  cases hget : s.mem.store.jobs.get j with
  | none => simp [hdom j hget] at hr'
  | some r =>
    obtain ⟨r'', hr'', he⟩ := (hi.step hst).2 j r hget
    rw [hr', Option.some.injEq] at hr''
    exact ⟨r, hget, (he.payload (hr'' ▸ ht')).1⟩

theorem Custody.step (h : Custody s) (hi : Inv s) (hok : a.storeSucceeds = true)
    (hst : Stepped cfg s a t es) : Custody t := by
  have hst' := hst
  cases hst with
  | start | crash =>
    exact ⟨fun _ => ⟨rfl, fun _ hjs => by simp [State.lose, Main.remaining] at hjs⟩,
      fun hc => by simp [State.lose] at hc, fun hm => by simp [State.lose] at hm⟩
  | beginShutdown hm => exact ⟨fun hne => absurd hm hne, fun _ => rfl, fun _ hd => by simp at hd⟩
  | cancel hd =>
    refine ⟨h.boot, fun _ => hd, fun hm hd' => ?_⟩
    simp [hd] at hd'
  | close | registerWorker | heartbeat => exact ⟨h.boot, h.ctx, h.held⟩
  | @main ch stmt mem r _ hcode hp =>
    have hne : s.main ≠ .serving := by
      intro he
      simp [he, Main.code] at hcode
    obtain ⟨hdown, hw⟩ := h.boot hne
    obtain ⟨hflag, hctx⟩ := perform_flags hp
    have hw' := (Main.steps hcode hp).waiting (Option.isNone_iff_eq_none.mp hok) hdown hi.sound
      (fun j => Unfinished.of_step hi hst' fun j hj => perform_domain (Main.plain hcode) hp hj) hw
    refine ⟨fun _ => ⟨hflag.trans hdown, hw'⟩, ?_, ?_⟩
    · rw [hflag, hctx]
      exact h.ctx
    · intro hserv _ j hj
      -- nothing remains to be recovered, so the queue has every unfinished job
      have hnone : (stmt.next r).remaining = some [] := congrArg Main.remaining hserv
      exact .inl ((hw' [] hnone j hj.unfinished).resolve_right (by simp))
  | drainer hm hcode hp =>
    refine h.serving hm (perform_flags hp) fun hdown hctx j hj => ?_
    have hpass := (Drainer.steps hcode hp).passes (Option.isNone_iff_eq_none.mp hok) hctx
    exact or_assoc.mp (hpass.held hj fun hold => or_assoc.mpr (h.held hm hdown j hold))
  | detector hm hcode hp =>
    refine h.serving hm (perform_flags hp) fun hdown _ j hj => ?_
    have hpass := (Detector.steps hcode hp).passes hdown
    have hthis := hpass.held (P := s.drainer.keeps = some j ∨
      ∃ c, (s.calls c).enqueuing = some j) hj fun hold => by
        rcases h.held hm hdown j hold with hq | hd | hd | hc
        · exact .inl (.inl hq)
        · exact .inr (.inl hd)
        · exact .inl (.inr hd)
        · exact .inr (.inr hc)
    rcases hthis with (hq | hd) | hd | hc
    · exact .inl hq
    · exact .inr (.inr (.inl hd))
    · exact .inr (.inl hd)
    · exact .inr (.inr (.inr hc))
  | call hcode hp =>
    have hm := hi.serving_of_code hcode
    exact h.call hm (perform_flags hp) fun hdown =>
      (Handler.steps hcode hp).passes (Option.isNone_iff_eq_none.mp hok) hdown
  | @invokeFunction c req uuid now hm hidle _ =>
    have huuid : Custody { s with uuids := uuid :: s.uuids } := ⟨h.boot, h.ctx, h.held⟩
    exact huuid.setCall c hm hidle
  | accept hm hidle => exact h.setCall _ hm hidle

theorem custody_of_run {as : List Action}
    (h : (machine cfg).Run (fun _ a => a.storeSucceeds = true) init as es s) :
    Inv s ∧ Custody s :=
  h.invariant (P := fun s => Inv s ∧ Custody s) ⟨.init, .init⟩ fun _ _ _ _ hp hok hst =>
    ⟨(hp.1.step (stepped_of_step hst)).1, hp.2.step hp.1 hok (stepped_of_step hst)⟩

/-- No PENDING job is forgotten: while the server is up and not shutting down, it is queued,
or the drainer is working on it, or a handler or the reaper is about to enqueue it. -/
theorem pending_not_forgotten (cfg : Config) {as : List Action} {es : List Event} {s : State}
    (h : (machine cfg).Run (fun _ a => a.storeSucceeds = true) init as es s)
    (hup : s.main = .serving) (hdown : s.mem.shuttingDown = false) {j : String} {r : JobRecord}
    (hget : s.mem.store.getJob j = some r) (hr : r.status = .pending) :
    j ∈ s.mem.pendingQueue ∨ s.drainer.job = some j ∨
      (∃ c req pc, s.calls c = .enqueue req j pc) ∨
      ∃ w pc jobs dead, s.detector = .enqueue w j pc jobs dead := by
  rcases (custody_of_run h).2.held hup hdown j ⟨r, hget, hr⟩ with hq | hd | hd | ⟨c, hc⟩
  · exact .inl hq
  · exact .inr (.inl (Drainer.job_of_keeps hd))
  · refine .inr (.inr (.inr ?_))
    cases hdet : s.detector with
    | enqueue w jobID pc jobs dead =>
      rw [hdet] at hd
      exact ⟨w, pc, jobs, dead, by rw [Option.some.inj hd]⟩
    | _ => simp [hdet, Detector.enqueuing] at hd
  · refine .inr (.inr (.inl ⟨c, ?_⟩))
    cases hcall : s.calls c with
    | enqueue req jobID pc =>
      rw [hcall] at hc
      exact ⟨req, pc, by rw [Option.some.inj hc]⟩
    | _ => simp [hcall, Handler.enqueuing] at hc

def sampleReaped : State × List Event :=
  ((machine sampleConfig).exec (fun _ a => a.storeSucceeds) init
    (sampleSubmit ++ sampleDispatch ++
      ([.detector { order := ["w"], now := 10 }, .detector {}, .detector { now := 11 }] :
        List Action))).get (by decide)

theorem pending_not_forgotten_sampleReaped :
    (∃ r, sampleReaped.1.mem.store.getJob "j" = some r ∧ r.status = .pending) ∧
      ("j" ∈ sampleReaped.1.mem.pendingQueue ∨ sampleReaped.1.drainer.job = some "j" ∨
        (∃ c req pc, sampleReaped.1.calls c = .enqueue req "j" pc) ∨
        ∃ w pc jobs dead, sampleReaped.1.detector = .enqueue w "j" pc jobs dead) :=
  ⟨⟨_, rfl, rfl⟩, pending_not_forgotten sampleConfig
    (Lib.Machine.run_of_exec_get (by decide)) rfl rfl rfl rfl⟩

end Minimodal.Server
