import Minimodal.Server.Cache
import Minimodal.Server.Streams

namespace Minimodal

/-- What is right about an entry of the hub: its job is known and either somebody will still
call `Finish` for it or `Finish` has been called and watchers are attached. -/
structure JobLogState.Proper (known awaited : Prop) (watching : Nat → Prop) (st : JobLogState) :
    Prop where
  known : known
  awaited : awaited ∨ st.terminal.isSome = true
  subs : st.terminal.isSome = true → st.subs ≠ []
  attached : ∀ x ∈ st.subs, watching x.1

namespace JobLogState

variable {K K' A A' : Prop} {W W' : Nat → Prop} {st st' : JobLogState}

theorem Proper.mono (h : st.Proper K A W) (hK : K → K') (hA : A → A') (hW : ∀ c, W c → W' c) :
    st.Proper K' A' W' :=
  ⟨hK h.known, h.awaited.imp_left hA, h.subs, fun x hx => hW _ (h.attached x hx)⟩

@[simp] theorem fanOut_terminal (st : JobLogState) (ev : JobEvent) :
    (st.fanOut ev).terminal = st.terminal := rfl

@[simp] theorem fanOut_keys (st : JobLogState) (ev : JobEvent) :
    (st.fanOut ev).subs.map Prod.fst = st.subs.map Prod.fst := by
  simp [fanOut]

theorem appendLine_terminal (maxLines : Nat) (j : String) (st : JobLogState) (line : LogLine) :
    (LogHub.appendLine maxLines j st line).terminal = st.terminal := by
  unfold LogHub.appendLine
  simp only [fanOut_terminal]
  split <;> rfl

theorem appendLine_keys (maxLines : Nat) (j : String) (st : JobLogState) (line : LogLine) :
    (LogHub.appendLine maxLines j st line).subs.map Prod.fst = st.subs.map Prod.fst := by
  unfold LogHub.appendLine
  simp only [fanOut_keys]
  split <;> rfl

theorem take_frame (maxLines : Nat) (j : String) (lines : List LogLine) (st : JobLogState) :
    (st.take maxLines j lines).terminal = st.terminal ∧
      (st.take maxLines j lines).subs.map Prod.fst = st.subs.map Prod.fst := by
  unfold take
  split
  · exact ⟨rfl, rfl⟩
  · induction lines generalizing st with
    | nil => exact ⟨rfl, rfl⟩
    | cons line lines ih =>
      have hterm := appendLine_terminal maxLines j st line
      obtain ⟨hterm', hkeys'⟩ := ih (LogHub.appendLine maxLines j st line) (by rwa [hterm])
      exact ⟨hterm'.trans hterm, hkeys'.trans (appendLine_keys maxLines j st line)⟩

theorem advance_frame (sub : Nat) (st : JobLogState) :
    (st.advance sub).terminal = st.terminal ∧
      (st.advance sub).subs.map Prod.fst = st.subs.map Prod.fst := by
  unfold advance
  split
  · refine ⟨rfl, ?_⟩
    rw [List.map_map]
    refine List.map_congr_left fun x _ => ?_
    simp only [Function.comp_apply]
    split
    · rename_i hx
      exact hx.symm
    · rfl
  · exact ⟨rfl, rfl⟩

theorem Proper.of_frame (h : st.Proper K A W) (hterm : st'.terminal = st.terminal)
    (hkeys : st'.subs.map Prod.fst = st.subs.map Prod.fst) : st'.Proper K A W := by
  refine ⟨h.known, by rw [hterm]; exact h.awaited, ?_, ?_⟩
  · intro ht hnil
    rw [hterm] at ht
    refine h.subs ht (List.map_eq_nil_iff (f := Prod.fst).mp ?_)
    rw [← hkeys, hnil]
    rfl
  · intro x hx
    have hmem : x.1 ∈ st.subs.map Prod.fst := hkeys ▸ List.mem_map_of_mem hx
    obtain ⟨y, hy, he⟩ := List.mem_map.mp hmem
    exact he ▸ h.attached y hy

theorem proper_empty (hK : K) (hA : A) : ({} : JobLogState).Proper K A W :=
  ⟨hK, .inl hA, by simp, by simp⟩

theorem Proper.attach (h : st.Proper K A W) {sub : Nat} (hsub : W sub) :
    (st.attach sub).Proper K A W := by
  refine ⟨h.known, h.awaited, by simp [JobLogState.attach], ?_⟩
  intro x hx
  rcases List.mem_cons.mp hx with rfl | hx
  · exact hsub
  · exact h.attached x hx

theorem Proper.detach (h : st.Proper K A W) {sub : Nat} (hW : ∀ c, c ≠ sub → W c → W' c)
    (hd : st.detach sub = some st') : st'.Proper K A W' := by
  unfold JobLogState.detach at hd
  simp only at hd
  split at hd
  · simp at hd
  · rename_i hne
    simp only [Option.some.injEq] at hd
    subst hd
    refine ⟨h.known, h.awaited, ?_, ?_⟩
    · intro ht hnil
      refine hne ?_
      rw [Bool.and_eq_true]
      exact ⟨ht, List.isEmpty_iff.mpr hnil⟩
    · intro x hx
      obtain ⟨hx, hne⟩ := List.mem_filter.mp hx
      exact hW _ (by simpa using hne) (h.attached x hx)

theorem Proper.close (h : st.Proper K A W) {result : JobEvent} (hc : st.close result = some st') :
    st'.Proper K A' W := by
  unfold JobLogState.close at hc
  split at hc
  · rename_i ht
    simp only [Option.some.injEq] at hc
    subst hc
    exact ⟨h.known, .inr ht, h.subs, h.attached⟩
  · simp only at hc
    split at hc
    · simp at hc
    · rename_i hne
      simp only [Option.some.injEq] at hc
      subst hc
      refine ⟨h.known, .inr rfl, fun _ hnil => hne (by simp [hnil]), ?_⟩
      intro x hx
      obtain ⟨y, hy, rfl⟩ := List.mem_map.mp hx
      exact h.attached y hy

end JobLogState

namespace Server

variable {cfg : Config} {s t : State} {a : Action} {m m' : Mem} {ch : Choice} {es : List Event}
  {j : String}

def Drainer.notifies (j : String) : Drainer → Bool
  | .notify a _ _ => a.jobID = j
  | _ => false

def Detector.notifies (j : String) : Detector → Bool
  | .notify _ jobID _ _ _ => jobID = j
  | _ => false

def Handler.notifies (j : String) : Handler → Bool
  | .report req | .notify req _ => req.jobID = j
  | _ => false

def Handler.watches (j : String) : Handler → Bool
  | .sendEvent jobID _ _ _ | .poll jobID _ | .wait jobID _ | .drain jobID _ => jobID = j
  | .unsubscribe jobID => jobID = j
  | _ => false

def Handler.found : Handler → Option String
  | .subscribe jobID _ => some jobID
  | .appendChunk chunk => some chunk.jobID
  | _ => none

namespace State

def Known (s : State) (j : String) : Prop := ∃ r, s.mem.store.jobs.get j = some r

def Notifying (s : State) (j : String) : Prop :=
  s.drainer.notifies j = true ∨ s.detector.notifies j = true ∨
    ∃ c, (s.calls c).notifies j = true

def Awaits (s : State) (j : String) : Prop := s.mem.store.Unfinished j ∨ s.Notifying j

end State

structure Entries (s : State) : Prop where
  proper : ∀ (j : String) st, s.mem.logHub.jobs[j]? = some st →
    st.Proper (s.Known j) (s.Awaits j) (fun c => (s.calls c).watches j = true)
  found : ∀ c j, (s.calls c).found = some j → s.Known j

/-- The entry is, or will be, of use: it is not created after the job's last `notifyTerminal`. -/
def Wanted (s : State) (j : String) : Prop :=
  s.Awaits j ∨ (s.mem.logHub.get j).terminal.isSome = true

/-- Nothing is created in the hub for a job that is finished and announced or that does not
exist, and the database works while a job's end is announced. -/
def tidy (s : State) : Action → Prop
  | .call c ch =>
    match s.calls c with
    | .subscribe jobID _ => Wanted s jobID
    | .appendChunk chunk => Wanted s chunk.jobID
    | .appendTail req => req.tailLines = [] ∨ s.Known req.jobID
    | .report _ | .notify _ _ => ch.fault = none
    | _ => True
  | .drainer ch => ∀ a exhausted pc, s.drainer = .notify a exhausted pc → ch.fault = none
  | .detector ch => ∀ workerID jobID pc jobs dead,
    s.detector = .notify workerID jobID pc jobs dead → ch.fault = none
  | _ => True

theorem Entries.init : Entries init where
  proper j st hst := by
    simp [Server.init, LogHub.new] at hst
  found c j hc := by
    simp [Server.init, Handler.found] at hc

theorem NotifyPc.Moves.store {jobID : String} {pc : NotifyPc} {next : Option NotifyPc}
    (h : NotifyPc.Moves m ch jobID pc m' next) : m'.store = m.store := by
  cases h <;> rfl

theorem NotifyPc.Moves.proper {jobID k : String} {pc : NotifyPc} {next : Option NotifyPc}
    (h : NotifyPc.Moves m ch jobID pc m' next) (hf : ch.fault = none) {K A B : Prop}
    {W : Nat → Prop} (hold : ∀ st, m.logHub.jobs[k]? = some st → st.Proper K A W)
    (hK : K → ∃ r, m.store.jobs.get k = some r) (hne : k ≠ jobID → A → B)
    (hnext : ∀ pc', k = jobID → next = some pc' → B) (hunf : m.store.Unfinished k → B) {st' : JobLogState}
    (hst : m'.logHub.jobs[k]? = some st') : st'.Proper K B W := by
  by_cases hk : k = jobID
  · cases h with
    | load => exact (hold st' hst).mono id (fun _ => hnext _ hk rfl) fun _ => id
    | skip hskip =>
      have hp := hold st' hst
      obtain ⟨r, hr⟩ := hK hp.known
      exact hp.mono id (fun _ => hunf ⟨r, hr, hskip hf r (hk ▸ hr)⟩) fun _ => id
    | finish =>
      rw [LogHub.jobs_finish, if_pos hk.symm] at hst
      obtain ⟨st, hget, hclose⟩ := Option.bind_eq_some_iff.mp hst
      exact (hold st hget).close hclose
  · have hsame : m'.logHub.jobs[k]? = m.logHub.jobs[k]? := by
      cases h with
      | finish => rw [LogHub.jobs_finish, if_neg (Ne.symm hk)]
      | _ => rfl
    exact (hold st' (hsame ▸ hst)).mono id (hne hk) fun _ => id

theorem Drainer.Steps.unfinished {d d' : Drainer} (h : Drainer.Steps cfg m ch d m' d' es)
    (hd : d.Ok) (hk : Kept m.store m'.store) (hu : m.store.Unfinished j) :
    m'.store.Unfinished j ∨ d'.notifies j = true := by
  obtain ⟨r, hr, ho⟩ := hu
  obtain ⟨r', hr', -⟩ := hk j r hr
  cases ht : r'.terminal with
  | false => exact .inl ⟨r', hr', ht⟩
  | true =>
    obtain ⟨a, message, exhausted, rfl, hj⟩ := h.finishes hd hr ho hr' ht
    cases h with
    | fail => exact .inr (by simp [notifies, hj])

theorem Detector.Steps.unfinished {d d' : Detector} (h : Detector.Steps cfg m ch d m' d' es)
    (hk : Kept m.store m'.store) (hu : m.store.Unfinished j) :
    m'.store.Unfinished j ∨ d'.notifies j = true := by
  obtain ⟨r, hr, ho⟩ := hu
  obtain ⟨r', hr', -⟩ := hk j r hr
  cases ht : r'.terminal with
  | false => exact .inl ⟨r', hr', ht⟩
  | true =>
    have hreap := h.finishes hr ho hr' ht
    cases h with
    | giveUp =>
      obtain ⟨w, job, jobs, dead, he, hj, -⟩ := hreap
      cases he
      exact .inr (by simp [notifies, hj])
    | requeue htr hc =>
      -- a requeued job is PENDING, not finished
      obtain ⟨-, r₁, hrun, rfl⟩ := htr.finishes hr ho hr' ht
      rcases (Mutator.run_reap hrun).2 with ⟨-, hst⟩ | ⟨hc', -⟩
      · rw [JobRecord.stamp_terminal, JobRecord.terminal, hst] at ht
        simp at ht
      · simp [hc] at hc'
    | skip htr hne =>
      rcases htr.get hr' with ⟨hold, -⟩ | ⟨-, hb, -⟩
      · rw [hr, Option.some.injEq] at hold
        simp [← hold, ho] at ht
      · exact absurd hb hne
    | _ =>
      obtain ⟨w, job, jobs, dead, he, -⟩ := hreap
      cases he

theorem Main.Steps.unfinished {pc pc' : Main} (h : Main.Steps m ch pc m' pc' es)
    (hk : Kept m.store m'.store) (hu : m.store.Unfinished j) : m'.store.Unfinished j := by
  obtain ⟨r, hr, ho⟩ := hu
  obtain ⟨r', hr', -⟩ := hk j r hr
  exact ⟨r', hr', h.not_finishes hr ho hr'⟩

theorem Handler.Steps.unfinished {c : Nat} {h h' : Handler} (hst : Handler.Steps m ch c h m' h' es)
    (hnew : ∀ req rec, h = .submit req rec → m.store.jobs.get rec.id = none)
    (hk : Kept m.store m'.store) (hu : m.store.Unfinished j) :
    m'.store.Unfinished j ∨ ∃ req, h = .report req ∧ req.jobID = j := by
  obtain ⟨r, hr, ho⟩ := hu
  obtain ⟨r', hr', -⟩ := hk j r hr
  cases ht : r'.terminal with
  | false => exact .inl ⟨r', hr', ht⟩
  | true =>
    obtain ⟨req, hreq, hj, -⟩ := hst.finishes hnew hr ho hr' ht
    exact .inr ⟨req, hreq, hj⟩

theorem State.Known.kept (hk : Kept s.mem.store t.mem.store) (h : s.Known j) : t.Known j := by
  obtain ⟨r, hr⟩ := h
  obtain ⟨r', hr', -⟩ := hk j r hr
  exact ⟨r', hr'⟩

theorem Entries.carry (h : Entries s) (hk : Kept s.mem.store t.mem.store)
    (hhub : t.mem.logHub = s.mem.logHub) (hcalls : t.calls = s.calls)
    (hawait : ∀ j, s.Known j → s.Awaits j → t.Awaits j) : Entries t where
  proper j st hst := by
    rw [hhub] at hst
    have hp := h.proper j st hst
    rw [hcalls]
    exact hp.mono (.kept hk) (hawait j hp.known) fun _ => id
  found c j hc := .kept hk (h.found c j (hcalls ▸ hc))

theorem Entries.drainer {stmt : Code Drainer} {mem : Mem} {r : stmt.op.Res} (h : Entries s)
    (hi : Inv s) (hk : Kept s.mem.store mem.store) (hok : tidy s (.drainer ch))
    (hcode : Drainer.code cfg s.drainer = some stmt)
    (hp : perform cfg s.mem ch stmt.op = some (mem, r, es)) :
    Entries { s with mem, drainer := stmt.next r } := by
  rcases Drainer.hub hcode hp with ⟨a, exhausted, pc, next, hd, hmove, hnext⟩ | ⟨hne, hhub⟩
  · refine ⟨fun j st hst => ?_, fun c j hc => .kept (s := s) hk (h.found c j hc)⟩
    have hp := hmove.proper (hok a exhausted pc hd) (h.proper j) id
      (B := State.Awaits { s with mem, drainer := stmt.next r } j) ?_ ?_ ?_ hst
    · exact hp.mono (.kept (s := s) hk) id fun _ => id
    · rintro hj (hu | hn | hn)
      · exact .inl (hmove.store ▸ hu)
      · simp [hd, Drainer.notifies, Ne.symm hj] at hn
      · exact .inr (.inr hn)
    · rintro pc' rfl rfl
      exact .inr (.inl (by simp [hnext, Drainer.notifies]))
    · exact fun hu => .inl (hmove.store ▸ hu)
  · refine h.carry hk hhub rfl ?_
    rintro j - (hu | hn | hn)
    · exact ((Drainer.steps hcode hp).unfinished hi.drainer hk hu).imp id .inl
    · cases hd : s.drainer with
      | notify a exhausted pc => exact absurd hd (hne a exhausted pc)
      | _ => simp [hd, Drainer.notifies] at hn
    · exact .inr (.inr hn)

theorem Entries.detector {stmt : Code Detector} {mem : Mem} {r : stmt.op.Res} (h : Entries s)
    (hk : Kept s.mem.store mem.store) (hok : tidy s (.detector ch))
    (hcode : Detector.code cfg s.detector = some stmt)
    (hp : perform cfg s.mem ch stmt.op = some (mem, r, es)) :
    Entries { s with mem, detector := stmt.next r } := by
  rcases Detector.hub hcode hp with
    ⟨workerID, jobID, pc, jobs, dead, next, hd, hmove, hnext⟩ | ⟨hne, hhub⟩
  · refine ⟨fun j st hst => ?_, fun c j hc => .kept (s := s) hk (h.found c j hc)⟩
    have hp := hmove.proper (hok workerID jobID pc jobs dead hd) (h.proper j) id
      (B := State.Awaits { s with mem, detector := stmt.next r } j) ?_ ?_ ?_ hst
    · exact hp.mono (.kept (s := s) hk) id fun _ => id
    · rintro hj (hu | hn | hn | hn)
      · exact .inl (hmove.store ▸ hu)
      · exact .inr (.inl hn)
      · simp [hd, Detector.notifies, Ne.symm hj] at hn
      · exact .inr (.inr (.inr hn))
    · rintro pc' rfl rfl
      exact .inr (.inr (.inl (by simp [hnext, Detector.notifies])))
    · exact fun hu => .inl (hmove.store ▸ hu)
  · refine h.carry hk hhub rfl ?_
    rintro j - (hu | hn | hn | hn)
    · exact ((Detector.steps hcode hp).unfinished hk hu).imp id fun hn => .inr (.inl hn)
    · exact .inr (.inl hn)
    · cases hd : s.detector with
      | notify workerID jobID pc jobs dead => exact absurd hd (hne workerID jobID pc jobs dead)
      | _ => simp [hd, Detector.notifies] at hn
    · exact .inr (.inr (.inr hn))

section Handlers

variable {c : Nat} {mem : Mem} {h' : Handler}

theorem State.Notifying.other (hn : s.Notifying j) (hc : (s.calls c).notifies j = false) :
    ({ s with mem }.setCall c h').Notifying j := by
  rcases hn with hn | hn | ⟨d, hd⟩
  · exact .inl hn
  · exact .inr (.inl hn)
  · refine .inr (.inr ⟨d, ?_⟩)
    rw [setCall_calls]
    split
    · rename_i he
      simp [he, hc] at hd
    · exact hd

theorem State.Notifying.self (hc : h'.notifies j = true) :
    ({ s with mem }.setCall c h').Notifying j :=
  .inr (.inr ⟨c, by simpa [setCall_calls] using hc⟩)

theorem Entries.call (h : Entries s) (hk : Kept s.mem.store mem.store)
    (hfound : ∀ j, h'.found = some j → ∃ r, mem.store.jobs.get j = some r)
    (hproper : ∀ (j : String) st, mem.logHub.jobs[j]? = some st →
      st.Proper (({ s with mem }.setCall c h').Known j) (({ s with mem }.setCall c h').Awaits j)
        (fun d => (({ s with mem }.setCall c h').calls d).watches j = true)) :
    Entries ({ s with mem }.setCall c h') where
  proper := hproper
  found d j hd := by
    rw [setCall_calls] at hd
    split at hd
    · exact hfound j hd
    · exact .kept (s := s) hk (h.found d j hd)

theorem watches_setCall (hw : (s.calls c).watches j = true → h'.watches j = true) (d : Nat)
    (hd : (s.calls d).watches j = true) :
    (({ s with mem }.setCall c h').calls d).watches j = true := by
  rw [setCall_calls]
  split
  · rename_i he
    exact hw (he ▸ hd)
  · exact hd

theorem Entries.carryCall {st : JobLogState} (h : Entries s) (hk : Kept s.mem.store mem.store)
    (hst : s.mem.logHub.jobs[j]? = some st)
    (hunf : s.mem.store.Unfinished j → mem.store.Unfinished j ∨ h'.notifies j = true)
    (hnot : (s.calls c).notifies j = true → h'.notifies j = true ∨ mem.store.Unfinished j)
    (hwat : (s.calls c).watches j = true → h'.watches j = true) :
    st.Proper (({ s with mem }.setCall c h').Known j) (({ s with mem }.setCall c h').Awaits j)
      (fun d => (({ s with mem }.setCall c h').calls d).watches j = true) := by
  refine (h.proper j st hst).mono (.kept (s := s) hk) ?_ ?_
  · rintro (hu | hn)
    · exact (hunf hu).imp id .self
    · cases hc : (s.calls c).notifies j with
      | false => exact .inr (hn.other hc)
      | true => exact (hnot hc).symm.imp id .self
  · exact watches_setCall hwat

theorem LogHub.exists_of_lookup {hub : LogHub} {sub : Nat} {x : LogSub}
    (h : (hub.get j).subs.lookup sub = some x) :
    ∃ st, hub.jobs[j]? = some st ∧ hub.get j = st := by
  rw [LogHub.get_eq] at h ⊢
  cases hst : hub.jobs[j]? with
  | none => simp [hst] at h
  | some st => exact ⟨st, rfl, rfl⟩

theorem LogHub.proper_get {hub : LogHub} {K A : Prop} {W : Nat → Prop}
    (hp : ∀ st, hub.jobs[j]? = some st → st.Proper K A W) (hK : K)
    (hA : A ∨ (hub.get j).terminal.isSome = true) : (hub.get j).Proper K A W := by
  rw [LogHub.get_eq] at hA ⊢
  cases hst : hub.jobs[j]? with
  | none => exact JobLogState.proper_empty hK (hA.resolve_right (by simp [hst]))
  | some st => exact hp st hst

theorem LogHub.proper_append {hub : LogHub} {jobID : String} {lines : List LogLine} {K A : Prop}
    {W : Nat → Prop} {st : JobLogState} (hp : ∀ st, hub.jobs[j]? = some st → st.Proper K A W)
    (hnew : jobID = j → lines ≠ [] → K ∧ (A ∨ (hub.get j).terminal.isSome = true))
    (hst : (hub.append jobID lines).jobs[j]? = some st) : st.Proper K A W := by
  rw [LogHub.jobs_append] at hst
  split at hst
  · rename_i hj
    simp only [Option.some.injEq] at hst
    subst hst
    obtain ⟨hK, hA⟩ := hnew hj.1 hj.2
    exact (LogHub.proper_get hp hK hA).of_frame (JobLogState.take_frame ..).1
      (JobLogState.take_frame ..).2
  · exact hp st hst

theorem LogHub.proper_subscribe {hub : LogHub} {jobID : String} {sub : Nat} {K A : Prop}
    {W : Nat → Prop} {st : JobLogState} (hp : ∀ st, hub.jobs[j]? = some st → st.Proper K A W)
    (hnew : jobID = j → K ∧ (A ∨ (hub.get j).terminal.isSome = true) ∧ W sub)
    (hst : (hub.subscribe jobID sub).1.jobs[j]? = some st) : st.Proper K A W := by
  rw [LogHub.jobs_subscribe] at hst
  split at hst
  · rename_i hj
    simp only [Option.some.injEq] at hst
    subst hst
    obtain ⟨hK, hA, hW⟩ := hnew hj
    exact (LogHub.proper_get hp hK hA).attach hW
  · exact hp st hst

theorem LogHub.proper_receive {hub hub' : LogHub} {jobID : String} {sub : Nat} {ev : JobEvent}
    {K A : Prop} {W : Nat → Prop} {st : JobLogState}
    (hp : ∀ st, hub.jobs[j]? = some st → st.Proper K A W)
    (hrecv : hub.receive jobID sub = (hub', some ev)) (hst : hub'.jobs[j]? = some st) :
    st.Proper K A W := by
  obtain ⟨⟨rest, dropped, hlook⟩, hjobs⟩ := LogHub.receive_some hrecv
  rw [hjobs] at hst
  split at hst
  · rename_i hj
    subst hj
    simp only [Option.some.injEq] at hst
    subst hst
    obtain ⟨st, hget, heq⟩ := LogHub.exists_of_lookup hlook
    rw [heq]
    exact (hp st hget).of_frame (JobLogState.advance_frame ..).1 (JobLogState.advance_frame ..).2
  · exact hp st hst

theorem Handler.sendAll_watches (jobID : String) (evs : List JobEvent) (k : WatchNext) (j : String) :
    (sendAll jobID evs k).watches j = decide (jobID = j) := by
  cases evs with
  | nil => cases k <;> rfl
  | cons ev evs => rfl

theorem Handler.sendAll_found (jobID : String) (evs : List JobEvent) (k : WatchNext) :
    (sendAll jobID evs k).found = none := by
  cases evs with
  | nil => cases k <;> rfl
  | cons ev evs => rfl

theorem Handler.aloof_frame {h : Handler} (ha : h.aloof = true) (j : String) :
    h.notifies j = false ∧ h.watches j = false ∧ h.found = none := by
  cases h <;> first | exact ⟨rfl, rfl, rfl⟩ | simp [Handler.aloof] at ha

theorem Entries.handler {stmt : Code Handler} {r : stmt.op.Res} (h : Entries s)
    (hi : Inv s) (hk : Kept s.mem.store mem.store) (hok : tidy s (.call c ch))
    (hcode : Handler.code c (s.calls c) = some stmt)
    (hp : perform cfg s.mem ch stmt.op = some (mem, r, es)) :
    Entries ({ s with mem }.setCall c (stmt.next r)) := by
  have hmoves := Handler.moves hcode hp
  have hunf : ∀ j, s.mem.store.Unfinished j →
      mem.store.Unfinished j ∨ ∃ req, s.calls c = .report req ∧ req.jobID = j := fun j hu =>
    (Handler.steps hcode hp).unfinished (fun req rec he => (hi.submitting c req rec he).2.2) hk hu
  simp only [tidy] at hok
  generalize stmt.next r = h' at hmoves
  generalize hc : s.calls c = h₀ at hmoves hok hunf
  have hcarry : ∀ {j : String} {st : JobLogState}, s.mem.logHub.jobs[j]? = some st →
      (∀ req, h₀ = .report req → req.jobID = j → h'.notifies j = true) →
      (h₀.notifies j = true → h'.notifies j = true ∨ mem.store.Unfinished j) →
      (h₀.watches j = true → h'.watches j = true) →
      st.Proper (({ s with mem }.setCall c h').Known j) (({ s with mem }.setCall c h').Awaits j)
        (fun d => (({ s with mem }.setCall c h').calls d).watches j = true) := by
    intro j st hst hrep hnot hwat
    refine h.carryCall hk hst ?_ (hc ▸ hnot) (hc ▸ hwat)
    exact fun hu => (hunf j hu).imp id fun ⟨req, hreq, hj⟩ => hrep req hreq hj
  have hawait : ∀ {j : String}, h₀.notifies j = false → (∀ req, h₀ = .report req → req.jobID ≠ j) →
      s.Awaits j → ({ s with mem }.setCall c h').Awaits j := by
    rintro j hn hrep (hu | hw)
    · exact .inl ((hunf j hu).resolve_right fun ⟨req, hreq, hj⟩ => hrep req hreq hj)
    · exact .inr (hw.other (hc ▸ hn))
  cases hmoves with
  | aloof ha ha' hhub =>
    refine h.call hk (by simp [(Handler.aloof_frame ha' "").2.2]) fun j st hst => ?_
    obtain ⟨hn, hw, -⟩ := Handler.aloof_frame ha j
    refine hcarry (hhub ▸ hst) ?_ (by simp [hn]) (by simp [hw])
    rintro req rfl
    simp [Handler.aloof] at ha
  | putResult hhub | recordColdStart hhub | count hhub =>
    refine h.call hk (by simp [Handler.found]) fun j st hst => ?_
    exact hcarry (hhub ▸ hst) (by simp) (by simp [Handler.notifies]) (by simp [Handler.watches])
  | refuse | acknowledge | loadFailed | loadMissing | recvEnd | recvSkip | recvChunk | dropChunk =>
    refine h.call hk (by simp [Handler.found]) fun j st hst => ?_
    exact hcarry hst (by simp) (by simp [Handler.notifies]) (by simp [Handler.watches])
  | @appendTail req =>
    refine h.call hk (by simp [Handler.found]) fun j st => LogHub.proper_append (fun st hst => ?_) ?_
    · exact hcarry hst (by simp) (by simp [Handler.notifies]) (by simp [Handler.watches])
    · rintro rfl hne
      have hknown : s.Known req.jobID := hok.resolve_left hne
      exact ⟨.kept (s := s) hk hknown, .inl (.inr (.self (by simp [Handler.notifies])))⟩
  | @report req _ _ _ ht =>
    refine h.call hk (by simp [Handler.found]) fun j st hst => ?_
    rw [ht.mem] at hst
    exact hcarry hst (by simp [Handler.notifies]) (fun hn => .inl hn) (by simp [Handler.watches])
  | @reportError req _ _ _ _ ht =>
    refine h.call hk (by simp [Handler.found]) fun j st hst => ?_
    rw [ht.mem] at hst
    have hj : req.jobID ≠ j := by
      -- the report of a job that has an entry cannot fail
      rintro rfl
      obtain ⟨r, hr⟩ := (h.proper _ st hst).known
      cases ht with
      | error hbad => simp [hok, hr] at hbad
    exact hcarry hst (by simp [hj]) (by simp [Handler.notifies, hj]) (by simp [Handler.watches])
  | @notify req pc _ next hmove =>
    refine h.call hk (by cases next <;> simp [Handler.found]) fun j st hst => ?_
    refine hmove.proper hok (k := j) (A := s.Awaits j) ?_ ?_ ?_ ?_ ?_ hst
    · intro st hst
      refine (h.proper j st hst).mono (.kept (s := s) hk) id ?_
      exact watches_setCall (by simp [hc, Handler.watches])
    · rintro ⟨r, hr⟩
      exact ⟨r, hmove.store ▸ hr⟩
    · rintro hj (hu | hn)
      · exact .inl (hmove.store ▸ hu)
      · exact .inr (hn.other (by simp [hc, Handler.notifies, Ne.symm hj]))
    · rintro pc' rfl rfl
      exact .inr (.self (by simp [Handler.notifies]))
    · exact fun hu => .inl (hmove.store ▸ hu)
  | loadWatch hget =>
    refine h.call hk (by rintro j ⟨⟩; exact ⟨_, hget⟩) fun j st hst => ?_
    exact hcarry hst (by simp) (by simp [Handler.notifies]) (by simp [Handler.watches])
  | loadChunk hget ht =>
    refine h.call hk (by rintro j ⟨⟩; exact ⟨_, hget⟩) fun j st hst => ?_
    exact hcarry hst (by simp) (by simp [Handler.notifies]) (by simp [Handler.watches])
  | @subscribe jobID lastStatus =>
    refine h.call hk (by simp [Handler.found]) fun j st =>
      LogHub.proper_subscribe (fun st hst => ?_) ?_
    · exact hcarry hst (by simp) (by simp [Handler.notifies]) (by simp [Handler.watches])
    · rintro rfl
      have hknown : s.Known jobID := h.found c jobID (by simp [hc, Handler.found])
      exact ⟨.kept (s := s) hk hknown, hok.imp_left (hawait rfl (by simp)),
        by simp [setCall_calls, Handler.watches]⟩
  | sent =>
    refine h.call hk (by simp [Handler.sendAll_found]) fun j st hst => ?_
    exact hcarry hst (by simp) (by simp [Handler.notifies]) fun hw =>
      (Handler.sendAll_watches ..).trans hw
  | sendError | pollTerminal | pollStatus | pollSame | waitDone | waitTick | drained =>
    refine h.call hk (by simp [Handler.found]) fun j st hst => ?_
    exact hcarry hst (by simp) (by simp [Handler.notifies]) (by simp [Handler.watches])
  | waitEvent hrecv | drainEvent hrecv =>
    refine h.call hk (by simp [Handler.found]) fun j st =>
      LogHub.proper_receive (fun st hst => ?_) hrecv
    exact hcarry hst (by simp) (by simp [Handler.notifies]) (by simp [Handler.watches])
  | @unsubscribe jobID =>
    refine h.call hk (by simp [Handler.found]) fun j st hst => ?_
    rw [LogHub.jobs_unsubscribe] at hst
    split at hst
    · rename_i hj
      subst hj
      obtain ⟨st', hget, hdetach⟩ := Option.bind_eq_some_iff.mp hst
      refine ((h.proper jobID st' hget).mono (.kept (s := s) hk)
        (hawait rfl (by simp)) fun _ => id).detach ?_ hdetach
      intro d hne hd
      rwa [setCall_calls, if_neg hne]
    · rename_i hj
      exact hcarry hst (by simp) (by simp [Handler.notifies]) (by simp [Handler.watches, hj])
  | @appendChunk chunk =>
    refine h.call hk (by simp [Handler.found]) fun j st => LogHub.proper_append (fun st hst => ?_) ?_
    · exact hcarry hst (by simp) (by simp [Handler.notifies]) (by simp [Handler.watches])
    · rintro rfl -
      have hknown : s.Known chunk.jobID := h.found c chunk.jobID (by simp [hc, Handler.found])
      exact ⟨.kept (s := s) hk hknown, hok.imp_left (hawait rfl (by simp))⟩

theorem Entries.accept (h : Entries s) (hidle : s.calls c = .idle) (hf : h'.found = none) :
    Entries (s.setCall c h') := by
  refine h.call (Kept.refl s.mem.store) (by simp [hf]) fun j st hst => ?_
  refine h.carryCall (.refl _) hst .inl ?_ ?_
  · simp [hidle, Handler.notifies]
  · simp [hidle, Handler.watches]

theorem Entries.step (h : Entries s) (hi : Inv s) (hok : tidy s a) (hst : Stepped cfg s a t es) :
    Entries t := by
  have hk := (hi.step hst).2
  cases hst with
  | start _ | crash =>
    refine ⟨fun j st hst => ?_, fun c j hc => ?_⟩
    · simp [State.lose, LogHub.new] at hst
    · simp [State.lose, Handler.found] at hc
  | beginShutdown _ | cancel _ | close _ | registerWorker _ | heartbeat _ =>
    exact h.carry hk rfl rfl fun j _ hj => hj
  | main hcode hp =>
    refine h.carry hk (Main.hub hcode hp) rfl ?_
    rintro j - (hu | hn)
    · exact .inl ((Main.steps hcode hp).unfinished hk hu)
    · exact .inr hn
  | drainer _ hcode hp => exact h.drainer hi hk hok hcode hp
  | detector _ hcode hp => exact h.detector hk hok hcode hp
  | call hcode hp => exact h.handler hi hk hok hcode hp
  | @invokeFunction c req uuid now _ hidle _ =>
    have hids : Entries { s with uuids := uuid :: s.uuids } := ⟨h.proper, h.found⟩
    refine hids.accept hidle ?_
    unfold Handler.invokeFunction
    simp only
    repeat' split
    all_goals rfl
  | @accept _ c h' _ hidle hh =>
    refine h.accept hidle ?_
    cases h' <;> first | exact hh.elim | rfl

end Handlers

theorem entries_of_run {as : List Action} (h : (machine cfg).Run tidy init as es s) :
    Inv s ∧ Entries s :=
  h.invariant (P := fun s => Inv s ∧ Entries s) ⟨.init, .init⟩ fun _ _ _ _ ⟨hi, he⟩ hok hst =>
    ⟨(hi.step (stepped_of_step hst)).1, he.step hi hok (stepped_of_step hst)⟩

structure State.Quiescent (s : State) : Prop where
  calls : ∀ c, (s.calls c).aloof = true
  drainer : ∀ j, s.drainer.notifies j = false
  detector : ∀ j, s.detector.notifies j = false

theorem State.Quiescent.not_notifying (h : s.Quiescent) (j : String) : ¬ s.Notifying j := by
  rintro (hd | hd | ⟨c, hc⟩)
  · simp [h.drainer] at hd
  · simp [h.detector] at hd
  · simp [(Handler.aloof_frame (h.calls c) j).1] at hc

/-- As long as nothing is created for finished or unknown jobs, the hub has entries of
unfinished jobs only whenever no log traffic is in progress. -/
theorem hub_holds_unfinished_jobs (cfg : Config) {as : List Action} {es : List Event} {s : State}
    (h : (machine cfg).Run tidy init as es s) (hq : s.Quiescent) {j : String} {st : JobLogState}
    (hst : s.mem.logHub.jobs[j]? = some st) :
    ∃ r, s.mem.store.getJob j = some r ∧ (r.status = .pending ∨ r.status = .running) := by
  have hp := (entries_of_run h).2.proper j st hst
  have hopen : st.terminal.isSome = false := by
    rw [Bool.eq_false_iff]
    intro ht
    obtain ⟨x, hx⟩ := List.exists_mem_of_ne_nil _ (hp.subs ht)
    have hw := hp.attached x hx
    simp [(Handler.aloof_frame (hq.calls x.1) j).2.1] at hw
  rcases hp.awaited with (⟨r, hr, ho⟩ | hn) | ht
  · have hunf := r.unfinished_iff.mpr ho
    exact ⟨r, hr, by simpa [JobRecord.unfinished] using hunf⟩
  · exact absurd hn (hq.not_notifying j)
  · simp [hopen] at ht

def tidyNow (s : State) : Action → Bool
  | .call c ch =>
    match s.calls c with
    | .subscribe jobID _ => (s.mem.store.getJob jobID).any JobRecord.unfinished
    | .appendChunk chunk => (s.mem.store.getJob chunk.jobID).any JobRecord.unfinished
    | .appendTail req => req.tailLines.isEmpty
    | _ => ch.fault.isNone
  | .drainer ch | .detector ch => ch.fault.isNone
  | _ => true

theorem tidy_of_tidyNow (h : tidyNow s a = true) : tidy s a := by
  have hopen : ∀ j, (s.mem.store.getJob j).any JobRecord.unfinished = true → Wanted s j := by
    intro j hj
    cases hr : s.mem.store.getJob j with
    | none => simp [hr] at hj
    | some r => exact .inl (.inl ⟨r, hr, r.unfinished_iff.mp (by simpa [hr] using hj)⟩)
  cases a with
  | call c ch =>
    simp only [tidyNow] at h
    simp only [tidy]
    cases hc : s.calls c <;> simp only [hc] at h ⊢
    case subscribe => exact hopen _ h
    case appendChunk => exact hopen _ h
    case appendTail => exact .inl (List.isEmpty_iff.mp h)
    case report | notify => simpa using h
  | drainer ch => exact fun _ _ _ _ => by simpa [tidyNow] using h
  | detector ch => exact fun _ _ _ _ _ _ => by simpa [tidyNow] using h
  | _ => trivial

def sampleLine : LogLine where
  line := [104, 105]
  isStderr := false
  tsUnixMs := 5

def sampleStreamed : State × List Event :=
  ((machine sampleConfig).exec tidyNow init
    (sampleSubmit ++ sampleDispatch ++
      ([.streamTaskLogs 0, .call 0 { chunk := some ⟨"j", [sampleLine]⟩ }, .call 0 {}, .call 0 {},
        .call 0 {}] : List Action))).get (by decide)

theorem sampleStreamed_quiescent : sampleStreamed.1.Quiescent where
  calls c := by
    cases c <;> rfl
  drainer _ := rfl
  detector _ := rfl

theorem hub_holds_unfinished_jobs_sample :
    sampleStreamed.1.mem.logHub.jobs["j"]? = some { lines := [sampleLine] } ∧
      ∃ r, sampleStreamed.1.mem.store.getJob "j" = some r ∧
        (r.status = .pending ∨ r.status = .running) :=
  have hst : sampleStreamed.1.mem.logHub.jobs["j"]? = some { lines := [sampleLine] } := by decide
  ⟨hst, hub_holds_unfinished_jobs sampleConfig
    ((Lib.Machine.run_of_exec_get (by decide)).mono fun _ _ => tidy_of_tidyNow)
    sampleStreamed_quiescent hst⟩

/-- A client asks for a job that is already DONE: it gets the result and leaves, and the entry
that its `Subscribe` created stays for good. -/
theorem hub_leaks_late_watcher :
    ∃ as es s r, (machine sampleConfig).Run Lib.Machine.Always init as es s ∧ s.Quiescent ∧
      s.mem.logHub.jobs["j"]? = some {} ∧ s.mem.store.getJob "j" = some r ∧ r.status = .done := by
  have hrun : (machine sampleConfig).Run (fun _ _ => true = true) init
      (sampleSubmit ++ sampleDispatch ++
        sampleReport 0 4 { jobID := "j", workerID := "w", success := true, resultBytes := [7] } ++
        .watchJob 0 "j" :: List.replicate 7 (.call 0 {})) _ _ :=
    Lib.Machine.run_of_exec_get (by decide)
  refine ⟨_, _, _, _, hrun.mono fun _ _ _ => trivial, ⟨?_, fun _ => rfl, fun _ => rfl⟩, ?_, rfl, rfl⟩
  · intro c
    cases c <;> rfl
  · decide

end Server

end Minimodal
