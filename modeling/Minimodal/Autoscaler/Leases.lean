import Mathlib.Order.Bounds.Defs
import Minimodal.Autoscaler.Shutdown

namespace Minimodal

namespace ProcessLauncher

inductive Search (ports : List Nat) : Nat → Nat → Prop
  | found {port} : port ∉ ports → Search ports port port
  | next {port free} : port ∈ ports → Search ports (port + 1) free → Search ports port free

inductive Moves (l : ProcessLauncher) : ProcessLauncher → Prop
  | same : Moves l l
  | launch {id start l'} : l.launchWorker id start = (l', .ok ()) → Moves l l'
  | exit {p w} : l.started[p]? = some w → Moves l (l.exit p)
  | close {p w} : l.started[p]? = some w → w.exited = true → Moves l (l.close p)
  | drop {p w} : l.started[p]? = some w → w.done = true → w.dropped = false → Moves l (l.drop p w)

variable {l l' : ProcessLauncher} {ports : List Nat} {port free p q : Nat} {w v : WorkerProc}
  {id : String} {start : Option Err}

theorem search_nextPort {rounds : Nat} (h : nextPort ports rounds port ∉ ports) :
    Search ports port (nextPort ports rounds port) := by
  induction rounds generalizing port with
  | zero => exact .found h
  | succ rounds ih =>
    simp only [nextPort] at h ⊢
    split at h
    · rename_i hport
      rw [if_pos hport]
      exact .next hport (ih h)
    · rename_i hport
      rw [if_neg hport]
      exact .found hport

theorem search_leasePort (l : ProcessLauncher) : Search l.ports l.basePort l.leasePort :=
  search_nextPort (leasePort_notMem l)

theorem Search.isLeast (h : Search ports port free) : IsLeast {q | port ≤ q ∧ q ∉ ports} free := by
  induction h with
  | found hport => exact ⟨⟨le_rfl, hport⟩, fun q hq => hq.1⟩
  | @next port free hport _ ih =>
    obtain ⟨⟨hle, hfree⟩, hleast⟩ := ih
    refine ⟨⟨by omega, hfree⟩, fun q hq => hleast ⟨?_, hq.2⟩⟩
    have hne : q ≠ port := by
      rintro rfl
      exact hq.2 hport
    have hle := hq.1
    omega

structure Leased (l : ProcessLauncher) : Prop where
  tracked : l.Tracked
  procs : ∀ id p, l.procs.lookup id = some p →
    ∃ w, l.started[p]? = some w ∧ w.id = id ∧ w.dropped = false
  ports : ∀ port ∈ l.ports, ∃ (p : Nat) (w : WorkerProc),
    l.started[p]? = some w ∧ w.dropped = false ∧ w.port = port

theorem Leased.update (h : l.Leased) {f : WorkerProc → WorkerProc} (htracked : (l.update p f).Tracked)
    (hid : ∀ w, (f w).id = w.id) (hport : ∀ w, (f w).port = w.port)
    (hdropped : ∀ w, (f w).dropped = w.dropped) : (l.update p f).Leased := by
  have hforth : ∀ (q : Nat) v, l.started[q]? = some v → ∃ v', (l.update p f).started[q]? = some v' ∧
      v'.id = v.id ∧ v'.port = v.port ∧ v'.dropped = v.dropped := by
    intro q v hv
    refine ⟨if p = q then f v else v, ?_, ?_⟩
    · simp only [ProcessLauncher.update, List.getElem?_modify, hv, Option.map_eq_map, Option.map_some]
    · split
      · exact ⟨hid v, hport v, hdropped v⟩
      · exact ⟨rfl, rfl, rfl⟩
  refine ⟨htracked, ?_, ?_⟩
  · intro id q hq
    obtain ⟨v, hv, hvid, hvd⟩ := h.procs id q hq
    obtain ⟨v', hv', hid', -, hd'⟩ := hforth q v hv
    exact ⟨v', hv', hid'.trans hvid, hd'.trans hvd⟩
  · intro port hmem
    obtain ⟨q, v, hv, hvd, hvport⟩ := h.ports port hmem
    obtain ⟨v', hv', -, hport', hd'⟩ := hforth q v hv
    exact ⟨q, v', hv', hd'.trans hvd, hport'.trans hvport⟩

theorem Leased.launchWorker (h : l.Leased) (hl : l.launchWorker id start = (l', .ok ())) : l'.Leased := by
  have htracked := h.tracked.launchWorker hl
  obtain ⟨-, rfl⟩ := launchWorker_ok hl
  have hold : ∀ (q : Nat) v, l.started[q]? = some v →
      (l.started ++ [{ id, port := l.leasePort, cmd := l.command id l.leasePort }])[q]? = some v := by
    intro q v hv
    rw [List.getElem?_append_left (List.getElem?_eq_some_iff.mp hv).1]
    exact hv
  refine ⟨htracked, ?_, ?_⟩
  · intro id' q hq
    rw [Lib.lookup_cons_eq_ite] at hq
    split at hq
    · rename_i heq
      simp only [Option.some.injEq] at hq
      subst hq heq
      exact ⟨_, List.getElem?_concat_length, rfl, rfl⟩
    · obtain ⟨v, hv, hrest⟩ := h.procs id' q hq
      exact ⟨v, hold q v hv, hrest⟩
  · intro port hmem
    obtain rfl | hmem := List.mem_cons.mp hmem
    · exact ⟨_, _, List.getElem?_concat_length, rfl, rfl⟩
    · obtain ⟨q, v, hv, hrest⟩ := h.ports port hmem
      exact ⟨q, v, hold q v hv, hrest⟩

theorem Leased.drop (h : l.Leased) (hw : l.started[p]? = some w) (hdone : w.done = true)
    (hnot : w.dropped = false) : (l.drop p w).Leased := by
  have htracked := h.tracked.drop hw hdone hnot
  have hlookup := h.tracked.held p w hw hnot
  rw [h.tracked.drop_eq hw hnot] at htracked ⊢
  have hother : ∀ (q : Nat) v, q ≠ p → l.started[q]? = some v →
      (l.started.modify p fun w => { w with dropped := true })[q]? = some v := by
    intro q v hqp hv
    simp [Ne.symm hqp, hv]
  refine ⟨htracked, ?_, ?_⟩
  · intro id q hq
    have hne : id ≠ w.id := by
      rintro rfl
      have hself := (Lib.lookup_filter_self l.procs).symm.trans hq
      cases hself
    have hq' : l.procs.lookup id = some q := (Lib.lookup_filter hne _).symm.trans hq
    obtain ⟨v, hv, hvid, hvd⟩ := h.procs id q hq'
    have hqp : q ≠ p := by
      rintro rfl
      rw [hw, Option.some.injEq] at hv
      exact hne (hvid ▸ hv ▸ rfl)
    exact ⟨v, hother q v hqp hv, hvid, hvd⟩
  · intro port hmem
    obtain ⟨hmem, hne⟩ := List.mem_filter.mp hmem
    obtain ⟨q, v, hv, hvd, rfl⟩ := h.ports port hmem
    have hqp : q ≠ p := by
      rintro rfl
      rw [hw, Option.some.injEq] at hv
      simp [hv] at hne
    exact ⟨q, v, hother q v hqp hv, hvd, rfl⟩

theorem Leased.moves (h : l.Leased) (hm : Moves l l') : l'.Leased := by
  cases hm with
  | same => exact h
  | launch hl => exact h.launchWorker hl
  | exit hw => exact h.update (h.tracked.exit hw) (fun _ => rfl) (fun _ => rfl) fun _ => rfl
  | close hw hexited =>
    exact h.update (h.tracked.close hw hexited) (fun _ => rfl) (fun _ => rfl) fun _ => rfl
  | drop hw hdone hnot => exact h.drop hw hdone hnot

theorem Moves.basePort (h : Moves l l') : l'.basePort = l.basePort := by
  cases h with
  | launch hl =>
    obtain ⟨-, rfl⟩ := launchWorker_ok hl
    rfl
  | drop =>
    simp only [ProcessLauncher.drop, ProcessLauncher.update]
    split <;> rfl
  | _ => rfl

theorem Leased.new (argv : List String) (workDir orchAddr : String) (basePort : Nat) :
    Leased { argv, workDir, orchAddr, basePort } where
  tracked := ⟨by simp, by simp, by simp, by simp, by simp⟩
  procs := by simp
  ports := by simp

def Tracks (l : ProcessLauncher) (id : String) (w : WorkerProc) : Prop :=
  ∃ p, l.procs.lookup id = some p ∧ l.started[p]? = some w

theorem Leased.tracks (h : l.Leased) (hw : l.Tracks id w) :
    w.id = id ∧ w.dropped = false ∧ ∃ p : Nat, l.started[p]? = some w := by
  obtain ⟨p, hp, hw⟩ := hw
  obtain ⟨v, hv, hid, hd⟩ := h.procs id p hp
  rw [hw, Option.some.injEq] at hv
  subst hv
  exact ⟨hid, hd, p, hw⟩

theorem Leased.mem_ports (h : l.Leased) : port ∈ l.ports ↔ ∃ id w, l.Tracks id w ∧ w.port = port := by
  constructor
  · intro hmem
    obtain ⟨p, w, hw, hd, hport⟩ := h.ports port hmem
    exact ⟨w.id, w, ⟨p, h.tracked.held p w hw hd, hw⟩, hport⟩
  · rintro ⟨id, w, hw, rfl⟩
    obtain ⟨-, hd, p, hp⟩ := h.tracks hw
    exact h.tracked.leased p w hp hd

theorem Leased.port_inj (h : l.Leased) {id' : String} (hw : l.Tracks id w) (hv : l.Tracks id' v)
    (hport : w.port = v.port) : id = id' := by
  obtain ⟨rfl, hd, p, hp⟩ := h.tracks hw
  obtain ⟨rfl, hd', q, hq⟩ := h.tracks hv
  obtain rfl := h.tracked.distinct p q w v hp hq hd hd' hport
  rw [hp, Option.some.injEq] at hq
  rw [hq]

theorem Leased.running (h : l.Leased) (hw : l.started[p]? = some w) (hrunning : w.exited = false) :
    l.procs.lookup w.id = some p := by
  refine h.tracked.held p w hw ?_
  by_contra hd
  have hdone := h.tracked.closed p w hw (by simpa using hd)
  simp [h.tracked.exited p w hw hdone] at hrunning

end ProcessLauncher

namespace Leases

/-- The launcher among the goroutines that use it: a `StopWorker` call that has looked up its
process, and one whose goroutine waits for the process to end. -/
structure State where
  launcher : ProcessLauncher
  stopping : List Nat := []
  graces : List Nat := []

inductive Action
  | launchWorker (id : String) (start : Option Err)
  | stopWorker (id : String)
  | sigterm (p : Nat)
  | grace (p : Nat)
  | exit (p : Nat)
  | close (p : Nat)
  | drop (p : Nat)

inductive Event
  | launched (id : String) (result : Except Err Unit)
  | sigterm (p : Nat)
  | sigkill (p : Nat)

/-- `LaunchWorker` holds the lock to its end; `StopWorker` gives it up before it sends the signal,
and the reaper goroutine takes it after `Wait` has returned. -/
def step (s : State) : Action → Option (State × List Event)
  | .launchWorker id start =>
    let (launcher, result) := s.launcher.launchWorker id start
    some ({ s with launcher }, [.launched id result])
  | .stopWorker id =>
    match s.launcher.procs.lookup id with
    | none => some (s, [])
    | some p => some ({ s with stopping := p :: s.stopping }, [])
  | .sigterm p =>
    if p ∈ s.stopping then
      some ({ s with stopping := s.stopping.erase p, graces := p :: s.graces }, [.sigterm p])
    else none
  | .grace p =>
    if p ∈ s.graces then
      some ({ s with graces := s.graces.erase p },
        if Shutdown.isDone s.launcher p then [] else [.sigkill p])
    else none
  | .exit p =>
    match s.launcher.started[p]? with
    | some w => if w.exited then none else some ({ s with launcher := s.launcher.exit p }, [])
    | none => none
  | .close p =>
    match s.launcher.started[p]? with
    | some w =>
      if w.exited && !w.done then some ({ s with launcher := s.launcher.close p }, []) else none
    | none => none
  | .drop p =>
    match s.launcher.started[p]? with
    | some w =>
      if w.done && !w.dropped then some ({ s with launcher := s.launcher.drop p w }, []) else none
    | none => none

def machine : Lib.Machine State Action Event := ⟨step⟩

def init (argv : List String) (workDir orchAddr : String) (basePort : Nat) : State :=
  { launcher := { argv, workDir, orchAddr, basePort } }

variable {s t : State} {a : Action} {e : List Event}

theorem moves_of_step (h : step s a = some (t, e)) : s.launcher.Moves t.launcher := by
  cases a with
  | launchWorker id start =>
    simp only [step, Option.some.injEq, Prod.mk.injEq] at h
    obtain ⟨rfl, -⟩ := h
    cases hl : s.launcher.launchWorker id start with
    | mk l result =>
      cases result with
      | ok => exact .launch hl
      | error err =>
        obtain rfl := ProcessLauncher.launchWorker_failed hl
        exact .same
  | stopWorker id =>
    simp only [step] at h
    split at h
    · obtain ⟨rfl, -⟩ := Prod.mk.inj (Option.some.inj h)
      exact .same
    · obtain ⟨rfl, -⟩ := Prod.mk.inj (Option.some.inj h)
      exact .same
  | sigterm p =>
    simp only [step, Option.ite_none_right_eq_some, Option.some.injEq, Prod.mk.injEq] at h
    obtain ⟨-, rfl, -⟩ := h
    exact .same
  | grace p =>
    simp only [step, Option.ite_none_right_eq_some, Option.some.injEq, Prod.mk.injEq] at h
    obtain ⟨-, rfl, -⟩ := h
    exact .same
  | exit p =>
    simp only [step] at h
    split at h
    · rename_i w hw
      simp only [Option.ite_none_left_eq_some, Option.some.injEq, Prod.mk.injEq] at h
      obtain ⟨-, rfl, -⟩ := h
      exact .exit hw
    · cases h
  | close p =>
    simp only [step] at h
    split at h
    · rename_i w hw
      simp only [Option.ite_none_right_eq_some, Option.some.injEq, Prod.mk.injEq,
        Bool.and_eq_true] at h
      obtain ⟨⟨hexited, -⟩, rfl, -⟩ := h
      exact .close hw hexited
    · cases h
  | drop p =>
    simp only [step] at h
    split at h
    · rename_i w hw
      simp only [Option.ite_none_right_eq_some, Option.some.injEq, Prod.mk.injEq,
        Bool.and_eq_true, Bool.not_eq_true'] at h
      obtain ⟨⟨hdone, hnot⟩, rfl, -⟩ := h
      exact .drop hw hdone hnot
    · cases h

theorem leased_of_run {argv : List String} {workDir orchAddr : String} {basePort : Nat}
    {as : List Action} {es : List Event}
    (h : machine.Run Lib.Machine.Always (init argv workDir orchAddr basePort) as es s) :
    s.launcher.Leased ∧ s.launcher.basePort = basePort := by
  refine h.invariant (P := fun s => s.launcher.Leased ∧ s.launcher.basePort = basePort)
    ⟨.new argv workDir orchAddr basePort, rfl⟩ ?_
  rintro t a u e ⟨hleased, hbase⟩ - hst
  have hm := moves_of_step hst
  exact ⟨hleased.moves hm, hm.basePort.trans hbase⟩

/-- Whatever the order of the calls and of the ends of processes, outside the lock the leased ports
are those of the processes in the table, each the port of one, and every process that runs is in the
table. A launch takes the smallest free port, and one that fails changes nothing. -/
theorem leases_exclusive (argv : List String) (workDir orchAddr : String) (basePort : Nat)
    {as : List Action} {es : List Event} {s : State}
    (h : machine.Run Lib.Machine.Always (init argv workDir orchAddr basePort) as es s) :
    (∀ port, port ∈ s.launcher.ports ↔ ∃ id w, s.launcher.Tracks id w ∧ w.port = port) ∧
      (∀ id id' w w', s.launcher.Tracks id w → s.launcher.Tracks id' w' → w.port = w'.port → id = id') ∧
      (∀ (p : Nat) w, s.launcher.started[p]? = some w → w.exited = false →
        s.launcher.procs.lookup w.id = some p) ∧
      (∀ id start l, s.launcher.launchWorker id start = (l, .ok ()) →
        ∃ w, l.Tracks id w ∧ l.started = s.launcher.started ++ [w] ∧
          ProcessLauncher.Search s.launcher.ports basePort w.port ∧
          IsLeast {port | basePort ≤ port ∧ port ∉ s.launcher.ports} w.port) ∧
      ∀ id start l err, s.launcher.launchWorker id start = (l, .error err) →
        l.procs = s.launcher.procs ∧ l.ports = s.launcher.ports := by
  obtain ⟨hleased, rfl⟩ := leased_of_run h
  refine ⟨fun _ => hleased.mem_ports, fun _ _ _ _ => hleased.port_inj, fun _ _ => hleased.running, ?_, ?_⟩
  · intro id start l hl
    obtain ⟨-, rfl⟩ := ProcessLauncher.launchWorker_ok hl
    have hsearch := ProcessLauncher.search_leasePort s.launcher
    refine ⟨_, ⟨s.launcher.started.length, ?_, List.getElem?_concat_length⟩, rfl, hsearch,
      hsearch.isLeast⟩
    rw [Lib.lookup_cons_eq_ite, if_pos rfl]
  · intro id start l err hl
    obtain rfl := ProcessLauncher.launchWorker_failed hl
    exact ⟨rfl, rfl⟩

def sampleRecycled : State × List Event :=
  (machine.exec (fun _ _ => true) (init ["sleep", "300"] "." "127.0.0.1:0" 51000)
    [.launchWorker "w1" none, .launchWorker "w2" none, .stopWorker "w1", .sigterm 0, .exit 0, .close 0,
      .launchWorker "w1" none, .grace 0, .drop 0]).get (by decide)

theorem leases_exclusive_sample :
    sampleRecycled.1.launcher.ports = [51001] ∧
      ∃ w, (sampleRecycled.1.launcher.launchWorker "w3" none).1.Tracks "w3" w ∧
        IsLeast {port | 51000 ≤ port ∧ port ∉ sampleRecycled.1.launcher.ports} w.port := by
  have hrun : machine.Run (fun _ _ => true = true) (init ["sleep", "300"] "." "127.0.0.1:0" 51000) _
      sampleRecycled.2 sampleRecycled.1 := Lib.Machine.run_of_exec_get (by decide)
  obtain ⟨-, -, -, hlaunch, -⟩ :=
    leases_exclusive _ _ _ 51000 (hrun.mono fun _ _ _ => trivial)
  obtain ⟨w, htracks, -, -, hleast⟩ := hlaunch "w3" none _ rfl
  exact ⟨by decide, w, htracks, hleast⟩

end Leases

namespace Shutdown

variable {ps : Autoscaler.Params} {s : State} {a : Action}

theorem moves_of_steps {l : ProcessLauncher} {main : Main} (h : Steps s a l main) :
    s.launcher.Moves l := by
  cases h with
  | launch hl => exact .launch hl
  | exit hw => exact .exit hw
  | close hw hexited => exact .close hw hexited
  | drop hw hdone hnot => exact .drop hw hdone hnot
  | _ => exact .same

theorem leased_of_run {argv : List String} {workDir orchAddr : String} {basePort : Nat}
    {as : List Action} {es : List Signal}
    (h : (machine ps).Run Lib.Machine.Always (init argv workDir orchAddr basePort) as es s) :
    s.launcher.Leased :=
  h.invariant (P := fun s => s.launcher.Leased) (.new argv workDir orchAddr basePort)
    fun _ _ _ _ hs _ hst => hs.moves (moves_of_steps (steps_of_step hst))

end Shutdown

end Minimodal
