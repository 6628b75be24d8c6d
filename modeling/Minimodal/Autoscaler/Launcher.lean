import Mathlib.Data.List.Perm.Subperm
import Minimodal.Lib.Assoc
import Minimodal.Store.Record

namespace Minimodal

structure WorkerCommand where
  argv : List String
  dir : String
  env : List (String × String)
  deriving DecidableEq, Repr

/-- A worker process and how far its reaper goroutine has come: `done` is the channel that it closes
when `Wait` returns, and `dropped` means that it has given up the port and the table entry. -/
structure WorkerProc where
  id : String
  port : Nat
  cmd : WorkerCommand
  exited : Bool := false
  done : Bool := false
  dropped : Bool := false
  deriving DecidableEq, Repr

/-- `started` are all the processes there have been; a `*workerProc` is a place in that list. -/
structure ProcessLauncher where
  argv : List String
  workDir : String
  orchAddr : String
  basePort : Nat
  started : List WorkerProc := []
  procs : List (String × Nat) := []
  ports : List Nat := []
  deriving DecidableEq, Repr

namespace ProcessLauncher

/-- The loop of `leasePortLocked`, for as many rounds as there are leases. -/
def nextPort (ports : List Nat) : Nat → Nat → Nat
  | 0, port => port
  | rounds + 1, port => if port ∈ ports then nextPort ports rounds (port + 1) else port

def leasePort (l : ProcessLauncher) : Nat := nextPort l.ports l.ports.length l.basePort

def command (l : ProcessLauncher) (id : String) (port : Nat) : WorkerCommand where
  argv := l.argv
  dir := l.workDir
  env := [("WORKER_ID", id), ("WORKER_PORT", toString port), ("ORCH_ADDR", l.orchAddr),
    ("WORKER_ADVERTISE_HOST", "127.0.0.1")]

def launchWorker (l : ProcessLauncher) (id : String) (start : Option Err) :
    ProcessLauncher × Except Err Unit :=
  match l.procs.lookup id with
  | some _ => (l, .error (.errorf ("worker " ++ id ++ " already running")))
  | none =>
    let port := l.leasePort
    let ports := port :: l.ports
    match start with
    | some e =>
      ({ l with ports := ports.filter (· ≠ port) },
        .error (.wrapf ("start worker " ++ id ++ ": " ++ e.error) e))
    | none =>
      ({ l with
          started := l.started ++ [{ id, port, cmd := l.command id port }]
          procs := (id, l.started.length) :: l.procs
          ports }, .ok ())

def update (l : ProcessLauncher) (p : Nat) (f : WorkerProc → WorkerProc) : ProcessLauncher :=
  { l with started := l.started.modify p f }

def exit (l : ProcessLauncher) (p : Nat) : ProcessLauncher := l.update p fun w => { w with exited := true }

/-- `Wait` returns and `done` is closed. -/
def close (l : ProcessLauncher) (p : Nat) : ProcessLauncher := l.update p fun w => { w with done := true }

/-- The rest of the reaper goroutine, under the lock. -/
def drop (l : ProcessLauncher) (p : Nat) (w : WorkerProc) : ProcessLauncher :=
  let l := { l with ports := l.ports.filter (· ≠ w.port) }
  let l := if l.procs.lookup w.id = some p then
      { l with procs := l.procs.filter fun entry => entry.1 != w.id } else l
  l.update p fun w => { w with dropped := true }

theorem nextPort_mem {ports : List Nat} {rounds port : Nat} (h : nextPort ports rounds port ∈ ports) :
    ∀ i ≤ rounds, port + i ∈ ports := by
  induction rounds generalizing port with
  | zero =>
    intro i hi
    obtain rfl : i = 0 := by omega
    exact h
  | succ rounds ih =>
    simp only [nextPort] at h
    split at h
    · rename_i hport
      intro i hi
      cases i with
      | zero => exact hport
      | succ i =>
        rw [show port + (i + 1) = port + 1 + i by omega]
        exact ih h i (by omega)
    · rename_i hport
      exact absurd h hport

theorem leasePort_notMem (l : ProcessLauncher) : l.leasePort ∉ l.ports := by
  intro h
  have hall := nextPort_mem h
  -- more ports than there are leases
  have hsub : List.range' l.basePort (l.ports.length + 1) ⊆ l.ports := by
    intro port hport
    obtain ⟨i, hi, rfl⟩ := List.mem_range'.mp hport
    simpa using hall i (by omega)
  have hnodup : (List.range' l.basePort (l.ports.length + 1)).Nodup :=
    List.nodup_range' 1
  have hle := (hnodup.subperm hsub).length_le
  simp only [List.length_range'] at hle
  omega

theorem launchWorker_failed {l l' : ProcessLauncher} {id : String} {start : Option Err} {e : Err}
    (h : l.launchWorker id start = (l', .error e)) : l' = l := by
  unfold launchWorker at h
  split at h
  · exact (Prod.mk.inj h).1.symm
  · split at h
    · rw [← (Prod.mk.inj h).1]
      have hports : (l.leasePort :: l.ports).filter (· ≠ l.leasePort) = l.ports := by
        have hne : ∀ port ∈ l.ports, port ≠ l.leasePort := by
          rintro port hport rfl
          exact leasePort_notMem l hport
        simpa using hne
      rw [hports]
    · simp at h

theorem launchWorker_ok {l l' : ProcessLauncher} {id : String} {start : Option Err}
    (h : l.launchWorker id start = (l', .ok ())) :
    l.procs.lookup id = none ∧
      l' = { l with
        started := l.started ++ [{ id, port := l.leasePort, cmd := l.command id l.leasePort }]
        procs := (id, l.started.length) :: l.procs
        ports := l.leasePort :: l.ports } := by
  unfold launchWorker at h
  split at h
  · simp at h
  · rename_i hnone
    split at h
    · simp at h
    · exact ⟨hnone, (Prod.mk.inj h).1.symm⟩

/-- The tables hold every process that the reaper goroutine has not dropped, and no two of these have
one port. -/
structure Tracked (l : ProcessLauncher) : Prop where
  held : ∀ (p : Nat) w, l.started[p]? = some w → w.dropped = false → l.procs.lookup w.id = some p
  leased : ∀ (p : Nat) w, l.started[p]? = some w → w.dropped = false → w.port ∈ l.ports
  distinct : ∀ (p q : Nat) w v, l.started[p]? = some w → l.started[q]? = some v → w.dropped = false →
    v.dropped = false → w.port = v.port → p = q
  closed : ∀ (p : Nat) w, l.started[p]? = some w → w.dropped = true → w.done = true
  exited : ∀ (p : Nat) w, l.started[p]? = some w → w.done = true → w.exited = true

variable {l l' : ProcessLauncher} {p q : Nat} {w v : WorkerProc} {id : String} {start : Option Err}

theorem update_started (f : WorkerProc → WorkerProc) (h : (l.update p f).started[q]? = some v) :
    ∃ w, l.started[q]? = some w ∧ v = if p = q then f w else w := by
  simp only [update, List.getElem?_modify, Option.map_eq_map, Option.map_eq_some_iff] at h
  obtain ⟨w, hw, rfl⟩ := h
  exact ⟨w, hw, rfl⟩

theorem drop_started : (l.drop p w).started = (l.update p fun w => { w with dropped := true }).started := by
  simp only [drop, update]
  split <;> rfl

theorem Tracked.update (h : l.Tracked) {f : WorkerProc → WorkerProc} (hw : l.started[p]? = some w)
    (hid : (f w).id = w.id) (hport : (f w).port = w.port) (hdropped : (f w).dropped = w.dropped)
    (hclosed : (f w).dropped = true → (f w).done = true)
    (hexited : (f w).done = true → (f w).exited = true) : (l.update p f).Tracked := by
  have hback : ∀ (q : Nat) v, (l.update p f).started[q]? = some v →
      ∃ v', l.started[q]? = some v' ∧ v.id = v'.id ∧ v.port = v'.port ∧ v.dropped = v'.dropped ∧
        (v.dropped = true → v.done = true) ∧ (v.done = true → v.exited = true) := by
    intro q v hv
    obtain ⟨v', hv', rfl⟩ := update_started f hv
    refine ⟨v', hv', ?_⟩
    split
    · rename_i hpq
      rw [← hpq, hw, Option.some.injEq] at hv'
      subst hv'
      exact ⟨hid, hport, hdropped, hclosed, hexited⟩
    · exact ⟨rfl, rfl, rfl, h.closed q v' hv', h.exited q v' hv'⟩
  refine ⟨?_, ?_, ?_, ?_, ?_⟩
  · intro q v hv hnot
    obtain ⟨v', hv', hid, -, hd, -⟩ := hback q v hv
    rw [hid]
    exact h.held q v' hv' (hd ▸ hnot)
  · intro q v hv hnot
    obtain ⟨v', hv', -, hport, hd, -⟩ := hback q v hv
    rw [hport]
    exact h.leased q v' hv' (hd ▸ hnot)
  · intro q r v u hv hu hnv hnu heq
    obtain ⟨v', hv', -, hport, hd, -⟩ := hback q v hv
    obtain ⟨u', hu', -, hport', hd', -⟩ := hback r u hu
    exact h.distinct q r v' u' hv' hu' (hd ▸ hnv) (hd' ▸ hnu) (hport ▸ hport' ▸ heq)
  · intro q v hv
    obtain ⟨_, -, -, -, -, hclosed, -⟩ := hback q v hv
    exact hclosed
  · intro q v hv
    obtain ⟨_, -, -, -, -, -, hexited⟩ := hback q v hv
    exact hexited

theorem Tracked.exit (h : l.Tracked) (hw : l.started[p]? = some w) : (l.exit p).Tracked :=
  h.update hw rfl rfl rfl (h.closed p w hw) fun _ => rfl

theorem Tracked.close (h : l.Tracked) (hw : l.started[p]? = some w) (hexited : w.exited = true) :
    (l.close p).Tracked :=
  h.update hw rfl rfl rfl (fun _ => rfl) fun _ => hexited

theorem started_of_launch (hl : l.launchWorker id start = (l', .ok ())) (hv : l'.started[q]? = some v) :
    l.started[q]? = some v ∨
      q = l.started.length ∧ v = { id, port := l.leasePort, cmd := l.command id l.leasePort } := by
  obtain ⟨-, rfl⟩ := launchWorker_ok hl
  rw [List.getElem?_append] at hv
  split at hv
  · exact .inl hv
  · rw [List.getElem?_singleton] at hv
    split at hv
    · exact .inr ⟨by omega, (Option.some.inj hv).symm⟩
    · cases hv

theorem Tracked.launchWorker (h : l.Tracked) (hl : l.launchWorker id start = (l', .ok ())) :
    l'.Tracked := by
  obtain ⟨hnone, rfl⟩ := launchWorker_ok hl
  have hcases := fun q v => started_of_launch (q := q) (v := v) hl
  refine ⟨?_, ?_, ?_, ?_, ?_⟩
  · intro q v hv hnot
    rw [Lib.lookup_cons_eq_ite]
    obtain hv | ⟨rfl, rfl⟩ := hcases q v hv
    · have hheld := h.held q v hv hnot
      rw [if_neg, hheld]
      rintro rfl
      rw [hnone] at hheld
      cases hheld
    · rw [if_pos rfl]
  · intro q v hv hnot
    obtain hv | ⟨-, rfl⟩ := hcases q v hv
    · exact List.mem_cons_of_mem _ (h.leased q v hv hnot)
    · exact List.mem_cons_self
  · intro q r v u hv hu hnv hnu heq
    obtain hv | ⟨rfl, rfl⟩ := hcases q v hv
    · obtain hu | ⟨rfl, rfl⟩ := hcases r u hu
      · exact h.distinct q r v u hv hu hnv hnu heq
      · have hleased := h.leased q v hv hnv
        rw [heq] at hleased
        exact absurd hleased (leasePort_notMem l)
    · obtain hu | ⟨rfl, rfl⟩ := hcases r u hu
      · have hleased := h.leased r u hu hnu
        rw [← heq] at hleased
        exact absurd hleased (leasePort_notMem l)
      · rfl
  · intro q v hv hd
    obtain hv | ⟨-, rfl⟩ := hcases q v hv
    · exact h.closed q v hv hd
    · cases hd
  · intro q v hv hd
    obtain hv | ⟨-, rfl⟩ := hcases q v hv
    · exact h.exited q v hv hd
    · cases hd

theorem Tracked.drop_eq (h : l.Tracked) (hw : l.started[p]? = some w) (hnot : w.dropped = false) :
    l.drop p w = ({ l with
      ports := l.ports.filter (· ≠ w.port)
      procs := l.procs.filter fun entry => entry.1 != w.id }).update p
        fun w => { w with dropped := true } := by
  simp [ProcessLauncher.drop, h.held p w hw hnot]

theorem started_of_drop (hw : l.started[p]? = some w) (hv : (l.drop p w).started[q]? = some v) :
    (q = p ∧ v = { w with dropped := true }) ∨ (q ≠ p ∧ l.started[q]? = some v) := by
  rw [drop_started] at hv
  obtain ⟨v', hv', rfl⟩ := update_started _ hv
  by_cases hpq : p = q
  · subst hpq
    rw [hw, Option.some.injEq] at hv'
    exact .inl ⟨rfl, by simp [hv']⟩
  · simp only [if_neg hpq]
    exact .inr ⟨Ne.symm hpq, hv'⟩

theorem Tracked.drop (h : l.Tracked) (hw : l.started[p]? = some w) (hdone : w.done = true)
    (hnot : w.dropped = false) : (l.drop p w).Tracked := by
  have hlookup := h.held p w hw hnot
  have hback := fun q v => started_of_drop (q := q) (v := v) hw
  rw [h.drop_eq hw hnot] at hback ⊢
  refine ⟨?_, ?_, ?_, ?_, ?_⟩
  · intro q v hv hnv
    obtain ⟨-, rfl⟩ | ⟨hqp, hv⟩ := hback q v hv
    · cases hnv
    · have hheld := h.held q v hv hnv
      have hne : v.id ≠ w.id := by
        intro heq
        rw [heq, hlookup, Option.some.injEq] at hheld
        exact hqp hheld.symm
      exact (Lib.lookup_filter hne _).trans hheld
  · intro q v hv hnv
    obtain ⟨-, rfl⟩ | ⟨hqp, hv⟩ := hback q v hv
    · cases hnv
    · refine List.mem_filter.mpr ⟨h.leased q v hv hnv, ?_⟩
      simp only [decide_eq_true_eq]
      intro heq
      exact hqp (h.distinct q p v w hv hw hnv hnot heq)
  · intro q r v u hv hu hnv hnu heq
    obtain ⟨-, rfl⟩ | ⟨-, hv⟩ := hback q v hv
    · cases hnv
    · obtain ⟨-, rfl⟩ | ⟨-, hu⟩ := hback r u hu
      · cases hnu
      · exact h.distinct q r v u hv hu hnv hnu heq
  · intro q v hv hd
    obtain ⟨-, rfl⟩ | ⟨-, hv⟩ := hback q v hv
    · exact hdone
    · exact h.closed q v hv hd
  · intro q v hv hd
    obtain ⟨-, rfl⟩ | ⟨-, hv⟩ := hback q v hv
    · exact h.exited p w hw hdone
    · exact h.exited q v hv hd

end ProcessLauncher

end Minimodal
