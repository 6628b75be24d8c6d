import Minimodal.Server.Durable

namespace Minimodal.Server

/-- Terminal states are absorbing: whatever runs later, crashes and restarts included,
the record of a finished job keeps every field but its update time. -/
theorem terminal_absorbing (cfg : Config) {as bs : List Action} {es fs : List Event} {s t : State}
    (hs : (machine cfg).Run Lib.Machine.Always init as es s)
    (ht : (machine cfg).Run Lib.Machine.Always s bs fs t) {j : String} {r : JobRecord}
    (hget : s.mem.store.getJob j = some r) (hr : r.status = .done ∨ r.status = .failed) :
    ∃ r', t.mem.store.getJob j = some r' ∧ { r' with updatedAt := r.updatedAt } = r := by
  obtain ⟨-, hkept⟩ := (inv_of_run hs).kept_of_run ht
  obtain ⟨r', hget', he⟩ := hkept j r hget
  exact ⟨r', hget', he.frozen (r.terminal_iff.mpr hr)⟩

def sampleConfig : Config where
  workerTimeout := 6
  heartbeatIntervalMs := 2000
  maxRetries := 3
  maxDispatchAttempts := 30
  maxPayloadBytes := 1024

def sampleSubmit : List Action :=
  [.start, .main {}, .registerWorker ⟨"w", "host:1", 1⟩ 0,
    .invokeFunction 0 { functionBytes := [1], argsBytes := [2], functionName := "f" } "j" 1,
    .call 0 { now := 2 }, .call 0 {}, .call 0 {}, .call 0 {}, .call 0 {}]

def sampleDispatch : List Action :=
  [.drainer {}, .drainer {}, .drainer { order := ["w"] }, .drainer { now := 3 }, .drainer {},
    .drainer {}, .drainer {}]

def sampleReport (call now : Nat) (req : ReportTaskResultRequest) : List Action :=
  .reportTaskResult call req :: List.replicate 8 (.call call { now })

def sampleFinished : State × List Event :=
  ((machine sampleConfig).exec (fun _ _ => true) init
    (sampleSubmit ++ sampleDispatch ++
      sampleReport 1 4 { jobID := "j", workerID := "w", success := true, resultBytes := [7] })).get
    (by decide)

def sampleLate : State × List Event :=
  ((machine sampleConfig).exec (fun _ _ => true) sampleFinished.1
    (sampleReport 2 5 { jobID := "j", workerID := "v", success := false, error := "late" } ++
      ([.crash, .start, .main {}] : List Action))).get (by decide)

theorem terminal_absorbing_sample :
    (∃ r, sampleFinished.1.mem.store.getJob "j" = some r ∧ r.status = .done ∧
      r.resultBytes = [7] ∧
      ∃ r', sampleLate.1.mem.store.getJob "j" = some r' ∧
        { r' with updatedAt := r.updatedAt } = r) :=
  ⟨_, rfl, rfl, rfl, terminal_absorbing sampleConfig
    ((Lib.Machine.run_of_exec_get (by decide)).mono fun _ _ _ => trivial)
    ((Lib.Machine.run_of_exec_get (by decide)).mono fun _ _ _ => trivial) rfl (.inl rfl)⟩

end Minimodal.Server
