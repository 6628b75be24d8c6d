import Minimodal.Lib.Count
import Minimodal.Worker.Process

namespace Minimodal

namespace Worker

open Lib (Machine)

def MainPc.up : MainPc → Bool
  | .registering | .serving | .stopping | .joining => true
  | _ => false

def MainPc.unopened : MainPc → Bool
  | .building | .forking | .opening | .failed => true
  | _ => false

def MainPc.past : MainPc → Bool
  | .joining | .closing | .exited => true
  | _ => false

def PoolThread.request : PoolThread → Option ExecuteTaskRequest
  | .idle => none
  | .run request | .execute request _ | .report request | .dec request => some request

def PoolThread.runs (request : ExecuteTaskRequest) (thread : PoolThread) : Bool :=
  thread.request = some request

def PoolThread.busy (thread : PoolThread) : Bool := thread.request.isSome

def PoolThread.executing : PoolThread → Bool
  | .execute _ _ => true
  | _ => false

def ExecuteTask.counted : ExecuteTask → Bool
  | .submit _ => true
  | _ => false

namespace Process

/-- Refused or cancelled: counted in `_active` for good. -/
def Event.lost : Event → Bool
  | .refused _ | .cancelled _ => true
  | _ => false

/-- No task is lost, and `_active` counts those that are there. -/
structure Ledger (es : List Event) (p : Process) : Prop where
  tasks : ∀ request, es.count (.accepted request) = es.count (.ended request) +
    es.count (.cancelled request) + p.queue.count request + p.threads.countP (·.runs request)
  active : p.active = (p.handlers.countP ExecuteTask.counted + p.queue.length +
    p.threads.countP PoolThread.busy + es.countP Event.lost : Nat)
  lost : p.closed = false → es.countP Event.lost = 0

variable {strategy : Strategy} {capacity : Nat} {p q : Process} {a : Action} {e es : List Event}

theorem runs_eq {thread : PoolThread} {request : ExecuteTaskRequest}
    (h : thread.request = some request) (r : ExecuteTaskRequest) :
    thread.runs r = decide (request = r) := by
  simp [PoolThread.runs, h]

theorem busy_eq {thread : PoolThread} {request : ExecuteTaskRequest}
    (h : thread.request = some request) : thread.busy = true := by
  simp [PoolThread.busy, h]

@[simp] theorem idle_runs (r : ExecuteTaskRequest) : PoolThread.idle.runs r = false := rfl

@[simp] theorem idle_busy : PoolThread.idle.busy = false := rfl

theorem Ledger.init : Ledger [] (init capacity) := by
  have hnone : ∀ f : PoolThread → Bool, f .idle = false →
      (Process.init capacity).threads.countP f = 0 := by
    intro f hf
    rw [Process.init, List.countP_replicate, hf]
    rfl
  refine ⟨fun r => ?_, ?_, fun _ => rfl⟩
  · rw [hnone (·.runs r) rfl]
    rfl
  · rw [hnone _ rfl]
    rfl

theorem Ledger.keep {n : Nat} {thread thread' : PoolThread} (h : Ledger es p)
    (hn : p.threads[n]? = some thread) (hq : q.threads = p.threads.set n thread')
    (hrequest : thread'.request = thread.request)
    (hrest : (q.active, q.handlers, q.closed, q.queue) = (p.active, p.handlers, p.closed, p.queue))
    (he : ∀ ev ∈ e, ∃ request, ev = .unserved request) : Ledger (es ++ e) q := by
  simp only [Prod.mk.injEq] at hrest
  obtain ⟨hactive, hhandlers, hclosed, hqueue⟩ := hrest
  have hruns : ∀ r, q.threads.countP (·.runs r) = p.threads.countP (·.runs r) := by
    intro r
    rw [hq]
    exact Lib.countP_set_of_eq hn (by simp [PoolThread.runs, hrequest])
  have hbusy : q.threads.countP PoolThread.busy = p.threads.countP PoolThread.busy := by
    rw [hq]
    exact Lib.countP_set_of_eq hn (by simp [PoolThread.busy, hrequest])
  have hcount : ∀ ev, (∀ request, ev ≠ .unserved request) → (es ++ e).count ev = es.count ev := by
    intro ev hev
    rw [List.count_append, Nat.add_eq_left, List.count_eq_zero]
    intro hmem
    obtain ⟨request, rfl⟩ := he ev hmem
    exact hev request rfl
  have hlost : (es ++ e).countP Event.lost = es.countP Event.lost := by
    rw [List.countP_append, Nat.add_eq_left, List.countP_eq_zero]
    intro ev hmem
    obtain ⟨request, rfl⟩ := he ev hmem
    simp [Event.lost]
  refine ⟨fun r => ?_, ?_, fun hopen => ?_⟩
  · rw [hcount _ (by simp), hcount _ (by simp), hcount _ (by simp), hqueue, hruns]
    exact h.tasks r
  · rw [hlost, hactive, hhandlers, hqueue, hbusy]
    exact h.active
  · rw [hlost]
    exact h.lost (hclosed ▸ hopen)

theorem Ledger.close (h : Ledger es p) :
    Ledger (es ++ p.queue.map .cancelled)
      { p with closed := true, queue := [], main := .joining } := by
  have hcancelled : ∀ r, (p.queue.map Event.cancelled).count (.cancelled r) = p.queue.count r :=
    fun r => List.count_map_of_injective _ _ (fun _ _ h => by cases h; rfl) r
  have haccepted : ∀ r, (p.queue.map Event.cancelled).count (.accepted r) = 0 := fun r =>
    List.count_eq_zero.mpr (by simp)
  have hended : ∀ r, (p.queue.map Event.cancelled).count (.ended r) = 0 := fun r =>
    List.count_eq_zero.mpr (by simp)
  have hlost : (p.queue.map Event.cancelled).countP Event.lost = p.queue.length := by
    rw [List.countP_map]
    exact List.countP_eq_length.mpr fun _ _ => rfl
  refine ⟨fun r => ?_, ?_, fun hopen => by cases hopen⟩
  · have htasks := h.tasks r
    simp only [List.count_append, hcancelled, haccepted, hended, List.count_nil]
    omega
  · have hactive := h.active
    simp only [List.countP_append, hlost, List.length_nil]
    omega

theorem Ledger.take {n : Nat} {request : ExecuteTaskRequest} {queue : List ExecuteTaskRequest}
    (h : Ledger es p) (hn : p.threads[n]? = some .idle) (hqueue : p.queue = request :: queue) :
    Ledger es ({ p with queue }.setThread n (.run request)) := by
  refine ⟨fun r => ?_, ?_, h.lost⟩
  · have htasks := h.tasks r
    have hruns := Lib.countP_set (p := (·.runs r)) hn (.run request)
    rw [hqueue, List.count_cons] at htasks
    rw [idle_runs, runs_eq rfl] at hruns
    by_cases hr : request = r <;> simp [hr, setThread] at htasks hruns ⊢ <;> omega
  · have hactive := h.active
    have hbusy := Lib.countP_set (p := PoolThread.busy) hn (.run request)
    rw [hqueue, List.length_cons] at hactive
    rw [idle_busy, busy_eq rfl, Bool.toNat_false, Bool.toNat_true] at hbusy
    simp only [setThread]
    omega

theorem Ledger.dec {n : Nat} {request : ExecuteTaskRequest} (h : Ledger es p)
    (hn : p.threads[n]? = some (.dec request)) :
    Ledger (es ++ [.ended request]) ({ p with active := p.active - 1 }.setThread n .idle) := by
  refine ⟨fun r => ?_, ?_, fun hopen => by simpa [Event.lost] using h.lost hopen⟩
  · have htasks := h.tasks r
    have hruns := Lib.countP_set (p := (·.runs r)) hn .idle
    rw [idle_runs, runs_eq rfl] at hruns
    by_cases hr : request = r <;> simp [hr, setThread] at htasks hruns ⊢ <;> omega
  · have hactive := h.active
    have hbusy := Lib.countP_set (p := PoolThread.busy) hn .idle
    rw [idle_busy, busy_eq rfl, Bool.toNat_false, Bool.toNat_true] at hbusy
    simp [setThread, Event.lost]
    omega

theorem Ledger.step (h : Ledger es p) (hst : Steps strategy capacity p a q e) :
    Ledger (es ++ e) q := by
  cases hst with
  | start | skip | started | raised | fork | opened | registered | stop | shutdown | leave | kill
  | exit | signal | outside =>
    rw [List.append_nil]
    exact ⟨h.tasks, h.active, h.lost⟩
  | call =>
    rw [List.append_nil]
    refine ⟨h.tasks, ?_, h.lost⟩
    simpa [ExecuteTask.counted] using h.active
  | @inc k request hk =>
    have hcount := Lib.countP_set (p := ExecuteTask.counted) hk (.submit request)
    have hactive := h.active
    rw [List.append_nil]
    refine ⟨h.tasks, ?_, h.lost⟩
    simp [ExecuteTask.counted, setHandler] at hcount ⊢
    omega
  | @refuse k request hk hclosed =>
    have hcount := Lib.countP_set (p := ExecuteTask.counted) hk .answered
    have hactive := h.active
    refine ⟨fun r => by simpa [setHandler] using h.tasks r, ?_, fun hopen => ?_⟩
    · simp [ExecuteTask.counted, setHandler, Event.lost] at hcount ⊢
      omega
    · simp [setHandler, hclosed] at hopen
  | @submit k request hk hopen =>
    have hcount := Lib.countP_set (p := ExecuteTask.counted) hk .answered
    have hactive := h.active
    refine ⟨fun r => ?_, ?_, fun _ => by simpa [Event.lost] using h.lost hopen⟩
    · have htasks := h.tasks r
      by_cases hr : request = r <;> simp [hr, setHandler] at htasks ⊢ <;> omega
    · simp [ExecuteTask.counted, setHandler, Event.lost] at hcount ⊢
      omega
  | close => exact h.close
  | take hn hqueue =>
    rw [List.append_nil]
    exact h.take hn hqueue
  | acquire hn | run hn | report hn => exact h.keep hn rfl rfl rfl (by simp)
  | unstarted hn => exact h.keep hn rfl rfl rfl (by simp)
  | @execute n choice request k pool hn hpool =>
    refine h.keep hn rfl ?_ rfl fun ev hev => ?_
    · split <;> rfl
    · split at hev
      · exact ⟨request, List.mem_singleton.mp hev⟩
      · cases hev
  | dec hn => exact h.dec hn

structure Phased (capacity : Nat) (p : Process) : Prop where
  length : p.threads.length = capacity
  closed : p.closed = p.main.past
  queue : p.closed = true → p.queue = []
  unopened : p.main.unopened = true → p.accepting = false ∧ p.handlers = [] ∧ p.queue = []
  idle : p.main.up = false → ∀ thread ∈ p.threads, thread = .idle

theorem Phased.init : Phased capacity (init capacity) where
  length := List.length_replicate
  closed := rfl
  queue _ := rfl
  unopened _ := ⟨rfl, rfl, rfl⟩
  idle _ _ hmem := List.eq_of_mem_replicate hmem

theorem Phased.up {n : Nat} {thread : PoolThread} (h : Phased capacity p)
    (hn : p.threads[n]? = some thread) (hbusy : thread.busy = true) : p.main.up = true := by
  by_contra hdown
  have hidle := h.idle (by simpa using hdown) thread (List.mem_of_getElem? hn)
  rw [hidle] at hbusy
  cases hbusy

theorem Phased.move (h : Phased capacity p)
    (hrest : (q.threads, q.closed, q.queue, q.handlers) =
      (p.threads, p.closed, p.queue, p.handlers))
    (hpast : q.main.past = p.main.past)
    (hopen : q.main.unopened = true → p.main.unopened = true ∧ q.accepting = p.accepting)
    (hup : q.main.up = false → ∀ thread ∈ p.threads, thread = .idle) : Phased capacity q := by
  simp only [Prod.mk.injEq] at hrest
  obtain ⟨hthreads, hclosed, hqueue, hhandlers⟩ := hrest
  refine ⟨hthreads ▸ h.length, ?_, ?_, fun hq => ?_, ?_⟩
  · rw [hclosed, hpast, h.closed]
  · rw [hclosed, hqueue]
    exact h.queue
  · obtain ⟨hp, haccepting⟩ := hopen hq
    rw [haccepting, hhandlers, hqueue]
    exact h.unopened hp
  · rw [hthreads]
    exact hup

theorem Phased.serve (h : Phased capacity p) (hopen : p.main.unopened = false)
    (hrest : (q.threads, q.closed, q.main) = (p.threads, p.closed, p.main))
    (hqueue : q.queue = p.queue ∨ p.closed = false) : Phased capacity q := by
  simp only [Prod.mk.injEq] at hrest
  obtain ⟨hthreads, hclosed, hmain⟩ := hrest
  refine ⟨hthreads ▸ h.length, ?_, fun hq => ?_, fun hq => ?_, ?_⟩
  · rw [hclosed, hmain, h.closed]
  · rw [hclosed] at hq
    rcases hqueue with hqueue | hfalse
    · rw [hqueue, h.queue hq]
    · simp [hq] at hfalse
  · rw [hmain, hopen] at hq
    cases hq
  · rw [hthreads, hmain]
    exact h.idle

theorem Phased.thread {n : Nat} {thread : PoolThread} (h : Phased capacity p)
    (hup : p.main.up = true) (hthreads : q.threads = p.threads.set n thread)
    (hrest : (q.closed, q.main) = (p.closed, p.main)) (hqueue : p.queue = [] → q.queue = []) :
    Phased capacity q := by
  simp only [Prod.mk.injEq] at hrest
  obtain ⟨hclosed, hmain⟩ := hrest
  refine ⟨by rw [hthreads, List.length_set, h.length], ?_, fun hq => ?_, fun hq => ?_, fun hq => ?_⟩
  · rw [hclosed, hmain, h.closed]
  · rw [hclosed] at hq
    exact hqueue (h.queue hq)
  · rw [hmain] at hq
    cases hp : p.main <;> simp [hp, MainPc.up, MainPc.unopened] at hq hup
  · rw [hmain, hup] at hq
    cases hq

theorem Phased.opened_of_handler {k : Nat} {handler : ExecuteTask} (h : Phased capacity p)
    (hk : p.handlers[k]? = some handler) : p.main.unopened = false := by
  by_contra hopen
  have hnil := (h.unopened (by simpa using hopen)).2.1
  simp [hnil] at hk

theorem Phased.step (h : Phased capacity p) (hst : Steps strategy capacity p a q e) :
    Phased capacity q := by
  cases hst with
  | start hmain | skip hmain | started hmain | raised hmain =>
    exact h.move rfl (by rw [hmain]; rfl) (fun _ => ⟨by rw [hmain]; rfl, rfl⟩)
      fun _ => h.idle (by rw [hmain]; rfl)
  | fork | kill | signal | outside => exact h.move rfl rfl (fun hq => ⟨hq, rfl⟩) h.idle
  | opened hmain | registered hmain | stop hmain =>
    exact h.move rfl (by rw [hmain]; rfl) (fun hq => by cases hq) (fun hq => by cases hq)
  | close hmain =>
    exact ⟨h.length, rfl, fun _ => rfl, fun hq => (by cases hq), fun hq => (by cases hq)⟩
  | shutdown hmain hidle | leave hmain hidle =>
    exact h.move rfl (by rw [hmain]; rfl) (fun hq => by cases hq) fun _ => hidle
  | exit hmain =>
    exact h.move rfl (by rw [hmain]; rfl) (fun hq => by cases hq) fun _ =>
      h.idle (by rw [hmain]; rfl)
  | call haccepting =>
    refine h.serve ?_ rfl (.inl rfl)
    by_contra hopen
    have hnot := (h.unopened (by simpa using hopen)).1
    simp [haccepting] at hnot
  | inc hk | refuse hk => exact h.serve (h.opened_of_handler hk) rfl (.inl rfl)
  | submit hk hopen => exact h.serve (h.opened_of_handler hk) rfl (.inr hopen)
  | take hn hqueue =>
    -- something is queued, so the server has been started and the task pool is not shut down
    have hopen : p.main.unopened = false := by
      by_contra hopen
      have hnil := (h.unopened (by simpa using hopen)).2.2
      simp [hqueue] at hnil
    have hpast : p.main.past = false := by
      rw [← h.closed]
      by_contra hclosed
      have hnil := h.queue (by simpa using hclosed)
      simp [hqueue] at hnil
    have hup : p.main.up = true := by
      cases hp : p.main <;> simp [hp, MainPc.up, MainPc.unopened, MainPc.past] at hopen hpast ⊢
    exact h.thread hup rfl rfl (fun hnil => by simp [hqueue] at hnil)
  | acquire hn | unstarted hn | run hn | execute hn | report hn | dec hn =>
    exact h.thread (h.up hn rfl) rfl rfl id

/-- Every task that the worker has accepted is queued, is run by one thread, has ended, or was
dropped at the end; `_active`, which the heartbeats report, counts those that are not over. Once
`main` has left, nothing is queued or running. -/
theorem accepted_task_runs_once (strategy : Strategy) (capacity : Nat) {as : List Action}
    (h : (machine strategy capacity).Run Machine.Always (init capacity) as es p) :
    (∀ request, es.count (.accepted request) = es.count (.ended request) +
      es.count (.cancelled request) + p.queue.count request +
        p.threads.countP (·.runs request)) ∧
      (p.closed = false → p.active = (p.handlers.countP ExecuteTask.counted + p.queue.length +
        p.threads.countP PoolThread.busy : Nat) ∧ ∀ request, .cancelled request ∉ es) ∧
      (p.main = .exited → p.queue = [] ∧ ∀ thread ∈ p.threads, thread = .idle) := by
  have hinv : Ledger es p ∧ Phased capacity p := by
    refine h.invariant_trace (P := fun es p => Ledger es p ∧ Phased capacity p) ?_ ?_
    · exact ⟨.init, .init⟩
    · intro es p a q e hp _ hst
      exact ⟨hp.1.step (steps_of_step hst), hp.2.step (steps_of_step hst)⟩
  obtain ⟨hledger, hphased⟩ := hinv
  refine ⟨hledger.tasks, fun hopen => ⟨?_, fun request hmem => ?_⟩, fun hmain => ⟨?_, ?_⟩⟩
  · rw [hledger.active, hledger.lost hopen, Nat.add_zero]
  · exact List.countP_eq_zero.mp (hledger.lost hopen) _ hmem rfl
  · exact hphased.queue (by rw [hphased.closed, hmain]; rfl)
  · exact hphased.idle (by rw [hmain]; rfl)

def sampleTask (jobID : String) : ExecuteTaskRequest := ⟨jobID, [1], [2], "f"⟩

def sampleDrained : Process × List Event :=
  ((machine .inproc 1).exec (fun _ _ => true) (init 1)
    [.main .go, .main .go, .main .go, .call (sampleTask "a"), .call (sampleTask "b"), .handler 0,
      .handler 0, .handler 1, .take 0, .handler 1, .thread 0 .go, .signal, .main .go, .main .go,
      .thread 0 .go, .thread 0 .go, .main .go]).get (by decide)

theorem accepted_task_runs_once_sample :
    sampleDrained.1.main = .exited ∧
      sampleDrained.2.count (.accepted (sampleTask "b")) =
        sampleDrained.2.count (.ended (sampleTask "b")) +
          sampleDrained.2.count (.cancelled (sampleTask "b")) +
          sampleDrained.1.queue.count (sampleTask "b") +
          sampleDrained.1.threads.countP (·.runs (sampleTask "b")) := by
  have hrun : (machine .inproc 1).Run Machine.Always (init 1) _ sampleDrained.2 sampleDrained.1 :=
    (Machine.run_of_exec_get (by decide)).mono fun _ _ _ => trivial
  exact ⟨by decide, (accepted_task_runs_once .inproc 1 hrun).1 (sampleTask "b")⟩

end Process

end Worker

end Minimodal
