import Minimodal.Worker.Tasks

namespace Minimodal

namespace Worker

open Lib (Machine)

def Call.outstanding (call : Call) : Bool := call ≠ .returned

namespace ForkWarmPoolExecutor

variable {size : Nat} {s t : ForkWarmPoolExecutor} {choice : Choice}

theorem call_of_step {k : Nat} (h : s.step size (.call k choice) = some t) :
    ∃ c b c', s.calls[k]? = some c ∧ c.step s.books choice = some (b, c') ∧
      t = { s with books := b, calls := s.calls.set k c' } := by
  simp only [step] at h
  split at h
  · cases h
  · rename_i c hc
    simp only [Option.map_eq_some_iff, Prod.exists] at h
    obtain ⟨b, c', hstep, rfl⟩ := h
    exact ⟨c, b, c', hc, hstep, rfl⟩

theorem calls_of_main (h : s.step size (.main choice) = some t) : t.calls = s.calls := by
  cases moves_of_step h <;> rfl

theorem outside_of_step {o : Outside} (h : s.step size (.outside o) = some t) :
    ∃ books, s.books.outside o = some books ∧ t = { s with books } ∧
      books.slots = s.books.slots ∧ books.killed = s.books.killed ∧
      (s.books.spawner = none → books.spawner = none) := by
  simp only [step, Option.map_eq_some_iff] at h
  obtain ⟨books, hout, rfl⟩ := h
  refine ⟨books, hout, rfl, ?_⟩
  obtain haside | ⟨-, rfl⟩ := Books.aside_of_outside hout
  · refine ⟨haside.slots, haside.killed, fun hnone => ?_⟩
    cases haside with
    | exit => exact hnone
    | ask hsp | leave hsp | fork hsp | list hsp => simp [hnone] at hsp
  · exact ⟨rfl, rfl, fun _ => rfl⟩

/-- In `start`, or just out of it: as long as the spawner comes up, nothing is forked. -/
structure Starting (s : ForkWarmPoolExecutor) : Prop where
  opens : s.lifecycle = .ready ∨ (∃ left, s.lifecycle = .forking left) ∨
    ∃ left child, s.lifecycle = .starting left child
  fresh : ∀ left, s.lifecycle = .forking left →
    s.books.forked = [] ∧ ∀ sp, s.books.spawner = some sp → sp.requests = 0

theorem Starting.step (hs : s.Starting) (h : s.step size (.main choice) = some t) :
    t.Starting := by
  have hopens := hs.opens
  cases moves_of_step h with
  | keep => exact hs
  | await | ask | child => exact ⟨.inr (.inr ⟨_, _, rfl⟩), fun _ hlife => (by cases hlife)⟩
  | abort | begun | raise => exact ⟨.inl rfl, fun _ hlife => (by cases hlife)⟩
  | signal hlife | kill hlife | clear hlife | stop hlife => simp [hlife] at hopens

theorem Starting.outside {o : Outside} (hs : s.Starting)
    (h : s.step size (.outside o) = some t) : t.Starting := by
  obtain ⟨books, hout, rfl, -⟩ := outside_of_step h
  refine ⟨hs.opens, fun left hlife => ?_⟩
  obtain ⟨hforked, hrequests⟩ := hs.fresh left hlife
  cases o with
  | fork child =>
    simp only [Books.outside, Option.bind_eq_some_iff, Option.ite_none_right_eq_some] at hout
    obtain ⟨sp, hsp, ⟨hpos, -⟩, -⟩ := hout
    simp [hrequests sp hsp] at hpos
  | list =>
    simp only [Books.outside, Option.bind_eq_some_iff, Option.map_eq_some_iff] at hout
    obtain ⟨sp, hsp, child, -, rfl⟩ := hout
    refine ⟨hforked, ?_⟩
    rintro _ ⟨⟩
    exact hrequests sp hsp
  | die =>
    simp only [Books.outside, Option.map_eq_some_iff] at hout
    obtain ⟨-, -, rfl⟩ := hout
    exact ⟨hforked, fun _ hsp => (by cases hsp)⟩
  | exit child =>
    simp only [Books.outside, Option.ite_none_right_eq_some, Option.some.injEq] at hout
    obtain ⟨-, rfl⟩ := hout
    exact ⟨hforked, hrequests⟩

def Closing (s : ForkWarmPoolExecutor) : Prop :=
  match s.lifecycle with
  | .forking _ | .starting _ _ => False
  | .signalling i => ∀ x ∈ s.books.slots.take i, x ∈ s.books.killed
  | .clearing => s.books.spawner = none ∧ ∀ x ∈ s.books.slots, x ∈ s.books.killed
  | .stopping | .ready => s.books.spawner = none ∧ s.books.slots = []

theorem Closing.step (hs : s.Closing) (h : s.step size (.main choice) = some t) : t.Closing := by
  cases moves_of_step h with
  | keep => exact hs
  | await hlife | abort hlife | begun hlife | ask hlife | raise hlife | child hlife =>
    simp [Closing, hlife] at hs
  | signal hlife hslot =>
    simp only [Closing, hlife] at hs ⊢
    intro x hx
    rw [List.take_add_one, hslot] at hx
    rcases List.mem_append.mp hx with hx | hx
    · exact List.mem_append_left _ (hs x hx)
    · exact List.mem_append_right _ hx
  | kill hlife hend =>
    simp only [Closing, hlife] at hs ⊢
    rw [List.take_of_length_le (List.getElem?_eq_none_iff.mp hend)] at hs
    exact ⟨rfl, fun x hx => List.mem_append_left _ (hs x hx)⟩
  | clear hlife =>
    simp only [Closing, hlife] at hs
    exact ⟨hs.1, rfl⟩
  | stop hlife =>
    simp only [Closing, hlife] at hs ⊢
    exact hs

theorem Closing.outside {o : Outside} (hs : s.Closing) (h : s.step size (.outside o) = some t) :
    t.Closing := by
  obtain ⟨books, -, rfl, hslots, hkilled, hspawner⟩ := outside_of_step h
  unfold Closing at hs ⊢
  cases hlife : s.lifecycle with
  | forking | starting => simp [hlife] at hs
  | signalling | clearing | stopping | ready =>
    simp only [hlife, hslots, hkilled] at hs ⊢
    first | exact hs | exact ⟨hspawner hs.1, hs.2⟩

end ForkWarmPoolExecutor

namespace Process

def Action.spawns : Action → Bool
  | .main choice | .thread _ choice => choice.spawns
  | _ => true

/-- The warm pool at each point of `main`; its calls that are not over are those of threads. -/
structure Staffed (p : Process) : Prop where
  building : p.main = .building → p.pool = {}
  forking : p.main = .forking → p.pool.Starting
  ready : p.main = .opening ∨ p.main.up = true →
    p.pool.started = true ∧ p.pool.lifecycle = .ready
  closing : p.main = .closing → p.pool.Closing
  exited : p.main = .exited → p.pool.lifecycle = .ready ∧ p.pool.Closing
  failed : p.main = .failed → p.pool.lifecycle = .ready
  calls : p.pool.calls.countP Call.outstanding = p.threads.countP PoolThread.executing

variable {capacity : Nat} {p q : Process} {a : Action} {e es : List Event}

theorem Staffed.init : Staffed (init capacity) where
  building _ := rfl
  forking hmain := by cases hmain
  ready hmain := by rcases hmain with hmain | hmain <;> cases hmain
  closing hmain := by cases hmain
  exited hmain := by cases hmain
  failed hmain := by cases hmain
  calls := by
    rw [Process.init, List.countP_replicate]
    rfl

theorem Staffed.keep (h : Staffed p) (hmain : q.main = p.main) (hpool : q.pool = p.pool)
    (hthreads : q.threads.countP PoolThread.executing = p.threads.countP PoolThread.executing) :
    Staffed q := by
  constructor <;> simp only [hmain, hpool, hthreads]
  exacts [h.building, h.forking, h.ready, h.closing, h.exited, h.failed, h.calls]

theorem Staffed.serve (hmain : q.main = .opening ∨ q.main.up = true)
    (hready : q.pool.started = true ∧ q.pool.lifecycle = .ready)
    (hcalls : q.pool.calls.countP Call.outstanding = q.threads.countP PoolThread.executing) :
    Staffed q where
  building h := by simp [h, MainPc.up] at hmain
  forking h := by simp [h, MainPc.up] at hmain
  ready _ := hready
  closing h := by simp [h, MainPc.up] at hmain
  exited h := by simp [h, MainPc.up] at hmain
  failed h := by simp [h, MainPc.up] at hmain
  calls := hcalls

theorem Staffed.atForking (hmain : q.main = .forking) (hstarting : q.pool.Starting)
    (hcalls : q.pool.calls.countP Call.outstanding = q.threads.countP PoolThread.executing) :
    Staffed q where
  building h := by simp [hmain] at h
  forking _ := hstarting
  ready h := by simp [hmain, MainPc.up] at h
  closing h := by simp [hmain] at h
  exited h := by simp [hmain] at h
  failed h := by simp [hmain] at h
  calls := hcalls

theorem Staffed.atClosing (hmain : q.main = .closing) (hclosing : q.pool.Closing)
    (hcalls : q.pool.calls.countP Call.outstanding = q.threads.countP PoolThread.executing) :
    Staffed q where
  building h := by simp [hmain] at h
  forking h := by simp [hmain] at h
  ready h := by simp [hmain, MainPc.up] at h
  closing _ := hclosing
  exited h := by simp [hmain] at h
  failed h := by simp [hmain] at h
  calls := hcalls

theorem executing_set {n : Nat} {thread thread' : PoolThread} (hn : p.threads[n]? = some thread)
    (hthread : thread.executing = false) (hthread' : thread'.executing = false) :
    (p.setThread n thread').threads.countP PoolThread.executing =
      p.threads.countP PoolThread.executing :=
  Lib.countP_set_of_eq hn (hthread'.trans hthread.symm)

theorem Staffed.execute {n k : Nat} {choice : Choice} {request : ExecuteTaskRequest}
    {pool : ForkWarmPoolExecutor} (h : Staffed p) (hup : p.main.up = true)
    (hn : p.threads[n]? = some (.execute request k))
    (hpool : p.pool.step capacity (.call k choice) = some pool) :
    Staffed ({ p with pool }.setThread n
      (if pool.calls[k]? = some Call.returned then .report request else .execute request k)) := by
  obtain ⟨c, b, c', hc, hstep, rfl⟩ := ForkWarmPoolExecutor.call_of_step hpool
  have hopen : Call.outstanding c = true := by
    cases c with
    | returned => simp [Call.step] at hstep
    | _ => rfl
  have hself : (p.pool.calls.set k c')[k]? = some c' :=
    List.getElem?_set_self (List.getElem?_eq_some_iff.mp hc).1
  refine .serve (.inr hup) (h.ready (.inr hup)) ?_
  have hcalls := Lib.countP_set (p := Call.outstanding) hc c'
  have hthreads := Lib.countP_set (p := PoolThread.executing) hn
    (if c' = Call.returned then .report request else .execute request k)
  have hbusy := h.calls
  -- the thread leaves the pool in the step in which its call is over
  have hsame : (if c' = Call.returned then PoolThread.report request
      else .execute request k).executing = Call.outstanding c' := by
    by_cases hc' : c' = .returned <;> simp [hc', Call.outstanding, PoolThread.executing]
  rw [hsame] at hthreads
  simp only [setThread, hself, Option.some.injEq]
  simp only [hopen, PoolThread.executing, Bool.toNat_true] at hcalls hthreads
  omega

theorem Staffed.outside {o : Outside} {pool : ForkWarmPoolExecutor} (h : Staffed p)
    (hpool : p.pool.step capacity (.outside o) = some pool) : Staffed { p with pool } := by
  obtain ⟨books, hout, rfl, -⟩ := ForkWarmPoolExecutor.outside_of_step hpool
  refine ⟨fun hmain => ?_, fun hmain => (h.forking hmain).outside hpool, h.ready,
    fun hmain => (h.closing hmain).outside hpool,
    fun hmain => ⟨(h.exited hmain).1, (h.exited hmain).2.outside hpool⟩, h.failed, h.calls⟩
  rw [h.building hmain] at hout
  cases o <;> simp [Books.outside] at hout

theorem Staffed.step (h : Staffed p) (hp : Phased capacity p)
    (hst : Steps .fork capacity p a q e) : Staffed q := by
  cases hst with
  | start hmain _ hpool =>
    rw [h.building hmain] at hpool
    cases hpool
    have hcalls := h.calls
    rw [h.building hmain] at hcalls
    refine .atForking rfl ⟨.inr (.inl ⟨_, rfl⟩), fun _ _ => ⟨rfl, ?_⟩⟩ hcalls
    rintro _ ⟨⟩
    rfl
  | skip _ hfork | run _ hfork | leave _ _ hfork => exact absurd rfl hfork
  | started hmain hready hstarted =>
    exact .serve (.inl rfl) ⟨hstarted, hready⟩ h.calls
  | raised hmain hready =>
    exact ⟨fun hq => (by cases hq), fun hq => (by cases hq), fun hq => (by simp [MainPc.up] at hq),
      fun hq => (by cases hq), fun hq => (by cases hq), fun _ => hready, h.calls⟩
  | fork hmain _ hpool =>
    refine .atForking hmain ((h.forking hmain).step hpool) ?_
    rw [ForkWarmPoolExecutor.calls_of_main hpool]
    exact h.calls
  | opened hmain | registered hmain | stop hmain | close hmain =>
    exact .serve (.inr rfl) (h.ready (by simp [hmain, MainPc.up])) h.calls
  | shutdown hmain _ _ hpool =>
    obtain ⟨-, hready⟩ := h.ready (.inr (by rw [hmain]; rfl))
    simp only [ForkWarmPoolExecutor.step, hready, if_true] at hpool
    cases hpool
    exact .atClosing rfl (by simp [ForkWarmPoolExecutor.Closing]) h.calls
  | kill hmain _ hpool =>
    refine .atClosing hmain ((h.closing hmain).step hpool) ?_
    rw [ForkWarmPoolExecutor.calls_of_main hpool]
    exact h.calls
  | exit hmain hready =>
    exact ⟨fun hq => (by cases hq), fun hq => (by cases hq), fun hq => (by simp [MainPc.up] at hq),
      fun hq => (by cases hq), fun _ => ⟨hready, h.closing hmain⟩, fun hq => (by cases hq), h.calls⟩
  | signal | call | inc | refuse | submit => exact h.keep rfl rfl rfl
  | take hn | report hn | dec hn => exact h.keep rfl rfl (executing_set hn rfl rfl)
  | @acquire n choice request pool hn _ hstarted hpool =>
    have hup := hp.up hn rfl
    simp only [ForkWarmPoolExecutor.step, hstarted, if_true] at hpool
    cases hpool
    refine .serve (.inr hup) ⟨rfl, (h.ready (.inr hup)).2⟩ ?_
    have hcount := Lib.countP_set (p := PoolThread.executing) hn
      (.execute request p.pool.calls.length)
    have hcalls := h.calls
    simp only [PoolThread.executing, Bool.toNat_true, Bool.toNat_false] at hcount
    simp only [setThread, List.countP_append, hcalls]
    exact hcount.symm
  | unstarted hn _ hstarted hpool =>
    have hready := (h.ready (.inr (hp.up hn rfl))).1
    simp [hready] at hstarted
  | execute hn hpool => exact h.execute (hp.up hn rfl) hn hpool
  | outside hpool => exact h.outside hpool

theorem pool_of_steps (hst : Steps .fork capacity p a q e) :
    q.pool = p.pool ∨ ∃ b, p.pool.step capacity b = some q.pool ∧
      (a.spawns = true → b.spawns = true) ∧ (b = .start → p.main = .building) ∧
      (b = .outside .die → a = .outside .die) := by
  cases hst with
  | start hmain _ hpool =>
    exact .inr ⟨_, hpool, fun _ => rfl, fun _ => hmain, fun hb => (by cases hb)⟩
  | fork _ _ hpool | kill _ _ hpool | execute _ hpool =>
    exact .inr ⟨_, hpool, id, fun hb => (by cases hb), fun hb => (by cases hb)⟩
  | shutdown _ _ _ hpool | acquire _ _ _ hpool | unstarted _ _ _ hpool =>
    exact .inr ⟨_, hpool, fun _ => rfl, fun hb => (by cases hb), fun hb => (by cases hb)⟩
  | outside hpool =>
    refine .inr ⟨_, hpool, fun _ => rfl, fun hb => (by cases hb), fun hb => ?_⟩
    cases hb
    rfl
  | _ => exact .inl rfl

structure Stocked (capacity : Nat) (p : Process) : Prop where
  known : Known p.pool.books p.pool.agents
  conserved : p.pool.serving = true →
    Conserved capacity p.pool.lifecycle.left p.pool.books p.pool.agents

theorem Stocked.init : Stocked capacity (init capacity) where
  known := ⟨by simp [Process.init], by simp [Process.init], by simp [Process.init],
    by simp [Process.init], by simp [Process.init, ForkWarmPoolExecutor.agents, Lifecycle.calls]⟩
  conserved hserving := by simp [Process.init, ForkWarmPoolExecutor.serving] at hserving

theorem Stocked.step (h : Stocked capacity p) (hstaffed : Staffed p) (hspawns : a.spawns = true)
    (hst : Steps .fork capacity p a q e) : Stocked capacity q := by
  rcases pool_of_steps hst with hpool | ⟨b, hpool, hb, hstart, -⟩
  · constructor <;> rw [hpool]
    exacts [h.known, h.conserved]
  · have hmove := ForkWarmPoolExecutor.moves_of_step hpool
    have hquiet : b = .start → p.pool.started = false → p.pool.Quiet := by
      intro heq _
      rw [hstaffed.building (hstart heq)]
      exact ⟨rfl, rfl, by simp⟩
    exact ⟨ForkWarmPoolExecutor.known_of_moves h.known hmove,
      ForkWarmPoolExecutor.conserved_of_moves h.known h.conserved (hb hspawns) hquiet hmove⟩

theorem held_add_replacing_le (calls : List Call) :
    (calls.flatMap Call.held).length + (calls.map Call.replacing).sum +
      calls.countP (· = .waiting) ≤ calls.countP Call.outstanding := by
  induction calls with
  | nil => simp
  | cons call calls ih =>
    simp only [List.flatMap_cons, List.length_append, List.map_cons, List.sum_cons,
      List.countP_cons]
    cases call <;> simp only [Call.held, Call.replacing, Call.outstanding, List.length_nil,
      List.length_singleton, ne_eq, reduceCtorEq, not_false_eq_true, not_true_eq_false, decide_true,
      decide_false, Bool.false_eq_true, if_true, if_false] <;> omega

theorem Stocked.idle {k : Nat} (h : Stocked capacity p) (hstaffed : Staffed p)
    (hphased : Phased capacity p) (hup : p.main.up = true)
    (hk : p.pool.calls[k]? = some .waiting) : p.pool.books.idle ≠ [] := by
  intro hidle
  obtain ⟨hstarted, hready⟩ := hstaffed.ready (.inr hup)
  have htotal := (h.conserved (by rw [ForkWarmPoolExecutor.serving, hready]; exact hstarted)).total
  rw [ForkWarmPoolExecutor.agents_of_ready hready, hready, hidle] at htotal
  have hwaiting : 0 < p.pool.calls.countP (· = .waiting) :=
    List.countP_pos_iff.mpr ⟨_, List.mem_of_getElem? hk, by simp⟩
  -- the waiting call has no child, and there are at most `capacity - 1` others
  have hle := held_add_replacing_le p.pool.calls
  have hthreads : p.threads.countP PoolThread.executing ≤ p.threads.length := List.countP_le_length
  rw [hstaffed.calls] at hle
  rw [hphased.length] at hthreads
  simp only [List.length_nil, Lifecycle.left] at htotal
  omega

/-- As many children as task threads: while every spawn succeeds, the warm pool turns no task
down. -/
theorem warm_pool_serves_every_task (capacity : Nat) {as : List Action}
    (h : (machine .fork capacity).Run (fun _ a => a.spawns = true) (init capacity) as es p) :
    ∀ request, .unserved request ∉ es := by
  have hinv : (Phased capacity p ∧ Staffed p ∧ Stocked capacity p) ∧
      ∀ request, Event.unserved request ∉ es := by
    refine h.invariant_trace (P := fun es p =>
      (Phased capacity p ∧ Staffed p ∧ Stocked capacity p) ∧
        ∀ request, Event.unserved request ∉ es) ?_ ?_
    · exact ⟨⟨.init, .init, .init⟩, by simp⟩
    · rintro es p a q e ⟨⟨hphased, hstaffed, hstocked⟩, hes⟩ hspawns hst
      have hst := steps_of_step hst
      refine ⟨⟨hphased.step hst, hstaffed.step hphased hst, hstocked.step hstaffed hspawns hst⟩,
        fun request hmem => ?_⟩
      rcases List.mem_append.mp hmem with hmem | hmem
      · exact hes request hmem
      · cases hst with
        | unstarted hn _ hstarted =>
          have hready := (hstaffed.ready (.inr (hphased.up hn rfl))).1
          simp [hready] at hstarted
        | execute hn hpool =>
          split at hmem
          · rename_i hempty
            exact hstocked.idle hstaffed hphased (hphased.up hn rfl) hempty.1 hempty.2
          · cases hmem
        | _ => simp at hmem
  exact hinv.2

def sampleServed : Process × List Event :=
  ((machine .fork 1).exec (fun _ a => a.spawns) (init 1)
    [.main .go, .main .go, .main .go, .main (.spawn (some ⟨1, "a"⟩)), .main .go, .main .go, .main .go,
      .main .go, .main .go, .main .go, .call (sampleTask "j"), .handler 0, .handler 0, .take 0,
      .thread 0 .go, .thread 0 .go, .thread 0 (.answer (.error (.raised ⟨.connection, []⟩))),
      .thread 0 .go, .thread 0 .go, .thread 0 (.spawn (some ⟨2, "b"⟩)), .thread 0 .go,
      .thread 0 .go, .thread 0 .go, .thread 0 .go]).get (by decide)

theorem warm_pool_serves_every_task_sample :
    .ended (sampleTask "j") ∈ sampleServed.2 ∧ .unserved (sampleTask "j") ∉ sampleServed.2 := by
  have hrun : (machine .fork 1).Run (fun _ a => a.spawns = true) (init 1) _ sampleServed.2
      sampleServed.1 := Machine.run_of_exec_get (by decide)
  exact ⟨by decide, warm_pool_serves_every_task 1 hrun (sampleTask "j")⟩

end Process

end Worker

end Minimodal
