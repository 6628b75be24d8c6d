import Minimodal.Worker.Children

namespace Minimodal

namespace Worker

open Lib (Machine)

/-- Where a child is that was forked: listed or about to be, signalled, at its end, or left behind
by a `_spawn_child` that has raised. -/
structure Traced (b : Books) (calls : List Call) : Prop where
  forked : ∀ x ∈ b.forked,
    x ∈ b.slots ++ calls.flatMap Call.unlisted ++ b.killed ++ b.exited ++ b.abandoned
  unlisting : ∀ x, .unlisting x ∈ calls → x ∈ b.killed

/-- While the spawner lives, its list has the children that have not ended; once `shutdown` has
ended it, all but one that it was just forking have been sent a signal. -/
def Watched (b : Books) : Prop :=
  match b.spawner with
  | some sp => ∀ x ∈ b.forked, x ∈ b.exited ∨ x ∈ sp.children ∨ sp.forking = some x
  | none => ∃ last, ∀ x ∈ b.forked, x ∈ b.killed ∨ x ∈ b.exited ∨ x = last

section Step

variable {b b' : Books} {c c' d : Call} {choice : Choice} {l l' : List Call} {sp : Spawner}
  {child x : ChildSlot}

namespace Traced

theorem mono (h : Traced b l) (hold : ∀ c ∈ l, c ∈ l' ∨ ∀ x ∈ c.unlisted, x ∈ b.slots)
    (hnew : ∀ x, .unlisting x ∈ l' → .unlisting x ∈ l ∨ x ∈ b.killed) : Traced b l' := by
  refine ⟨fun x hx => ?_, fun x hx => (hnew x hx).elim (h.unlisting x) id⟩
  have hforked := h.forked x hx
  simp only [List.mem_append, List.mem_flatMap] at hforked ⊢
  refine hforked.imp_left (Or.imp_left (Or.imp_left fun hx => ?_))
  rcases hx with hx | ⟨c, hc, hx⟩
  · exact .inl hx
  · rcases hold c hc with hc | hlisted
    · exact .inr ⟨c, hc, hx⟩
    · exact .inl (hlisted x hx)

theorem set (h : Traced b (l ++ c :: l')) (hc : ∀ x ∈ c.unlisted, x ∈ b.slots)
    (hd : ∀ x, d = .unlisting x → x ∈ b.killed) : Traced b (l ++ d :: l') := by
  refine h.mono (fun e he => ?_) fun x hx => ?_
  · simp only [List.mem_append, List.mem_cons] at he ⊢
    rcases he with he | rfl | he
    · exact .inl (.inl he)
    · exact .inr hc
    · exact .inl (.inr (.inr he))
  · simp only [List.mem_append, List.mem_cons] at hx ⊢
    rcases hx with hx | hx | hx
    · exact .inl (.inl hx)
    · exact .inr (hd x hx.symm)
    · exact .inl (.inr (.inr hx))

theorem slots (h : Traced b l) {slots : List ChildSlot}
    (hslots : ∀ x ∈ b.slots, x ∈ slots ∨ x ∈ b.killed) : Traced { b with slots } l := by
  refine ⟨fun x hx => ?_, h.unlisting⟩
  have hforked := h.forked x hx
  simp only [List.mem_append] at hforked ⊢
  rcases hforked with (((hx | hx) | hx) | hx) | hx
  · rcases hslots x hx with hx | hx <;> simp [hx]
  all_goals simp [hx]

theorem killed (h : Traced b l) {killed : List ChildSlot} (hkilled : ∀ x ∈ b.killed, x ∈ killed) :
    Traced { b with killed } l := by
  refine ⟨fun x hx => ?_, fun x hx => hkilled x (h.unlisting x hx)⟩
  have hforked := h.forked x hx
  simp only [List.mem_append] at hforked ⊢
  exact hforked.imp_left (Or.imp_left (Or.imp_right (hkilled x)))

theorem aside (h : Traced b l) (haside : b.Aside b') : Traced b' l := by
  refine ⟨fun x hx => ?_, haside.killed ▸ h.unlisting⟩
  have hforked := h.forked x
  cases haside with
  | ask | list => exact hforked hx
  | exit =>
    simp only [List.mem_append] at hforked ⊢
    exact (hforked hx).imp_left (Or.imp_right .inl)
  | leave | fork =>
    rcases List.mem_append.mp hx with hx | hx
    · rw [← List.append_assoc]
      exact List.mem_append_left _ (hforked hx)
    · exact List.mem_append_right _ (List.mem_append_right _ hx)

theorem step (h : Traced b (l ++ c :: l')) (hmove : Call.Moves b c choice b' c') :
    Traced b' (l ++ c' :: l') := by
  cases hmove with
  | empty | healthy | unhealthy | fail =>
    exact h.set (by simp [Call.unlisted]) fun x hx => (by cases hx)
  | @get slot =>
    have hset := h.set (d := .exchange slot) (by simp [Call.unlisted]) fun x hx => (by cases hx)
    exact { hset with }
  | release | offer =>
    have hset := h.set (d := .returned) (by simp [Call.unlisted]) fun x hx => (by cases hx)
    exact { hset with }
  | giveUp haside =>
    exact (h.aside haside).set (by simp [Call.unlisted]) fun x hx => (by cases hx)
  | @kill slot =>
    refine (h.killed fun x => List.mem_append_left _).set (by simp [Call.unlisted]) ?_
    rintro x ⟨⟩
    exact List.mem_append_right _ (List.mem_singleton_self _)
  | @unlist slot =>
    have hslot : slot ∈ b.killed := h.unlisting slot (by simp)
    refine (h.slots fun x hx => ?_).set (by simp [Call.unlisted]) fun x hx => (by cases hx)
    by_cases hx' : x = slot
    · exact .inr (hx' ▸ hslot)
    · exact .inl ((List.mem_erase_of_ne hx').mpr hx)
  | @spawn sp child =>
    have hset := h.set (d := .listing child) (by simp [Call.unlisted]) fun x hx => (by cases hx)
    refine ⟨fun x hx => ?_, hset.unlisting⟩
    rcases List.mem_append.mp hx with hx | hx
    · exact hset.forked x hx
    · simp [Call.unlisted, List.mem_singleton.mp hx]
  | list =>
    refine (h.slots fun x hx => .inl (List.mem_append_left _ hx)).set (fun x hx => ?_)
      fun x hx => (by cases hx)
    exact List.mem_append_right _ hx

end Traced

namespace Watched

theorem mono (h : Watched b) {killed : List ChildSlot} (hkilled : ∀ x ∈ b.killed, x ∈ killed) :
    Watched { b with killed } := by
  unfold Watched at h ⊢
  cases hsp : b.spawner with
  | some sp => simpa only [hsp] using h
  | none =>
    simp only [hsp] at h ⊢
    obtain ⟨last, h⟩ := h
    exact ⟨last, fun x hx => (h x hx).imp_left (hkilled x)⟩

theorem list {forked : List ChildSlot}
    (h : ∀ x ∈ forked, x ∈ b.exited ∨ x ∈ sp.children ∨ x = child) :
    ∀ x ∈ forked, x ∈ b.exited ∨ x ∈ (sp.list b.exited child).children ∨
      (sp.list b.exited child).forking = some x := by
  intro x hx
  by_cases hexited : x ∈ b.exited
  · exact .inl hexited
  · refine .inr (.inl ?_)
    simpa [Spawner.list, hexited] using h x hx

theorem fork (h : Watched b) (hsp : b.spawner = some sp) (hforking : sp.forking = none) :
    Watched { b with
      forked := b.forked ++ [child], spawner := some (sp.list b.exited child) } := by
  simp only [Watched, hsp] at h
  refine list fun x hx => ?_
  rcases List.mem_append.mp hx with hx | hx
  · exact (h x hx).imp_right (Or.imp_right fun hx => by simp [hforking] at hx)
  · exact .inr (.inr (List.mem_singleton.mp hx))

theorem aside (h : Watched b) (haside : b.Aside b') : Watched b' := by
  cases haside with
  | ask hsp =>
    simp only [Watched, hsp] at h
    exact h
  | leave hsp hforking => exact h.fork hsp hforking
  | fork hsp hforking =>
    simp only [Watched, hsp] at h ⊢
    intro x hx
    rcases List.mem_append.mp hx with hx | hx
    · exact (h x hx).imp_right (Or.imp_right fun hx => by simp [hforking] at hx)
    · exact .inr (.inr (congrArg some (List.mem_singleton.mp hx).symm))
  | list hsp hforking =>
    simp only [Watched, hsp, hforking, Option.some.injEq] at h
    exact list fun x hx => (h x hx).imp_right (Or.imp_right Eq.symm)
  | exit =>
    unfold Watched at h ⊢
    cases hsp : b.spawner with
    | some sp =>
      simp only [hsp] at h ⊢
      exact fun x hx => (h x hx).imp_left (List.mem_append_left _)
    | none =>
      simp only [hsp] at h ⊢
      obtain ⟨last, h⟩ := h
      exact ⟨last, fun x hx => (h x hx).imp_right (Or.imp_left (List.mem_append_left _))⟩

theorem step (h : Watched b) (hmove : Call.Moves b c choice b' c') : Watched b' := by
  cases hmove with
  | empty | healthy | unhealthy | fail | get | release | offer | unlist | list => exact h
  | giveUp haside => exact h.aside haside
  | kill => exact h.mono fun x => List.mem_append_left _
  | spawn hsp hforking => exact h.fork hsp hforking

theorem endSpawner (h : Watched b) : Watched b.endSpawner := by
  unfold Watched at h
  cases hsp : b.spawner with
  | some sp =>
    simp only [hsp] at h
    refine ⟨sp.forking.getD ⟨0, ""⟩, fun x hx => ?_⟩
    rcases h x hx with hx | hx | hx
    · exact .inr (.inl hx)
    · exact .inl (List.mem_append_right _ (by simpa [hsp] using hx))
    · exact .inr (.inr (by simp [hx]))
  | none =>
    simp only [hsp] at h
    obtain ⟨last, h⟩ := h
    exact ⟨last, fun x hx => (h x hx).imp_left (List.mem_append_left _)⟩

theorem of_empty (h : b.forked = []) : Watched b := by
  unfold Watched
  split
  · simp [h]
  · exact ⟨⟨0, ""⟩, by simp [h]⟩

end Watched

end Step

namespace ForkWarmPoolExecutor

variable {size : Nat} {s t : ForkWarmPoolExecutor} {a : Action}

theorem traced_of_moves (h : Traced s.books s.agents)
    (hclear : s.lifecycle = .clearing → ∀ x ∈ s.books.slots, x ∈ s.books.killed)
    (hmove : Moves size s a t) : Traced t.books t.agents := by
  have hcalls (hlife : s.lifecycle.calls.flatMap Call.unlisted = []) : Traced s.books s.calls := by
    refine h.mono (fun c hc => ?_) fun x hx => .inl (List.mem_append_right _ hx)
    rcases List.mem_append.mp hc with hc | hc
    · exact .inr (by simp [List.flatMap_eq_nil_iff.mp hlife c hc])
    · exact .inl hc
  cases hmove with
  | keep => exact h
  | start hlife | abort hlife | begun hlife | shutdown hlife | stop hlife =>
    exact { hcalls (by rw [hlife]; rfl) with }
  | await hlife | ask hlife =>
    exact (hcalls (by rw [hlife]; rfl)).mono (fun c hc => .inl (List.mem_cons_of_mem _ hc))
      fun x hx => .inl (by simpa [agents, Lifecycle.calls] using hx)
  | raise hlife hmove =>
    rw [agents, hlife] at h
    have hstep := h.step hmove (l := [])
    refine hstep.mono (fun c hc => ?_) fun x hx => .inl (List.mem_cons_of_mem _ hx)
    rcases List.mem_cons.mp hc with rfl | hc
    · exact .inr (by simp [Call.unlisted])
    · exact .inl hc
  | child hlife hmove =>
    rw [agents, hlife] at h
    exact h.step hmove (l := [])
  | signal hlife =>
    exact (hcalls (by rw [hlife]; rfl)).killed fun x => List.mem_append_left _
  | kill hlife =>
    exact { (hcalls (by rw [hlife]; rfl)).killed fun x => List.mem_append_left _ with }
  | clear hlife => exact (hcalls (by rw [hlife]; rfl)).slots fun x hx => .inr (hclear hlife x hx)
  | execute =>
    rw [agents, ← List.append_assoc]
    exact h.mono (fun c hc => .inl (List.mem_append_left _ hc)) fun x hx =>
      .inl (by simpa [agents] using hx)
  | call hc hmove =>
    obtain ⟨l, l', hagents, hset⟩ := exists_agents_set hc _
    rw [hagents] at h
    rw [agents, hset]
    exact h.step hmove
  | aside haside => exact h.aside haside
  | die => exact { h with }

theorem watched_of_moves (h : Watched s.books) (hdie : a ≠ .outside .die)
    (hstart : a = .start ∨ (∃ left, s.lifecycle = .forking left) → s.books.forked = [])
    (hmove : Moves size s a t) : Watched t.books := by
  cases hmove with
  | keep | await | begun | ask | shutdown | clear | stop | execute => exact h
  | start => exact .of_empty (hstart (.inl rfl))
  | abort hlife => exact .of_empty (hstart (.inr ⟨_, hlife⟩))
  | raise _ hmove | child _ hmove | call _ hmove => exact h.step hmove
  | signal => exact h.mono fun x => List.mem_append_left _
  | kill => exact h.endSpawner
  | aside haside => exact h.aside haside
  | die => exact absurd rfl hdie

end ForkWarmPoolExecutor

namespace Process

variable {capacity : Nat} {p q : Process} {a : Action} {e es : List Event}

theorem Staffed.clearing (h : Staffed p) (hlife : p.pool.lifecycle = .clearing) :
    ∀ x ∈ p.pool.books.slots, x ∈ p.pool.books.killed := by
  cases hmain : p.main with
  | building => simp [h.building hmain] at hlife
  | forking =>
    have hopens := (h.forking hmain).opens
    simp [hlife] at hopens
  | opening | registering | serving | stopping | joining =>
    cases hlife.symm.trans (h.ready (by simp [hmain, MainPc.up])).2
  | closing =>
    have hclosing := h.closing hmain
    rw [ForkWarmPoolExecutor.Closing, hlife] at hclosing
    exact hclosing.2
  | exited => cases hlife.symm.trans (h.exited hmain).1
  | failed => cases hlife.symm.trans (h.failed hmain)

theorem Staffed.forking_empty {left : Nat} (h : Staffed p)
    (hlife : p.pool.lifecycle = .forking left) : p.pool.books.forked = [] := by
  cases hmain : p.main with
  | building => simp [h.building hmain] at hlife
  | forking => exact ((h.forking hmain).fresh left hlife).1
  | opening | registering | serving | stopping | joining =>
    cases hlife.symm.trans (h.ready (by simp [hmain, MainPc.up])).2
  | closing =>
    have hclosing := h.closing hmain
    rw [ForkWarmPoolExecutor.Closing, hlife] at hclosing
    exact hclosing.elim
  | exited => cases hlife.symm.trans (h.exited hmain).1
  | failed => cases hlife.symm.trans (h.failed hmain)

theorem traced_of_steps (h : Traced p.pool.books p.pool.agents) (hstaffed : Staffed p)
    (hst : Steps .fork capacity p a q e) : Traced q.pool.books q.pool.agents := by
  rcases pool_of_steps hst with hpool | ⟨b, hpool, -⟩
  · rwa [hpool]
  · exact ForkWarmPoolExecutor.traced_of_moves h hstaffed.clearing
      (ForkWarmPoolExecutor.moves_of_step hpool)

theorem watched_of_steps (h : Watched p.pool.books) (hstaffed : Staffed p)
    (hdie : a ≠ .outside .die) (hst : Steps .fork capacity p a q e) : Watched q.pool.books := by
  rcases pool_of_steps hst with hpool | ⟨b, hpool, -, hstart, hb⟩
  · rwa [hpool]
  · refine ForkWarmPoolExecutor.watched_of_moves h (fun heq => hdie (hb heq)) ?_
      (ForkWarmPoolExecutor.moves_of_step hpool)
    rintro (heq | ⟨left, hlife⟩)
    · rw [hstaffed.building (hstart heq)]
    · exact hstaffed.forking_empty hlife

theorem Staffed.unheld (h : Staffed p) (hphased : Phased capacity p) (hdown : p.main.up = false) :
    p.pool.calls.countP Call.outstanding = 0 := by
  rw [h.calls]
  refine List.countP_eq_zero.mpr fun thread hmem => ?_
  rw [hphased.idle hdown thread hmem]
  simp [PoolThread.executing]

structure Accounted (capacity : Nat) (as : List Action) (p : Process) : Prop where
  phased : Phased capacity p
  staffed : Staffed p
  traced : Traced p.pool.books p.pool.agents
  watched : .outside .die ∉ as → Watched p.pool.books

theorem accounted_of_run {as : List Action}
    (h : (machine .fork capacity).Run Machine.Always (init capacity) as es p) :
    Accounted capacity as p := by
  refine h.invariant_history (P := fun as _ p => Accounted capacity as p) ?_ ?_
  · exact ⟨.init, .init, ⟨by simp [init], by simp [init, ForkWarmPoolExecutor.agents,
      Lifecycle.calls]⟩, fun _ => .of_empty rfl⟩
  · rintro as es p a q e - ⟨hphased, hstaffed, htraced, hwatched⟩ - hst
    have hst := steps_of_step hst
    refine ⟨hphased.step hst, hstaffed.step hphased hst, traced_of_steps htraced hstaffed hst,
      fun hdie => ?_⟩
    simp only [List.mem_append, List.mem_singleton, not_or] at hdie
    exact watched_of_steps (hwatched hdie.1) hstaffed (Ne.symm hdie.2) hst

/-- `main` sends signals before the gRPC server is up or after the task pool is down, but for the
call of `shutdown`, which only begins with them. -/
theorem Staffed.down_of_signal (h : Staffed p) {choice : Choice} {q : Process} {e : List Event}
    (hst : p.step .fork capacity (.main choice) = some (q, e))
    (hkilled : q.pool.books.killed ≠ p.pool.books.killed) : p.main.up = false := by
  cases steps_of_step hst with
  | start hmain | skip hmain | started hmain | raised hmain | fork hmain | opened hmain
  | kill hmain | exit hmain => rw [hmain]; rfl
  | registered | stop | close | leave => exact absurd rfl hkilled
  | shutdown hmain _ _ hpool =>
    obtain ⟨-, hready⟩ := h.ready (.inr (by rw [hmain]; rfl))
    simp only [ForkWarmPoolExecutor.step, hready, if_true] at hpool
    cases hpool
    exact absurd rfl hkilled

theorem Staffed.unlisted (h : Staffed p) (hphased : Phased capacity p) (hmain : p.main = .exited) :
    p.pool.calls.flatMap Call.unlisted = [] := by
  have hcalls := h.unheld hphased (by rw [hmain]; rfl)
  refine List.flatMap_eq_nil_iff.mpr fun c hc => ?_
  obtain rfl : c = .returned := by
    simpa [Call.outstanding] using List.countP_eq_zero.mp hcalls c hc
  rfl

/-- `main` signals children only while no task is in one. Once it has left, every child that was
forked has been sent a signal or has ended, but for those that a `_spawn_child` has left behind; and
all but one of these too, unless the spawner has died. -/
theorem shutdown_spares_tasks (capacity : Nat) {as : List Action}
    (h : (machine .fork capacity).Run Machine.Always (init capacity) as es p) :
    (∀ choice q e, p.step .fork capacity (.main choice) = some (q, e) →
      q.pool.books.killed ≠ p.pool.books.killed → p.pool.held = [] ∧ p.pool.replacing = 0) ∧
      (p.main = .exited → ∀ x ∈ p.pool.books.forked,
        x ∈ p.pool.books.killed ∨ x ∈ p.pool.books.exited ∨ x ∈ p.pool.books.abandoned) ∧
      (p.main = .exited → .outside .die ∉ as → ∃ last, ∀ x ∈ p.pool.books.forked,
        x ∈ p.pool.books.killed ∨ x ∈ p.pool.books.exited ∨ x = last) := by
  obtain ⟨hphased, hstaffed, htraced, hwatched⟩ := accounted_of_run h
  refine ⟨fun choice q e hst hkilled => ?_, fun hmain x hx => ?_, fun hmain hdie => ?_⟩
  · have hle := held_add_replacing_le p.pool.calls
    rw [hstaffed.unheld hphased (hstaffed.down_of_signal hst hkilled)] at hle
    exact ⟨List.eq_nil_of_length_eq_zero (by rw [ForkWarmPoolExecutor.held]; omega),
      by rw [ForkWarmPoolExecutor.replacing]; omega⟩
  · obtain ⟨hready, hclosing⟩ := hstaffed.exited hmain
    rw [ForkWarmPoolExecutor.Closing, hready] at hclosing
    have hforked := htraced.forked x hx
    rw [ForkWarmPoolExecutor.agents_of_ready hready, hstaffed.unlisted hphased hmain,
      hclosing.2] at hforked
    simpa using hforked
  · obtain ⟨hready, hclosing⟩ := hstaffed.exited hmain
    rw [ForkWarmPoolExecutor.Closing, hready] at hclosing
    have hw := hwatched hdie
    rw [Watched, hclosing.1] at hw
    exact hw

def sampleClosing : Process × List Event :=
  ((machine .fork 1).exec (fun _ _ => true) sampleServed.1
    [.call (sampleTask "k"), .handler 1, .handler 1, .take 0, .thread 0 .go, .thread 0 .go,
      .thread 0 (.answer (.error (.raised ⟨.connection, []⟩))), .thread 0 .go, .thread 0 .go,
      .thread 0 (.giveUp none), .thread 0 .go, .thread 0 .go, .outside (.fork ⟨3, "c"⟩),
      .outside .list, .signal, .main .go, .main .go, .main .go]).get (by decide)

def sampleExited : Process × List Event :=
  ((machine .fork 1).exec (fun _ _ => true) sampleClosing.1
    (List.replicate 4 (.main .go))).get (by decide)

theorem shutdown_spares_tasks_sample :
    sampleClosing.1.pool.held = [] ∧
      sampleExited.1.pool.books.forked = [⟨1, "a"⟩, ⟨2, "b"⟩, ⟨3, "c"⟩] ∧
      sampleExited.1.pool.books.abandoned = [⟨3, "c"⟩] ∧
      (∀ x ∈ sampleExited.1.pool.books.forked, x ∈ sampleExited.1.pool.books.killed ∨
        x ∈ sampleExited.1.pool.books.exited ∨ x ∈ sampleExited.1.pool.books.abandoned) ∧
      ∃ last, ∀ x ∈ sampleExited.1.pool.books.forked, x ∈ sampleExited.1.pool.books.killed ∨
        x ∈ sampleExited.1.pool.books.exited ∨ x = last := by
  have hserved : (machine .fork 1).Run Machine.Always (init 1) _ sampleServed.2 sampleServed.1 :=
    (Machine.run_of_exec_get (by decide)).mono fun _ _ _ => trivial
  have hsignalled : (machine .fork 1).Run Machine.Always sampleServed.1 _ sampleClosing.2
      sampleClosing.1 := (Machine.run_of_exec_get (by decide)).mono fun _ _ _ => trivial
  have hexited : (machine .fork 1).Run Machine.Always sampleClosing.1 _ sampleExited.2
      sampleExited.1 := (Machine.run_of_exec_get (by decide)).mono fun _ _ _ => trivial
  have hclosing := hserved.trans hsignalled
  obtain ⟨-, hforked, hwatched⟩ := shutdown_spares_tasks 1 (hclosing.trans hexited)
  exact ⟨((shutdown_spares_tasks 1 hclosing).1 .go _ _ rfl (by decide)).1, by decide, by decide,
    hforked (by decide), hwatched (by decide) (by simp)⟩

end Process

end Worker

end Minimodal
