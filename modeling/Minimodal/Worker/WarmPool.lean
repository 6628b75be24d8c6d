import Minimodal.Lib.Machine
import Minimodal.Worker.Executor

namespace Minimodal

namespace Worker

open Lib (Effect Machine)

structure ChildSlot where
  pid : Nat
  sockPath : String
  deriving DecidableEq, Repr

def healthy : Except Stop ExecutionResult → Bool
  | .ok _ => true
  | .error stop => stop.kind ≠ some .connection

/-- The spawner process: `children` is its list, `requests` are those whose caller has given up,
`forking` is a child that it has forked for one of them and not listed yet. -/
structure Spawner where
  children : List ChildSlot := []
  requests : Nat := 0
  forking : Option ChildSlot := none
  deriving DecidableEq, Repr

/-- `children.append`, and the reaping that ends a request. -/
def Spawner.list (sp : Spawner) (exited : List ChildSlot) (child : ChildSlot) : Spawner :=
  { sp with children := (sp.children ++ [child]).filter (· ∉ exited), forking := none }

/-- The two containers of the pool, the spawner, and its children: those forked so far, those that
were sent a signal, those that have ended, and those of a `_spawn_child` that has raised. -/
structure Books where
  slots : List ChildSlot := []
  idle : List ChildSlot := []
  spawner : Option Spawner := none
  forked : List ChildSlot := []
  killed : List ChildSlot := []
  exited : List ChildSlot := []
  abandoned : List ChildSlot := []
  deriving DecidableEq, Repr

/-- What goes on outside the worker process. The spawner serves a request that its caller has given
up on in two steps, so that a signal can come in between; it may die, and so may a child. -/
inductive Outside
  | fork (child : ChildSlot)
  | list
  | die
  | exit (child : ChildSlot)
  deriving DecidableEq, Repr

namespace Books

variable (b : Books)

/-- The spawner serves a request; a socket path is used once. -/
def fork (child : ChildSlot) : Option Books :=
  b.spawner.bind fun sp =>
    if sp.forking = none ∧ child ∉ b.forked then
      some { b with forked := b.forked ++ [child], spawner := some (sp.list b.exited child) }
    else none

def ask : Option Books :=
  b.spawner.map fun sp => { b with spawner := some { sp with requests := sp.requests + 1 } }

def outside : Outside → Option Books
  | .fork child =>
    b.spawner.bind fun sp =>
      if 0 < sp.requests ∧ sp.forking = none ∧ child ∉ b.forked then
        some { b with
          forked := b.forked ++ [child]
          abandoned := b.abandoned ++ [child]
          spawner := some { sp with requests := sp.requests - 1, forking := some child } }
      else none
  | .list =>
    b.spawner.bind fun sp =>
      sp.forking.map fun child => { b with spawner := some (sp.list b.exited child) }
  | .die => b.spawner.map fun _ => { b with spawner := none }
  | .exit child =>
    if child ∈ b.forked then some { b with exited := b.exited ++ [child] } else none

/-- `SIGTERM` ends the spawner, which hands the signal on. -/
def endSpawner : Books :=
  { b with killed := b.killed ++ b.spawner.elim [] Spawner.children, spawner := none }

end Books

/-- Where a call of `execute` is. `broken` to `offering` is `_replace`. -/
inductive Call
  | waiting
  | exchange (slot : ChildSlot)
  | release (slot : ChildSlot)
  | broken (slot : ChildSlot)
  | unlisting (slot : ChildSlot)
  | spawning
  | listing (fresh : ChildSlot)
  | offering (fresh : ChildSlot)
  | returned
  deriving DecidableEq, Repr

/-- What the environment decides: an answer of the child, or how `_spawn_child` ends. With `giveUp`
it raises though the spawner has the request and has forked `child` for it, or still can. -/
inductive Choice
  | go
  | answer (result : Except Stop ExecutionResult)
  | spawn (child : Option ChildSlot)
  | giveUp (child : Option ChildSlot)

def Choice.spawns : Choice → Bool
  | .spawn none | .giveUp _ => false
  | _ => true

namespace Call

def step (b : Books) : Call → Choice → Option (Books × Call)
  | .waiting, .go =>
    match b.idle with
    -- `queue.Empty`, after the timeout
    | [] => some (b, .returned)
    | slot :: idle => some ({ b with idle }, .exchange slot)
  | .exchange slot, .answer result =>
    some (b, if healthy result then .release slot else .broken slot)
  | .release slot, .go => some ({ b with idle := b.idle ++ [slot] }, .returned)
  | .broken slot, .go => some ({ b with killed := b.killed ++ [slot] }, .unlisting slot)
  | .unlisting slot, .go => some ({ b with slots := b.slots.erase slot }, .spawning)
  | .spawning, .spawn (some child) => (b.fork child).map (·, .listing child)
  | .spawning, .spawn none => some (b, .returned)
  | .spawning, .giveUp none => b.ask.map (·, .returned)
  | .spawning, .giveUp (some child) =>
    (b.fork child).map fun b => ({ b with abandoned := b.abandoned ++ [child] }, .returned)
  | .listing fresh, .go => some ({ b with slots := b.slots ++ [fresh] }, .offering fresh)
  | .offering fresh, .go => some ({ b with idle := b.idle ++ [fresh] }, .returned)
  | _, _ => none

def run (b : Books) (c : Call) : List Choice → Option (Books × Call)
  | [] => some (b, c)
  | choice :: choices =>
    match c.step b choice with
    | none => none
    | some (b, c) => c.run b choices

end Call

inductive Books.Aside (b : Books) : Books → Prop
  | ask {sp} : b.spawner = some sp →
      Aside b { b with spawner := some { sp with requests := sp.requests + 1 } }
  | leave {sp child} : b.spawner = some sp → sp.forking = none → child ∉ b.forked →
      Aside b { b with
        forked := b.forked ++ [child]
        abandoned := b.abandoned ++ [child]
        spawner := some (sp.list b.exited child) }
  | fork {sp child requests} : b.spawner = some sp → sp.forking = none → child ∉ b.forked →
      Aside b { b with
        forked := b.forked ++ [child]
        abandoned := b.abandoned ++ [child]
        spawner := some { sp with requests, forking := some child } }
  | list {sp child} : b.spawner = some sp → sp.forking = some child →
      Aside b { b with spawner := some (sp.list b.exited child) }
  | exit {child} : Aside b { b with exited := b.exited ++ [child] }

namespace Books

variable {b b' : Books} {child : ChildSlot}

theorem fork_eq_some (h : b.fork child = some b') :
    ∃ sp, b.spawner = some sp ∧ sp.forking = none ∧ child ∉ b.forked ∧
      b' = { b with forked := b.forked ++ [child], spawner := some (sp.list b.exited child) } := by
  simp only [fork, Option.bind_eq_some_iff, Option.ite_none_right_eq_some, Option.some.injEq] at h
  obtain ⟨sp, hsp, ⟨hforking, hfresh⟩, rfl⟩ := h
  exact ⟨sp, hsp, hforking, hfresh, rfl⟩

theorem fork_isSome (h : (b.fork child).isSome = true) :
    ∃ sp, b.spawner = some sp ∧ sp.forking = none ∧ child ∉ b.forked := by
  obtain ⟨b', hfork⟩ := Option.isSome_iff_exists.mp h
  obtain ⟨sp, hsp, hforking, hfresh, -⟩ := fork_eq_some hfork
  exact ⟨sp, hsp, hforking, hfresh⟩

theorem aside_of_ask (h : b.ask = some b') : b.Aside b' := by
  simp only [ask, Option.map_eq_some_iff] at h
  obtain ⟨sp, hsp, rfl⟩ := h
  exact .ask hsp

theorem aside_of_outside {o : Outside} (h : b.outside o = some b') :
    b.Aside b' ∨ o = .die ∧ b' = { b with spawner := none } := by
  cases o with
  | fork child =>
    simp only [outside, Option.bind_eq_some_iff, Option.ite_none_right_eq_some,
      Option.some.injEq] at h
    obtain ⟨sp, hsp, ⟨-, hforking, hfresh⟩, rfl⟩ := h
    exact .inl (.fork hsp hforking hfresh)
  | list =>
    simp only [outside, Option.bind_eq_some_iff, Option.map_eq_some_iff] at h
    obtain ⟨sp, hsp, child, hforking, rfl⟩ := h
    exact .inl (.list hsp hforking)
  | die =>
    simp only [outside, Option.map_eq_some_iff] at h
    obtain ⟨-, -, rfl⟩ := h
    exact .inr ⟨rfl, rfl⟩
  | exit child =>
    simp only [outside, Option.ite_none_right_eq_some, Option.some.injEq] at h
    obtain ⟨-, rfl⟩ := h
    exact .inl .exit

end Books

namespace Call

inductive Moves (b : Books) : Call → Choice → Books → Call → Prop
  | get {slot idle} : b.idle = slot :: idle →
      Moves b .waiting .go { b with idle } (.exchange slot)
  | empty : Moves b .waiting .go b .returned
  | healthy {slot result} : Moves b (.exchange slot) (.answer result) b (.release slot)
  | unhealthy {slot result} : Moves b (.exchange slot) (.answer result) b (.broken slot)
  | release {slot} : Moves b (.release slot) .go { b with idle := b.idle ++ [slot] } .returned
  | kill {slot} :
      Moves b (.broken slot) .go { b with killed := b.killed ++ [slot] } (.unlisting slot)
  | unlist {slot} :
      Moves b (.unlisting slot) .go { b with slots := b.slots.erase slot } .spawning
  | spawn {sp child} : b.spawner = some sp → sp.forking = none → child ∉ b.forked →
      Moves b .spawning (.spawn (some child))
        { b with forked := b.forked ++ [child], spawner := some (sp.list b.exited child) }
        (.listing child)
  | fail : Moves b .spawning (.spawn none) b .returned
  | giveUp {child b'} : b.Aside b' → Moves b .spawning (.giveUp child) b' .returned
  | list {fresh} :
      Moves b (.listing fresh) .go { b with slots := b.slots ++ [fresh] } (.offering fresh)
  | offer {fresh} :
      Moves b (.offering fresh) .go { b with idle := b.idle ++ [fresh] } .returned

theorem moves_of_step {b b' : Books} {call call' : Call} {choice : Choice}
    (h : step b call choice = some (b', call')) : Moves b call choice b' call' := by
  unfold step at h
  split at h
  · split at h <;> cases h
    · exact .empty
    · exact .get ‹_›
  · cases h
    split
    · exact .healthy
    · exact .unhealthy
  · cases h; exact .release
  · cases h; exact .kill
  · cases h; exact .unlist
  · simp only [Option.map_eq_some_iff, Prod.mk.injEq] at h
    obtain ⟨books, hfork, rfl, rfl⟩ := h
    obtain ⟨sp, hsp, hforking, hfresh, rfl⟩ := Books.fork_eq_some hfork
    exact .spawn hsp hforking hfresh
  · cases h; exact .fail
  · simp only [Option.map_eq_some_iff, Prod.mk.injEq] at h
    obtain ⟨books, hask, rfl, rfl⟩ := h
    exact .giveUp (Books.aside_of_ask hask)
  · simp only [Option.map_eq_some_iff, Prod.mk.injEq] at h
    obtain ⟨books, hfork, rfl, rfl⟩ := h
    obtain ⟨sp, hsp, hforking, hfresh, rfl⟩ := Books.fork_eq_some hfork
    exact .giveUp (.leave hsp hforking hfresh)
  · cases h; exact .list
  · cases h; exact .offer
  · cases h

def held : Call → List ChildSlot
  | .exchange slot | .release slot | .broken slot | .unlisting slot | .offering slot => [slot]
  | _ => []

def live : Call → List ChildSlot
  | .unlisting _ => []
  | call => call.held

def unlisted : Call → List ChildSlot
  | .listing fresh => [fresh]
  | _ => []

def replacing : Call → Nat
  | .spawning | .listing _ => 1
  | _ => 0

end Call

/-- The slots in the idle queue and in the hands of the calls are those of `_slots`; `left` slots
are still to be asked for. -/
structure Conserved (size left : Nat) (b : Books) (calls : List Call) : Prop where
  balance : ∀ x, b.idle.count x + (calls.flatMap Call.held).count x = b.slots.count x
  once : ∀ x, b.slots.count x + (calls.flatMap Call.unlisted).count x ≤ 1
  alive : ∀ x ∈ b.killed, b.idle.count x + (calls.flatMap Call.live).count x +
    (calls.flatMap Call.unlisted).count x = 0
  total : b.idle.length + (calls.flatMap Call.held).length + (calls.map Call.replacing).sum + left =
    size

structure Known (b : Books) (calls : List Call) : Prop where
  slots : ∀ x ∈ b.slots, x ∈ b.forked
  idle : ∀ x ∈ b.idle, x ∈ b.forked
  killed : ∀ x ∈ b.killed, x ∈ b.forked
  spawner : ∀ sp, b.spawner = some sp → ∀ x ∈ sp.children ++ sp.forking.toList, x ∈ b.forked
  calls : ∀ call ∈ calls, ∀ x ∈ call.held ++ call.unlisted, x ∈ b.forked

section Step

variable {size left : Nat} {b b' : Books} {c c' : Call} {choice : Choice} {l l' : List Call}

theorem Known.set (h : Known b (l ++ c :: l')) (d : Call)
    (hd : ∀ x ∈ d.held ++ d.unlisted, x ∈ b.forked) : Known b (l ++ d :: l') := by
  refine ⟨h.slots, h.idle, h.killed, h.spawner, fun call hcall => ?_⟩
  rcases List.mem_append.mp hcall with hcall | hcall
  · exact h.calls call (List.mem_append_left _ hcall)
  · rcases List.mem_cons.mp hcall with rfl | hcall
    · exact hd
    · exact h.calls call (List.mem_append_right _ (List.mem_cons_of_mem _ hcall))

theorem Known.respawn (h : Known b l) {forked : List ChildSlot} {spawner : Option Spawner}
    (hsub : ∀ x ∈ b.forked, x ∈ forked)
    (hspawner : ∀ sp, spawner = some sp → ∀ x ∈ sp.children ++ sp.forking.toList, x ∈ forked) :
    Known { b with forked, spawner } l where
  slots x hx := hsub x (h.slots x hx)
  idle x hx := hsub x (h.idle x hx)
  killed x hx := hsub x (h.killed x hx)
  spawner := hspawner
  calls call hcall x hx := hsub x (h.calls call hcall x hx)

theorem Known.list (h : Known b l) {sp : Spawner} {child : ChildSlot} (hsp : b.spawner = some sp)
    {forked exited : List ChildSlot} (hsub : ∀ x ∈ b.forked, x ∈ forked) (hchild : child ∈ forked) :
    ∀ sp', some (sp.list exited child) = some sp' →
      ∀ x ∈ sp'.children ++ sp'.forking.toList, x ∈ forked := by
  rintro _ ⟨⟩ x hx
  simp only [Spawner.list, Option.toList_none, List.append_nil, List.mem_filter, List.mem_append,
    List.mem_singleton] at hx
  rcases hx.1 with hx | rfl
  · exact hsub x (h.spawner sp hsp x (List.mem_append_left _ hx))
  · exact hchild

theorem Known.fork (h : Known b l) {sp : Spawner} {child : ChildSlot} (hsp : b.spawner = some sp) :
    Known { b with
      forked := b.forked ++ [child], spawner := some (sp.list b.exited child) } l :=
  h.respawn (fun _ => List.mem_append_left _)
    (h.list hsp (fun _ => List.mem_append_left _) (by simp))

theorem Known.aside (h : Known b l) (haside : b.Aside b') : Known b' l := by
  cases haside with
  | ask hsp =>
    refine h.respawn (fun _ => id) ?_
    rintro _ ⟨⟩ x hx
    exact h.spawner _ hsp x hx
  | leave hsp => exact { h.fork hsp with }
  | @fork sp child requests hsp =>
    have hspawner : ∀ sp', some { sp with requests, forking := some child } = some sp' →
        ∀ x ∈ sp'.children ++ sp'.forking.toList, x ∈ b.forked ++ [child] := by
      rintro _ ⟨⟩ x hx
      simp only [Option.toList_some, List.mem_append, List.mem_singleton] at hx ⊢
      exact hx.imp_left fun hx => h.spawner _ hsp x (List.mem_append_left _ hx)
    exact { h.respawn (fun _ => List.mem_append_left _) hspawner with }
  | list hsp hforking =>
    refine h.respawn (fun _ => id) (h.list hsp (fun _ => id) ?_)
    exact h.spawner _ hsp _ (by simp [hforking])
  | exit => exact { h with }

theorem Known.mono (h : Known b l) (hsub : ∀ c ∈ l', c ∈ l ∨ c.held ++ c.unlisted = []) :
    Known b l' := by
  refine ⟨h.slots, h.idle, h.killed, h.spawner, fun c hc => ?_⟩
  rcases hsub c hc with hc | hnil
  · exact h.calls c hc
  · rw [hnil]
    exact nofun

theorem mem_of_mem_snoc {xs forked : List ChildSlot} {y : ChildSlot} (h : ∀ x ∈ xs, x ∈ forked)
    (hy : y ∈ forked) : ∀ x ∈ xs ++ [y], x ∈ forked := by
  intro x hx
  rcases List.mem_append.mp hx with hx | hx
  · exact h x hx
  · rwa [List.mem_singleton.mp hx]

theorem Known.step (h : Known b (l ++ c :: l')) (hmove : Call.Moves b c choice b' c') :
    Known b' (l ++ c' :: l') := by
  have hc : ∀ x ∈ c.held ++ c.unlisted, x ∈ b.forked := h.calls c (by simp)
  cases hmove with
  | @get slot idle hidle =>
    have hmem : ∀ x ∈ slot :: idle, x ∈ b.forked := hidle ▸ h.idle
    have hset := h.set (.exchange slot) fun x hx => hmem x (by simp_all [Call.held, Call.unlisted])
    exact { hset with idle := fun x hx => hmem x (List.mem_cons_of_mem _ hx) }
  | empty | fail => exact h.set _ nofun
  | giveUp haside => exact (h.aside haside).set _ nofun
  | healthy | unhealthy => exact h.set _ hc
  | @release slot | @offer slot =>
    exact { h.set .returned nofun with
      idle := mem_of_mem_snoc h.idle (hc slot (by simp [Call.held])) }
  | @kill slot =>
    exact { h.set (.unlisting slot) hc with
      killed := mem_of_mem_snoc h.killed (hc slot (by simp [Call.held])) }
  | @unlist slot =>
    exact { h.set .spawning nofun with
      slots := fun x hx => h.slots x (List.mem_of_mem_erase hx) }
  | @spawn sp child hsp =>
    refine (h.fork hsp).set _ fun x hx => List.mem_append_right _ ?_
    simpa [Call.held, Call.unlisted] using hx
  | @list fresh =>
    exact { h.set (.offering fresh) hc with
      slots := mem_of_mem_snoc h.slots (hc fresh (by simp [Call.held, Call.unlisted])) }

theorem Books.Aside.slots (h : b.Aside b') : b'.slots = b.slots := by cases h <;> rfl

theorem Books.Aside.idle (h : b.Aside b') : b'.idle = b.idle := by cases h <;> rfl

theorem Books.Aside.killed (h : b.Aside b') : b'.killed = b.killed := by cases h <;> rfl

theorem Conserved.aside (h : Conserved size left b l) (haside : b.Aside b') :
    Conserved size left b' l := by
  constructor <;> simp only [haside.slots, haside.idle, haside.killed]
  exacts [h.balance, h.once, h.alive, h.total]

theorem Conserved.step_balance (h : Conserved size left b (l ++ c :: l'))
    (hmove : Call.Moves b c choice b' c') (x : ChildSlot) :
    b'.idle.count x + ((l ++ c' :: l').flatMap Call.held).count x = b'.slots.count x := by
  have hbalance := h.balance x
  simp only [List.flatMap_append, List.flatMap_cons, List.count_append] at hbalance ⊢
  cases hmove with
  | get hidle =>
    rw [hidle, ← List.singleton_append, List.count_append] at hbalance
    simp only [Call.held, List.count_nil] at hbalance ⊢
    omega
  | @unlist slot =>
    -- the slot that leaves `_slots` is the one in hand
    simp [Call.held, List.count_erase, List.count_cons] at hbalance ⊢
    omega
  | giveUp haside =>
    rw [haside.idle, haside.slots]
    exact hbalance
  | _ =>
    simp only [Call.held, List.count_nil, List.count_append] at hbalance ⊢
    omega

theorem Known.count_fresh {calls : List Call} {child : ChildSlot} (h : Known b calls)
    (hchild : child ∉ b.forked) :
    b.slots.count child = 0 ∧ (calls.flatMap Call.unlisted).count child = 0 := by
  refine ⟨List.count_eq_zero.mpr fun hmem => hchild (h.slots child hmem),
    List.count_eq_zero.mpr fun hmem => ?_⟩
  obtain ⟨call, hcall, hmem⟩ := List.mem_flatMap.mp hmem
  exact hchild (h.calls call hcall child (List.mem_append_right _ hmem))

theorem Conserved.step_once (h : Conserved size left b (l ++ c :: l'))
    (hknown : Known b (l ++ c :: l')) (hmove : Call.Moves b c choice b' c') (x : ChildSlot) :
    b'.slots.count x + ((l ++ c' :: l').flatMap Call.unlisted).count x ≤ 1 := by
  have honce := h.once x
  simp only [List.flatMap_append, List.flatMap_cons, List.count_append] at honce ⊢
  cases hmove with
  | @unlist slot =>
    have hle := (List.erase_sublist (a := slot) (l := b.slots)).count_le x
    simp only [Call.unlisted, List.count_nil] at honce ⊢
    omega
  | @spawn sp child hsp hforking hchild =>
    have hfresh := hknown.count_fresh hchild
    simp only [List.flatMap_append, List.flatMap_cons, List.count_append] at hfresh
    by_cases hx : child = x
    · subst hx
      simp [Call.unlisted] at hfresh ⊢
      omega
    · simp [Call.unlisted, hx] at honce ⊢
      omega
  | giveUp haside =>
    rw [haside.slots]
    exact honce
  | _ =>
    simp only [Call.unlisted, List.count_nil, List.count_append] at honce ⊢
    omega

theorem Conserved.count_live_le (calls : List Call) (x : ChildSlot) :
    (calls.flatMap Call.live).count x ≤ (calls.flatMap Call.held).count x := by
  induction calls with
  | nil => simp
  | cons call calls ih =>
    have hcall : call.live.count x ≤ call.held.count x := by
      cases call <;> simp [Call.live, Call.held]
    simp only [List.flatMap_cons, List.count_append]
    omega

theorem Conserved.step_alive (h : Conserved size left b (l ++ c :: l'))
    (hknown : Known b (l ++ c :: l')) (hmove : Call.Moves b c choice b' c') {x : ChildSlot} (hx : x ∈ b'.killed) :
    b'.idle.count x + ((l ++ c' :: l').flatMap Call.live).count x +
      ((l ++ c' :: l').flatMap Call.unlisted).count x = 0 := by
  have halive := h.alive x
  simp only [List.flatMap_append, List.flatMap_cons, List.count_append] at halive ⊢
  cases hmove with
  | @kill slot =>
    rcases List.mem_append.mp hx with hx | hx
    · have halive := halive hx
      simp only [Call.live, Call.held, Call.unlisted, List.count_nil] at halive ⊢
      omega
    · -- the child was in one pair of hands
      obtain rfl : x = slot := List.mem_singleton.mp hx
      have hbalance := h.balance x
      have honce := h.once x
      have hlive := count_live_le (l ++ .broken x :: l') x
      simp only [List.flatMap_append, List.flatMap_cons, List.count_append, Call.live, Call.held,
        Call.unlisted, List.count_nil, List.count_singleton_self] at hbalance honce hlive ⊢
      omega
  | @spawn sp child hsp hforking hchild =>
    have hne : child ≠ x := by
      rintro rfl
      exact hchild (hknown.killed child hx)
    have hcount : [child].count x = 0 := List.count_eq_zero.mpr (by simpa using hne.symm)
    have halive := halive hx
    simp only [Call.live, Call.held, Call.unlisted, List.count_nil, hcount] at halive ⊢
    omega
  | @get slot idle hidle =>
    have halive := halive hx
    rw [hidle, ← List.singleton_append, List.count_append] at halive
    simp only [Call.live, Call.held, Call.unlisted, List.count_nil] at halive ⊢
    omega
  | giveUp haside =>
    rw [haside.killed] at hx
    rw [haside.idle]
    exact halive hx
  | _ =>
    have halive := halive hx
    simp only [Call.live, Call.held, Call.unlisted, List.count_nil, List.count_append] at halive ⊢
    omega

theorem Call.Moves.total (h : Call.Moves b c choice b' c') (hspawns : choice.spawns = true) :
    b'.idle.length + c'.held.length + c'.replacing =
      b.idle.length + c.held.length + c.replacing := by
  cases h with
  | get hidle => simp [Call.held, Call.replacing, hidle]
  | fail | giveUp => cases hspawns
  | _ => simp [Call.held, Call.replacing]

theorem Conserved.step_total (h : Conserved size left b (l ++ c :: l'))
    (hspawns : choice.spawns = true) (hmove : Call.Moves b c choice b' c') :
    b'.idle.length + ((l ++ c' :: l').flatMap Call.held).length +
      ((l ++ c' :: l').map Call.replacing).sum + left = size := by
  have htotal := h.total
  have hcall := hmove.total hspawns
  simp only [List.flatMap_append, List.flatMap_cons, List.length_append, List.map_append,
    List.map_cons, List.sum_append, List.sum_cons] at htotal ⊢
  omega

theorem Conserved.step (h : Conserved size left b (l ++ c :: l'))
    (hknown : Known b (l ++ c :: l')) (hspawns : choice.spawns = true)
    (hmove : Call.Moves b c choice b' c') : Conserved size left b' (l ++ c' :: l') where
  balance := h.step_balance hmove
  once := h.step_once hknown hmove
  alive _ hx := h.step_alive hknown hmove hx
  total := h.step_total hspawns hmove

theorem Conserved.of_returned (h : Conserved size left b (.returned :: l)) :
    Conserved size left b l :=
  ⟨h.balance, h.once, h.alive, by simpa [Call.held, Call.replacing] using h.total⟩

theorem Conserved.returned (h : Conserved size left b l) :
    Conserved size left b (.returned :: l) :=
  ⟨h.balance, h.once, h.alive, by simpa [Call.held, Call.replacing] using h.total⟩

theorem Conserved.ask (h : Conserved size (left + 1) b (.returned :: l)) :
    Conserved size left b (.spawning :: l) := by
  refine ⟨h.balance, h.once, h.alive, ?_⟩
  have htotal := h.total
  simp only [List.map_cons, List.sum_cons, Call.replacing] at htotal ⊢
  have hheld : ((Call.spawning :: l).flatMap Call.held).length =
      ((Call.returned :: l).flatMap Call.held).length := rfl
  omega

theorem Conserved.waiting (h : Conserved size left b l) :
    Conserved size left b (l ++ [Call.waiting]) := by
  have hnone {f : Call → List ChildSlot} (hf : f .waiting = []) :
      (l ++ [Call.waiting]).flatMap f = l.flatMap f := by
    simp [hf]
  refine ⟨?_, ?_, ?_, ?_⟩
  · rw [hnone rfl]
    exact h.balance
  · rw [hnone rfl]
    exact h.once
  · rw [hnone rfl, hnone rfl]
    exact h.alive
  · rw [hnone rfl, List.map_append, List.sum_append]
    exact h.total

end Step

/-- Where `start` or `shutdown` is. After `_start_spawner` a child of `start` comes in as one of
`_replace` does; `left` are to follow. -/
inductive Lifecycle
  | ready
  | forking (left : Nat)
  | starting (left : Nat) (child : Call)
  | signalling (i : Nat)
  | clearing
  | stopping
  deriving DecidableEq, Repr

namespace Lifecycle

def calls : Lifecycle → List Call
  | .starting _ child => [child]
  | _ => []

def left : Lifecycle → Nat
  | .forking left | .starting left _ => left
  | _ => 0

end Lifecycle

structure ForkWarmPoolExecutor where
  books : Books := {}
  started : Bool := false
  lifecycle : Lifecycle := .ready
  calls : List Call := []
  deriving DecidableEq, Repr

namespace ForkWarmPoolExecutor

/-- The threads of the worker: `main` goes on with `start` or `shutdown`, `call k` with the `k`th
call of `execute`. -/
inductive Action
  | start
  | shutdown
  | main (choice : Choice)
  | execute
  | call (k : Nat) (choice : Choice)
  | outside (o : Outside)

section Machine

variable (size : Nat)

def stepMain (s : ForkWarmPoolExecutor) (choice : Choice) : Option ForkWarmPoolExecutor :=
  match s.lifecycle, choice with
  | .forking left, .go => some { s with lifecycle := .starting left .returned }
  -- the socket of the spawner does not appear
  | .forking _, .spawn none =>
    some { s with books := { s.books with spawner := none }, lifecycle := .ready }
  | .starting 0 .returned, .go => some { s with started := true, lifecycle := .ready }
  | .starting (left + 1) .returned, .go => some { s with lifecycle := .starting left .spawning }
  | .starting left child, choice =>
    (child.step s.books choice).map fun (books, child') =>
      -- `_spawn_child` may raise
      { s with
        books
        lifecycle :=
          if child = .spawning ∧ child' = .returned then .ready else .starting left child' }
  | .signalling i, .go =>
    match s.books.slots[i]? with
    | some slot =>
      some { s with
        books := { s.books with killed := s.books.killed ++ [slot] }, lifecycle := .signalling (i + 1) }
    | none => some { s with books := s.books.endSpawner, lifecycle := .clearing }
  | .clearing, .go =>
    some { s with books := { s.books with slots := [] }, lifecycle := .stopping }
  | .stopping, .go => some { s with started := false, lifecycle := .ready }
  | _, _ => none

def step (s : ForkWarmPoolExecutor) : Action → Option ForkWarmPoolExecutor
  | .start =>
    if s.lifecycle = .ready then
      if s.started then some s
      else some { s with books := { s.books with spawner := some {} }, lifecycle := .forking size }
    else none
  | .shutdown => if s.lifecycle = .ready then some { s with lifecycle := .signalling 0 } else none
  | .main choice => s.stepMain choice
  -- an executor that is not started raises
  | .execute => some (if s.started then { s with calls := s.calls ++ [Call.waiting] } else s)
  | .call k choice =>
    match s.calls[k]? with
    | none => none
    | some call =>
      (call.step s.books choice).map fun (books, call) =>
        { s with books, calls := s.calls.set k call }
  | .outside o => (s.books.outside o).map fun books => { s with books }

def machine : Machine ForkWarmPoolExecutor Action Empty where
  step s a := (step size s a).map (·, [])

inductive Moves (s : ForkWarmPoolExecutor) : Action → ForkWarmPoolExecutor → Prop
  | keep {a} : Moves s a s
  | start : s.lifecycle = .ready → s.started = false →
      Moves s .start
        { s with books := { s.books with spawner := some {} }, lifecycle := .forking size }
  | await {left} : s.lifecycle = .forking left →
      Moves s (.main .go) { s with lifecycle := .starting left .returned }
  | abort {left} : s.lifecycle = .forking left →
      Moves s (.main (.spawn none))
        { s with books := { s.books with spawner := none }, lifecycle := .ready }
  | begun : s.lifecycle = .starting 0 .returned →
      Moves s (.main .go) { s with started := true, lifecycle := .ready }
  | ask {left} : s.lifecycle = .starting (left + 1) .returned →
      Moves s (.main .go) { s with lifecycle := .starting left .spawning }
  | raise {left choice books} : s.lifecycle = .starting left .spawning →
      Call.Moves s.books .spawning choice books .returned →
      Moves s (.main choice) { s with books, lifecycle := .ready }
  | child {left child choice books child'} : s.lifecycle = .starting left child →
      Call.Moves s.books child choice books child' →
      Moves s (.main choice) { s with books, lifecycle := .starting left child' }
  | shutdown : s.lifecycle = .ready → Moves s .shutdown { s with lifecycle := .signalling 0 }
  | signal {i slot} : s.lifecycle = .signalling i → s.books.slots[i]? = some slot →
      Moves s (.main .go) { s with
        books := { s.books with killed := s.books.killed ++ [slot] }, lifecycle := .signalling (i + 1) }
  | kill {i} : s.lifecycle = .signalling i → s.books.slots[i]? = none →
      Moves s (.main .go) { s with books := s.books.endSpawner, lifecycle := .clearing }
  | clear : s.lifecycle = .clearing →
      Moves s (.main .go) { s with books := { s.books with slots := [] }, lifecycle := .stopping }
  | stop : s.lifecycle = .stopping →
      Moves s (.main .go) { s with started := false, lifecycle := .ready }
  | execute : Moves s .execute { s with calls := s.calls ++ [Call.waiting] }
  | call {k c choice books c'} : s.calls[k]? = some c → Call.Moves s.books c choice books c' →
      Moves s (.call k choice) { s with books, calls := s.calls.set k c' }
  | aside {o books} : s.books.Aside books → Moves s (.outside o) { s with books }
  | die : Moves s (.outside .die) { s with books := { s.books with spawner := none } }

variable {size} {s t : ForkWarmPoolExecutor}

theorem moves_of_stepMain {choice : Choice} (h : s.stepMain choice = some t) :
    Moves size s (.main choice) t := by
  unfold stepMain at h
  split at h
  · cases h
    exact .await ‹_›
  · cases h
    exact .abort ‹_›
  · cases h
    exact .begun ‹_›
  · cases h
    exact .ask ‹_›
  · simp only [Option.map_eq_some_iff, Prod.exists] at h
    obtain ⟨books, child', hstep, rfl⟩ := h
    have hmove := Call.moves_of_step hstep
    split
    · rename_i hraise
      obtain ⟨rfl, rfl⟩ := hraise
      exact .raise ‹_› hmove
    · exact .child ‹_› hmove
  · split at h <;> cases h
    · exact .signal ‹_› ‹_›
    · exact .kill ‹_› ‹_›
  · cases h
    exact .clear ‹_›
  · cases h
    exact .stop ‹_›
  · cases h

theorem moves_of_step {a : Action} (h : step size s a = some t) : Moves size s a t := by
  cases a with
  | start =>
    simp only [step] at h
    split at h
    · rename_i hready
      split at h <;> cases h
      · exact .keep
      · exact .start hready (by simpa using ‹¬ s.started = true›)
    · cases h
  | shutdown =>
    simp only [step] at h
    split at h <;> cases h
    exact .shutdown ‹_›
  | main choice => exact moves_of_stepMain h
  | execute =>
    simp only [step, Option.some.injEq] at h
    subst h
    split
    · exact .execute
    · exact .keep
  | call k choice =>
    simp only [step] at h
    split at h
    · cases h
    · rename_i c hc
      simp only [Option.map_eq_some_iff, Prod.exists] at h
      obtain ⟨books, c', hstep, rfl⟩ := h
      exact .call hc (Call.moves_of_step hstep)
  | outside o =>
    simp only [step, Option.map_eq_some_iff] at h
    obtain ⟨books, hout, rfl⟩ := h
    obtain haside | ⟨rfl, rfl⟩ := Books.aside_of_outside hout
    · exact .aside haside
    · exact .die

end Machine

def Action.spawns : Action → Bool
  | .main choice | .call _ choice => choice.spawns
  | _ => true

def held (s : ForkWarmPoolExecutor) : List ChildSlot := s.calls.flatMap Call.held

def replacing (s : ForkWarmPoolExecutor) : Nat := (s.calls.map Call.replacing).sum

structure Quiet (s : ForkWarmPoolExecutor) : Prop where
  idle : s.books.idle = []
  slots : s.books.slots = []
  calls : ∀ call ∈ s.calls, call.held = [] ∧ call.replacing = 0

def agents (s : ForkWarmPoolExecutor) : List Call := s.lifecycle.calls ++ s.calls

def serving (s : ForkWarmPoolExecutor) : Bool :=
  match s.lifecycle with
  | .forking _ | .starting _ _ => true
  | .ready => s.started
  | _ => false

section Invariant

variable {size : Nat} {s t : ForkWarmPoolExecutor} {a : Action}

theorem exists_agents_set {k : Nat} {c : Call} (h : s.calls[k]? = some c) (c' : Call) :
    ∃ l l', s.agents = l ++ c :: l' ∧ s.lifecycle.calls ++ s.calls.set k c' = l ++ c' :: l' := by
  obtain ⟨hk, rfl⟩ := List.getElem?_eq_some_iff.mp h
  obtain ⟨l, l', hcalls, -, hset⟩ : ∃ l l', s.calls = l ++ s.calls[k] :: l' ∧ l.length = k ∧
    s.calls.set k c' = l ++ c' :: l' := List.exists_of_set hk
  refine ⟨s.lifecycle.calls ++ l, l', ?_, ?_⟩
  · rw [agents, List.append_assoc, ← hcalls]
  · rw [hset, List.append_assoc]

theorem agents_of_ready (h : s.lifecycle = .ready) : s.agents = s.calls := by
  simp [agents, h, Lifecycle.calls]

theorem known_calls (h : Known s.books s.agents) : Known s.books s.calls :=
  h.mono fun _ hc => .inl (List.mem_append_right _ hc)

theorem known_of_moves (h : Known s.books s.agents) (hmove : Moves size s a t) : Known t.books t.agents := by
  have hcalls := known_calls h
  cases hmove with
  | keep => exact h
  | start hlife =>
    refine { hcalls with spawner := ?_ }
    rintro _ ⟨⟩ x hx
    cases hx
  | await hlife | ask hlife =>
    refine h.mono fun c hc => ?_
    rcases List.mem_cons.mp hc with rfl | hc
    · exact .inr rfl
    · exact .inl (List.mem_append_right _ hc)
  | abort => exact { hcalls with spawner := fun _ hsp => (by cases hsp) }
  | raise hlife hmove =>
    rw [agents, hlife] at h
    have hset := h.step hmove (l := [])
    exact hset.mono fun c hc => .inl (List.mem_cons_of_mem _ hc)
  | child hlife hmove =>
    rw [agents, hlife] at h
    exact h.step hmove (l := [])
  | begun hlife | shutdown hlife | stop hlife => exact hcalls
  | signal hlife hslot =>
    exact { hcalls with
      killed := mem_of_mem_snoc h.killed (h.slots _ (List.mem_of_getElem? hslot)) }
  | kill hlife =>
    refine { hcalls with killed := fun x hx => ?_, spawner := fun _ hsp => (by cases hsp) }
    rcases List.mem_append.mp hx with hx | hx
    · exact h.killed x hx
    · cases hsp : s.books.spawner with
      | none => simp [hsp] at hx
      | some sp =>
        rw [hsp] at hx
        exact h.spawner sp hsp x (List.mem_append_left _ hx)
  | aside haside => exact h.aside haside
  | die => exact { h with spawner := fun _ hsp => (by cases hsp) }
  | clear hlife => exact { hcalls with slots := nofun }
  | execute =>
    refine h.mono fun c hc => ?_
    rw [agents, ← List.append_assoc] at hc
    rcases List.mem_append.mp hc with hc | hc
    · exact .inl hc
    · rw [List.mem_singleton.mp hc]
      exact .inr rfl
  | call hc hmove =>
    obtain ⟨l, l', hagents, hset⟩ := exists_agents_set hc _
    rw [hagents] at h
    rw [agents, hset]
    exact h.step hmove

theorem Quiet.conserved (h : s.Quiet) : Conserved size size s.books s.calls := by
  have hheld : s.calls.flatMap Call.held = [] :=
    List.flatMap_eq_nil_iff.mpr fun c hc => (h.calls c hc).1
  have hunlisted : s.calls.flatMap Call.unlisted = [] := by
    refine List.flatMap_eq_nil_iff.mpr fun c hc => ?_
    cases c with
    | listing fresh => exact absurd (h.calls _ hc).2 (by simp [Call.replacing])
    | _ => rfl
  have hreplacing : (s.calls.map Call.replacing).sum = 0 := by
    refine List.sum_eq_zero fun n hn => ?_
    obtain ⟨c, hc, rfl⟩ := List.mem_map.mp hn
    exact (h.calls c hc).2
  have hlive : ∀ x, (s.calls.flatMap Call.live).count x = 0 := by
    intro x
    have := Conserved.count_live_le s.calls x
    rw [hheld] at this
    exact Nat.le_zero.mp this
  constructor <;>
    simp [h.idle, h.slots, hheld, hunlisted, hreplacing, hlive]

theorem conserved_of_moves (hknown : Known s.books s.agents)
    (h : s.serving = true → Conserved size s.lifecycle.left s.books s.agents)
    (hspawns : a.spawns = true) (hquiet : a = .start → s.started = false → s.Quiet)
    (hmove : Moves size s a t) (ht : t.serving = true) :
    Conserved size t.lifecycle.left t.books t.agents := by
  cases hmove with
  | keep => exact h ht
  | start hlife hstarted => exact { (hquiet rfl hstarted).conserved with }
  | await hlife =>
    have h := h (by rw [serving, hlife])
    rw [agents, hlife] at h
    exact h.returned
  | abort => cases hspawns
  | raise _ hmove =>
    cases hmove with
    | fail | giveUp => cases hspawns
  | begun hlife =>
    have h := h (by rw [serving, hlife])
    rw [agents, hlife] at h
    exact h.of_returned
  | ask hlife =>
    have h := h (by rw [serving, hlife])
    rw [agents, hlife] at h
    exact h.ask
  | child hlife hmove =>
    have h := h (by rw [serving, hlife])
    rw [agents, hlife] at h hknown
    exact h.step (l := []) hknown hspawns hmove
  | shutdown | signal | kill | clear | stop => cases ht
  | execute =>
    rw [agents, ← List.append_assoc]
    exact (h ht).waiting
  | call hc hmove =>
    obtain ⟨l, l', hagents, hset⟩ := exists_agents_set hc _
    have h := h ht
    rw [hagents] at h hknown
    rw [agents, hset]
    exact h.step hknown hspawns hmove
  | aside haside => exact (h ht).aside haside
  | die => exact { h ht with }

/-- While the pool is started its slots are conserved. -/
theorem pool_conserves_slots {as : List Action} {es : List Empty}
    (h : (machine size).Run (fun s a => a.spawns = true ∧
      (a = .start → s.started = false → s.Quiet)) {} as es s)
    (hstarted : s.started = true) (hready : s.lifecycle = .ready) :
    (s.books.idle ++ s.held).Perm s.books.slots ∧ (s.books.idle ++ s.held).Nodup ∧
      s.books.idle.length + s.held.length + s.replacing = size ∧
      ∀ slot ∈ s.books.idle, slot ∉ s.books.killed := by
  have hinv : Known s.books s.agents ∧
      (s.serving = true → Conserved size s.lifecycle.left s.books s.agents) := by
    refine h.invariant (P := fun s => Known s.books s.agents ∧
      (s.serving = true → Conserved size s.lifecycle.left s.books s.agents))
      ⟨⟨nofun, nofun, nofun, nofun, nofun⟩, nofun⟩ ?_
    rintro s a t e ⟨hknown, hcons⟩ ⟨hspawns, hquiet⟩ hstep
    simp only [machine, Option.map_eq_some_iff, Prod.mk.injEq] at hstep
    obtain ⟨_, hstep, rfl, -⟩ := hstep
    have hmove := moves_of_step hstep
    exact ⟨known_of_moves hknown hmove,
      conserved_of_moves hknown hcons hspawns hquiet hmove⟩
  have hcons := hinv.2 (by rw [serving, hready]; exact hstarted)
  rw [agents_of_ready hready, hready] at hcons
  have hcount : ∀ x, (s.books.idle ++ s.held).count x = s.books.slots.count x := by
    intro x
    rw [List.count_append]
    exact hcons.balance x
  refine ⟨List.perm_iff_count.mpr hcount, List.nodup_iff_count_le_one.mpr fun x => ?_, hcons.total,
    fun slot hidle hkilled => ?_⟩
  · rw [hcount]
    exact (Nat.le_add_right _ _).trans (hcons.once x)
  · have halive := hcons.alive slot hkilled
    have hpos := List.count_pos_iff.mpr hidle
    omega

end Invariant

section Execute

variable {size k : Nat} {p : ForkWarmPoolExecutor} {c c' : Call} {choice : Choice} {b : Books}
  {slot : ChildSlot}

theorem step_call (hc : p.calls[k]? = some c) (h : c.step p.books choice = some (b, c')) :
    (machine size).step p (.call k choice) =
      some ({ p with books := b, calls := p.calls.set k c' }, []) := by
  simp [machine, step, hc, h]

theorem run_of_callRun {choices : List Choice} (hc : p.calls[k]? = some c)
    (h : c.run p.books choices = some (b, c')) :
    ∃ q, (machine size).Run Machine.Always p (choices.map (.call k)) [] q ∧ q.books = b ∧
      q.calls[k]? = some c' := by
  induction choices generalizing p c with
  | nil =>
    simp only [Call.run, Option.some.injEq, Prod.mk.injEq] at h
    obtain ⟨rfl, rfl⟩ := h
    exact ⟨p, .refl, rfl, hc⟩
  | cons choice choices ih =>
    simp only [Call.run] at h
    split at h
    · cases h
    · rename_i books d hstep
      have hd : (p.calls.set k d)[k]? = some d :=
        List.getElem?_set_self (List.getElem?_eq_some_iff.mp hc).1
      obtain ⟨q, hrun, hq⟩ := ih (p := { p with books, calls := p.calls.set k d }) hd h
      exact ⟨q, .cons trivial (step_call hc hstep) hrun, hq⟩

theorem settle_idle (env : Env) (slot : Nat × Bool) {result : Except Stop ExecutionResult}
    (hexit : ∀ code, result ≠ .error (.exited code)) (s : State) :
    ((settle env slot result).exec s).2.idle =
      s.idle ++ if healthy result then [slot] else (env.respawn.map (·, true)).toList := by
  cases result with
  | ok result => rfl
  | error stop =>
    cases stop with
    | exited code => exact absurd rfl (hexit code)
    | raised e =>
      by_cases hkind : e.kind = .connection
      · cases hspawn : env.respawn <;>
          simp [settle, healthy, Stop.kind, hkind, replace, hspawn, Effect.exec_bind]
      · simp [settle, healthy, Stop.kind, Stop.isRaised, hkind, putIdle, Effect.exec_bind]

theorem exists_callRun (b : Books) (slot : ChildSlot) (result : Except Stop ExecutionResult)
    {respawn : Option ChildSlot}
    (hrespawn : ∀ fresh, respawn = some fresh → (b.fork fresh).isSome = true) :
    ∃ choices b', (Call.exchange slot).run b choices = some (b', .returned) ∧
      b'.idle = b.idle ++ if healthy result then [slot] else respawn.toList := by
  cases hhealthy : healthy result with
  | true =>
    exact ⟨[.answer result, .go], { b with idle := b.idle ++ [slot] },
      by simp [Call.run, Call.step, hhealthy], rfl⟩
  | false =>
    let unlisted := { b with slots := b.slots.erase slot, killed := b.killed ++ [slot] }
    cases respawn with
    | none =>
      exact ⟨[.answer result, .go, .go, .spawn none], unlisted,
        by simp [Call.run, Call.step, hhealthy, unlisted], by simp [unlisted]⟩
    | some fresh =>
      obtain ⟨sp, hsp, hforking, hfresh⟩ := Books.fork_isSome (hrespawn fresh rfl)
      exact ⟨[.answer result, .go, .go, .spawn (some fresh), .go, .go],
        { unlisted with
          slots := unlisted.slots ++ [fresh]
          idle := b.idle ++ [fresh]
          spawner := some (sp.list b.exited fresh)
          forked := b.forked ++ [fresh] },
        by simp [Call.run, Call.step, hhealthy, unlisted, Books.fork, hsp, hforking, hfresh], rfl⟩

theorem run_settle (env : Env) (hc : p.calls[k]? = some (.exchange slot)) (serving : Bool)
    {result : Except Stop ExecutionResult} (hexit : ∀ code, result ≠ .error (.exited code))
    {path : String}
    (hrespawn : ∀ pid, env.respawn = some pid → (p.books.fork ⟨pid, path⟩).isSome = true)
    {s : State} (hidle : p.books.idle.map ChildSlot.pid = s.idle.map Prod.fst) :
    ∃ as q, (machine size).Run Machine.Always p as [] q ∧ q.books.idle.map ChildSlot.pid =
      ((settle env (slot.pid, serving) result).exec s).2.idle.map Prod.fst := by
  have hspawn : ∀ fresh, env.respawn.map (fun pid => ⟨pid, path⟩) = some fresh →
      (p.books.fork fresh).isSome = true := by
    intro fresh hfresh
    obtain ⟨pid, hpid, rfl⟩ := Option.map_eq_some_iff.mp hfresh
    exact hrespawn pid hpid
  obtain ⟨choices, b, hcall, hb⟩ := exists_callRun p.books slot result hspawn
  obtain ⟨q, hrun, hbooks, -⟩ := run_of_callRun hc hcall
  refine ⟨_, q, hrun, ?_⟩
  rw [settle_idle env _ hexit, hbooks, hb, List.map_append, List.map_append, hidle]
  cases healthy result <;> cases env.respawn <;> rfl

/-- A whole call of `execute` is a run of the pool, if the spawner forks what it is to fork. -/
theorem run_executeFork (env : Env) (functionBytes argsBytes : Bytes) {s : State} {path : String}
    (hrespawn : ∀ pid, env.respawn = some pid → (p.books.fork ⟨pid, path⟩).isSome = true)
    (hexit : ∀ serving code, converse env serving functionBytes argsBytes ≠ .error (.exited code))
    (hstarted : p.started = s.started)
    (hidle : p.books.idle.map ChildSlot.pid = s.idle.map Prod.fst) :
    ∃ as q, (machine size).Run Machine.Always p as [] q ∧ q.books.idle.map ChildSlot.pid =
      ((executeFork env functionBytes argsBytes).exec s).2.idle.map Prod.fst := by
  rw [executeFork, Effect.exec_bind_ok Effect.exec_read]
  cases hs : s.started with
  | false => exact ⟨[], p, .refl, by simpa [hs] using hidle⟩
  | true =>
    cases hqueue : s.idle with
    | nil => exact ⟨[], p, .refl, by simpa [hs, hqueue] using hidle⟩
    | cons taken rest =>
      obtain ⟨slot, idle, hbooks⟩ : ∃ slot idle, p.books.idle = slot :: idle :=
        List.exists_cons_of_ne_nil fun hnil => by simp [hnil, hqueue] at hidle
      rw [hbooks, hqueue, List.map_cons, List.map_cons, List.cons.injEq] at hidle
      let began : ForkWarmPoolExecutor := { p with calls := p.calls ++ [Call.waiting] }
      have hexecute : (machine size).step p .execute = some (began, []) := by
        simp [machine, step, hstarted, hs, began]
      have hwaiting : began.calls[p.calls.length]? = some .waiting := by simp [began]
      have hcall : Call.run began.books .waiting [.go] =
          some ({ p.books with idle }, .exchange slot) := by
        simp [began, Call.run, Call.step, hbooks]
      obtain ⟨q, hget, hq, hc⟩ := run_of_callRun hwaiting hcall
      have hrest : q.books.idle.map ChildSlot.pid = rest.map Prod.fst := by
        rw [hq]
        exact hidle.2
      have hspawn : ∀ pid, env.respawn = some pid → (q.books.fork ⟨pid, path⟩).isSome = true := by
        intro pid hpid
        obtain ⟨sp, hsp, hforking, hfresh⟩ := Books.fork_isSome (hrespawn pid hpid)
        simp [hq, Books.fork, hsp, hforking, hfresh]
      obtain ⟨as, r, hsettle, hr⟩ := run_settle (s := { s with idle := rest }) env hc taken.2
        (hexit taken.2) hspawn hrest
      refine ⟨_, r, .cons trivial hexecute (hget.trans hsettle), ?_⟩
      rw [hr, hidle.1]
      simp [hs, hqueue, Effect.exec_bind]

end Execute

def sampleActions : List Action :=
  [.start, .main .go, .main .go, .main (.spawn (some ⟨1, "a"⟩)), .main .go, .main .go, .main .go,
    .main (.spawn (some ⟨2, "b"⟩)), .main .go, .main .go, .main .go, .execute, .execute,
    .call 0 .go, .call 1 .go, .outside (.exit ⟨1, "a"⟩),
    .call 0 (.answer (.error (.raised ⟨.connection, []⟩))), .call 0 .go,
    .call 1 (.answer (.ok { success := true })), .call 0 .go, .call 1 .go,
    .call 0 (.spawn (some ⟨3, "c"⟩))]

def samplePool : ForkWarmPoolExecutor where
  books :=
    { slots := [⟨2, "b"⟩]
      idle := [⟨2, "b"⟩]
      spawner := some { children := [⟨2, "b"⟩, ⟨3, "c"⟩] }
      forked := [⟨1, "a"⟩, ⟨2, "b"⟩, ⟨3, "c"⟩]
      killed := [⟨1, "a"⟩]
      exited := [⟨1, "a"⟩] }
  started := true
  calls := [.listing ⟨3, "c"⟩, .returned]

theorem samplePool_run :
    (machine 2).Run (fun s a => a.spawns = true ∧ (a = .start → s.started = false → s.Quiet)) {}
      sampleActions [] samplePool := by
  have hstart : (machine 2).step {} .start =
      some ({ books := { spawner := some {} }, lifecycle := .forking 2 }, []) := rfl
  have hexec : (machine 2).exec
      (fun _ a => a.spawns && match a with | .start => false | _ => true)
      { books := { spawner := some {} }, lifecycle := .forking 2 } sampleActions.tail =
      some (samplePool, []) := by decide
  refine .cons ⟨rfl, fun _ _ => ⟨rfl, rfl, nofun⟩⟩ hstart ((Machine.run_of_exec hexec).mono ?_)
  intro s a h
  cases a <;> simp_all

theorem pool_conserves_slots_sample :
    (samplePool.books.idle ++ samplePool.held).Perm samplePool.books.slots ∧
      (samplePool.books.idle ++ samplePool.held).Nodup ∧
      samplePool.books.idle.length + samplePool.held.length + samplePool.replacing = 2 ∧
      ∀ slot ∈ samplePool.books.idle, slot ∉ samplePool.books.killed :=
  pool_conserves_slots samplePool_run rfl rfl

def restartActions : List Action :=
  [.start, .main .go, .main .go, .main (.spawn (some ⟨1, "a"⟩)), .main .go, .main .go, .main .go,
    .shutdown, .main .go, .main .go, .main .go, .main .go,
    .start, .main .go, .main .go, .main (.spawn (some ⟨2, "b"⟩)), .main .go, .main .go, .main .go]

/-- `shutdown` leaves the idle queue as it is, so that a pool that is started again offers the
children it has killed. -/
theorem restart_offers_killed_child :
    ∃ s : ForkWarmPoolExecutor,
      (machine 1).Run (fun _ a => a.spawns = true) {} restartActions [] s ∧
      s.started = true ∧ s.lifecycle = .ready ∧ s.calls = [] ∧
      s.books.slots = [⟨2, "b"⟩] ∧ s.books.idle = [⟨1, "a"⟩, ⟨2, "b"⟩] ∧
      ⟨1, "a"⟩ ∈ s.books.killed := by
  let s : ForkWarmPoolExecutor :=
    { books :=
        { slots := [⟨2, "b"⟩]
          idle := [⟨1, "a"⟩, ⟨2, "b"⟩]
          spawner := some { children := [⟨2, "b"⟩] }
          forked := [⟨1, "a"⟩, ⟨2, "b"⟩]
          killed := [⟨1, "a"⟩, ⟨1, "a"⟩] }
      started := true }
  have hexec : (machine 1).exec (fun _ a => a.spawns) {} restartActions = some (s, []) := by
    decide
  exact ⟨s, Machine.run_of_exec hexec, rfl, rfl, rfl, rfl, rfl, by decide⟩

end ForkWarmPoolExecutor

end Worker

end Minimodal
