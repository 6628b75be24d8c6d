import Minimodal.Lib.Bucket

namespace Minimodal

/-- A registered worker; its id is the key of the pool's map. -/
structure WorkerState where
  address : String
  capacity : Int
  activeTasks : Int := 0
  lastHeartbeat : Nat
  alive : Bool := true
  deriving DecidableEq, Repr

/-- `RegisterWorker`, the one caller of `Register`, refuses the empty id. -/
def validWorkerID (id : String) : Bool := id != ""

structure WorkerPool where
  workers : Lib.Bucket String validWorkerID WorkerState

namespace WorkerPool

def new : WorkerPool := ⟨.empty⟩

def register (p : WorkerPool) (id address : String) (capacity : Int) (now : Nat)
    (h : validWorkerID id = true) : WorkerPool :=
  ⟨p.workers.insert id { address, capacity, lastHeartbeat := now } h⟩

def isAlive (p : WorkerPool) (id : String) : Bool := (p.workers.get id).any WorkerState.alive

/-- Returns false for an unknown worker. A worker that was marked dead is alive again. -/
def recordHeartbeat (p : WorkerPool) (id : String) (activeTasks : Int) (now : Nat) :
    WorkerPool × Bool :=
  match p.workers.get id with
  | none => (p, false)
  | some _ =>
    (⟨p.workers.modify id fun w => { w with alive := true, lastHeartbeat := now, activeTasks }⟩,
      true)

/-- The entries of the map in an iteration order of the runtime's choice. -/
def range (p : WorkerPool) (order : List String) : Option (List (String × WorkerState)) :=
  if order.isPerm (p.workers.forEach.map Prod.fst) then
    some (order.filterMap fun id => (p.workers.get id).map fun w => (id, w))
  else none

def better (exclude : List String) (best : Option (String × WorkerState))
    (entry : String × WorkerState) : Option (String × WorkerState) :=
  if !entry.2.alive then best
  else if exclude.contains entry.1 then best
  else
    match best with
    | none => some entry
    | some b => if entry.2.activeTasks < b.2.activeTasks then some entry else best

def leastLoadedAliveExcluding (exclude : List String) (entries : List (String × WorkerState)) :
    Option (String × WorkerState) :=
  entries.foldl (better exclude) none

def expired (timeout now : Nat) (w : WorkerState) : Bool :=
  w.alive && decide ((now : Int) - w.lastHeartbeat > timeout)

def markDead (p : WorkerPool) (id : String) : WorkerPool :=
  ⟨p.workers.modify id fun w => { w with alive := false }⟩

def sweep (p : WorkerPool) (timeout now : Nat) (entries : List (String × WorkerState)) :
    WorkerPool × List String :=
  let dead := (entries.filter fun entry => expired timeout now entry.2).map Prod.fst
  (dead.foldl markDead p, dead)

theorem get_of_mem_range {p : WorkerPool} {order : List String}
    {entries : List (String × WorkerState)} (h : p.range order = some entries) {id : String}
    {w : WorkerState} (hm : (id, w) ∈ entries) : p.workers.get id = some w := by
  unfold range at h
  split at h
  · simp only [Option.some.injEq] at h
    subst h
    simp only [List.mem_filterMap, Option.map_eq_some_iff, Prod.mk.injEq] at hm
    obtain ⟨x, -, v, hv, rfl, rfl⟩ := hm
    exact hv
  · simp at h

theorem better_some {exclude : List String} {best : Option (String × WorkerState)}
    {entry b : String × WorkerState} (h : better exclude best entry = some b) :
    best = some b ∨ b = entry ∧ b.2.alive = true ∧ b.1 ∉ exclude := by
  unfold better at h
  split at h
  · exact .inl h
  · rename_i halive
    split at h
    · exact .inl h
    · rename_i hex
      have hentry : entry.2.alive = true ∧ entry.1 ∉ exclude :=
        ⟨by simpa using halive, by simpa using hex⟩
      split at h
      · simp only [Option.some.injEq] at h
        exact .inr ⟨h.symm, h ▸ hentry⟩
      · split at h
        · simp only [Option.some.injEq] at h
          exact .inr ⟨h.symm, h ▸ hentry⟩
        · exact .inl h

theorem leastLoadedAliveExcluding_some {exclude : List String}
    {entries : List (String × WorkerState)} {best : String × WorkerState}
    (h : leastLoadedAliveExcluding exclude entries = some best) :
    best ∈ entries ∧ best.2.alive = true ∧ best.1 ∉ exclude := by
  suffices hgen : ∀ acc, entries.foldl (better exclude) acc = some best →
      acc = some best ∨ best ∈ entries ∧ best.2.alive = true ∧ best.1 ∉ exclude by
    exact (hgen none h).resolve_left (by simp)
  clear h
  induction entries with
  | nil => exact fun acc hacc => .inl hacc
  | cons entry entries ih =>
    intro acc hacc
    rcases ih _ hacc with hbest | ⟨hm, hrest⟩
    · rcases better_some hbest with hacc | ⟨rfl, hrest⟩
      · exact .inl hacc
      · exact .inr ⟨by simp, hrest⟩
    · exact .inr ⟨List.mem_cons_of_mem _ hm, hrest⟩

theorem isAlive_register (p : WorkerPool) (id address : String) (capacity : Int) (now : Nat)
    (h : validWorkerID id = true) (x : String) :
    (p.register id address capacity now h).isAlive x = (decide (id = x) || p.isAlive x) := by
  by_cases hx : id = x <;> simp [isAlive, register, Lib.Bucket.get_insert, hx]

theorem isAlive_recordHeartbeat {p : WorkerPool} {x : String} (h : p.isAlive x = true)
    (id : String) (activeTasks : Int) (now : Nat) :
    (p.recordHeartbeat id activeTasks now).1.isAlive x = true := by
  unfold recordHeartbeat
  split
  · exact h
  · by_cases hx : id = x
    · subst hx
      simp_all [isAlive, Lib.Bucket.get_modify]
    · simpa [isAlive, Lib.Bucket.get_modify, hx] using h

theorem isAlive_markDead (p : WorkerPool) (id x : String) :
    (p.markDead id).isAlive x = (p.isAlive x && decide (id ≠ x)) := by
  by_cases hx : id = x
  · subst hx
    cases h : p.workers.get id <;> simp [isAlive, markDead, Lib.Bucket.get_modify, h]
  · simp [isAlive, markDead, Lib.Bucket.get_modify, hx]

theorem isAlive_foldl_markDead (p : WorkerPool) (dead : List String) (x : String) :
    (dead.foldl markDead p).isAlive x = true ↔ p.isAlive x = true ∧ x ∉ dead := by
  induction dead generalizing p with
  | nil => simp
  | cons id dead ih =>
    rw [List.foldl_cons, ih, isAlive_markDead]
    simp only [Bool.and_eq_true, decide_eq_true_eq, List.mem_cons, not_or, ne_eq, and_assoc,
      eq_comm (a := x)]

theorem isAlive_sweep (p : WorkerPool) (timeout now : Nat) (entries : List (String × WorkerState))
    (x : String) :
    (p.sweep timeout now entries).1.isAlive x = true ↔
      p.isAlive x = true ∧ x ∉ (p.sweep timeout now entries).2 :=
  isAlive_foldl_markDead p _ x

def load (p : WorkerPool) (id : String) : Int :=
  ((p.workers.get id).map WorkerState.activeTasks).getD 0

theorem isAlive_iff {p : WorkerPool} {id : String} :
    p.isAlive id = true ↔ ∃ w, p.workers.get id = some w ∧ w.alive = true := by
  cases h : p.workers.get id <;> simp [isAlive, h]

def aliveIDs (p : WorkerPool) : List String :=
  (p.workers.forEach.filter fun entry => entry.2.alive).map Prod.fst

theorem mem_aliveIDs {p : WorkerPool} {id : String} : id ∈ p.aliveIDs ↔ p.isAlive id = true := by
  simp only [aliveIDs, List.mem_map, List.mem_filter, Prod.exists, exists_and_right, exists_eq_right,
    Lib.Bucket.mem_forEach, isAlive_iff]

theorem aliveIDs_nodup (p : WorkerPool) : p.aliveIDs.Nodup :=
  List.pairwise_map.mpr (p.workers.forEach_pairwise.filter _)

theorem mem_range {p : WorkerPool} {order : List String} {entries : List (String × WorkerState)}
    (h : p.range order = some entries) {id : String} {w : WorkerState} :
    (id, w) ∈ entries ↔ p.workers.get id = some w := by
  refine ⟨get_of_mem_range h, fun hget => ?_⟩
  unfold range at h
  split at h
  · rename_i hperm
    have hid : id ∈ order := by
      rw [(List.isPerm_iff.mp hperm).mem_iff, List.mem_map]
      exact ⟨(id, w), Lib.Bucket.mem_forEach.mpr hget, rfl⟩
    simp only [Option.some.injEq] at h
    rw [← h, List.mem_filterMap]
    exact ⟨id, hid, by rw [hget]; rfl⟩
  · simp at h

def Beats (best : Option (String × WorkerState)) (entry : String × WorkerState) : Prop :=
  ∃ b, best = some b ∧ b.2.activeTasks ≤ entry.2.activeTasks

section Selection

variable {exclude : List String} {entries : List (String × WorkerState)}
  {best : Option (String × WorkerState)} {entry other : String × WorkerState}

theorem Beats.better (h : Beats best entry) (other : String × WorkerState) :
    Beats (better exclude best other) entry := by
  obtain ⟨b, rfl, hle⟩ := h
  unfold WorkerPool.better
  split
  · exact ⟨b, rfl, hle⟩
  · split
    · exact ⟨b, rfl, hle⟩
    · simp only
      split
      · rename_i hlt
        exact ⟨other, rfl, hlt.le.trans hle⟩
      · exact ⟨b, rfl, hle⟩

theorem beats_better (halive : entry.2.alive = true) (hex : entry.1 ∉ exclude) :
    Beats (better exclude best entry) entry := by
  have hc : exclude.contains entry.1 = false := by simpa using hex
  simp only [better, halive, hc, Bool.not_true, Bool.false_eq_true, if_false]
  cases best with
  | none => exact ⟨entry, rfl, le_rfl⟩
  | some b =>
    simp only
    split
    · exact ⟨entry, rfl, le_rfl⟩
    · rename_i hlt
      exact ⟨b, rfl, not_lt.mp hlt⟩

theorem beats_foldl (h : Beats best entry ∨ entry ∈ entries) (halive : entry.2.alive = true)
    (hex : entry.1 ∉ exclude) : Beats (entries.foldl (better exclude) best) entry := by
  induction entries generalizing best with
  | nil => exact h.resolve_right (by simp)
  | cons other entries ih =>
    refine ih ?_
    rcases h with h | h
    · exact .inl (h.better other)
    · rcases List.mem_cons.mp h with rfl | h
      · exact .inl (beats_better halive hex)
      · exact .inr h

theorem leastLoadedAliveExcluding_beats (hm : entry ∈ entries) (halive : entry.2.alive = true)
    (hex : entry.1 ∉ exclude) : Beats (leastLoadedAliveExcluding exclude entries) entry :=
  beats_foldl (.inr hm) halive hex

end Selection

variable {p : WorkerPool} {order : List String} {entries : List (String × WorkerState)}
  {exclude : List String}

theorem load_of_get {id : String} {w : WorkerState} (h : p.workers.get id = some w) :
    p.load id = w.activeTasks := by
  simp [load, h]

theorem leastLoaded_some (hrange : p.range order = some entries) {id : String} {w : WorkerState}
    (h : leastLoadedAliveExcluding exclude entries = some (id, w)) :
    p.isAlive id = true ∧ id ∉ exclude ∧
      ∀ x, p.isAlive x = true → x ∉ exclude → p.load id ≤ p.load x := by
  obtain ⟨hm, halive, hex⟩ := leastLoadedAliveExcluding_some h
  have hget := get_of_mem_range hrange hm
  refine ⟨isAlive_iff.mpr ⟨w, hget, halive⟩, hex, fun x hx hxe => ?_⟩
  obtain ⟨v, hv, hva⟩ := isAlive_iff.mp hx
  obtain ⟨b, hb, hle⟩ :=
    leastLoadedAliveExcluding_beats ((mem_range hrange).mpr hv) hva hxe
  obtain rfl := Option.some.inj (h.symm.trans hb)
  rw [load_of_get hget, load_of_get hv]
  exact hle

theorem leastLoaded_none (hrange : p.range order = some entries)
    (h : leastLoadedAliveExcluding exclude entries = none) {x : String}
    (hx : p.isAlive x = true) : x ∈ exclude := by
  by_contra hxe
  obtain ⟨v, hv, hva⟩ := isAlive_iff.mp hx
  obtain ⟨b, hb, -⟩ :=
    leastLoadedAliveExcluding_beats ((mem_range hrange).mpr hv) hva hxe
  simp [h] at hb

def address (p : WorkerPool) (id : String) : Option String :=
  (p.workers.get id).map WorkerState.address

theorem address_modify (p : WorkerPool) (id x : String) {f : WorkerState → WorkerState}
    (hf : ∀ w, (f w).address = w.address) :
    WorkerPool.address ⟨p.workers.modify id f⟩ x = p.address x := by
  simp only [address, Lib.Bucket.get_modify]
  split
  · cases p.workers.get x <;> simp [hf]
  · rfl

theorem address_recordHeartbeat (p : WorkerPool) (id : String) (activeTasks : Int) (now : Nat)
    (x : String) : (p.recordHeartbeat id activeTasks now).1.address x = p.address x := by
  unfold recordHeartbeat
  split
  · rfl
  · exact p.address_modify id x fun _ => rfl

theorem address_sweep (p : WorkerPool) (timeout now : Nat) (entries : List (String × WorkerState))
    (x : String) : (p.sweep timeout now entries).1.address x = p.address x := by
  have hfold : ∀ (dead : List String) (q : WorkerPool),
      (dead.foldl markDead q).address x = q.address x := by
    intro dead
    induction dead with
    | nil => exact fun _ => rfl
    | cons id dead ih =>
      intro q
      rw [List.foldl_cons, ih]
      exact q.address_modify id x fun _ => rfl
  exact hfold _ p

theorem address_register (p : WorkerPool) (id address : String) (capacity : Int) (now : Nat)
    (h : validWorkerID id = true) (x : String) :
    (p.register id address capacity now h).address x =
      if id = x then some address else p.address x := by
  simp only [WorkerPool.address, register, Lib.Bucket.get_insert]
  split <;> rfl

end WorkerPool

end Minimodal
