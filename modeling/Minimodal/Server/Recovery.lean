import Minimodal.Server.Status
import Minimodal.Server.Terminal

namespace Minimodal.Server

/-- A database file as the server leaves it behind. -/
structure Wal where
  store : BoltStore
  keyed : store.KeyedById
  dated : ∀ j r, store.jobs.get j = some r → r.Dated
  assigned : ∀ j r, store.jobs.get j = some r → r.Assigned

theorem exists_wal_of_run {cfg : Config} {as : List Action} {es : List Event} {s : State}
    (h : (machine cfg).Run Lib.Machine.Always init as es s) : ∃ w : Wal, w.store = s.mem.store :=
  have hs := (inv_of_run h).sound
  ⟨⟨s.mem.store, hs.keyedById, fun j r hr => (hs j r hr).dated, fun j r hr => (hs j r hr).assigned⟩,
    rfl⟩

def recovering (_ : State) : Action → Bool
  | .main ch => ch.fault.isNone
  | _ => false

/-- Recovery waits in `enqueue` and no choice of the environment lets it go on. -/
def Blocked (cfg : Config) (s : State) : Prop :=
  ∃ jobID jobs, s.main = .enqueue jobID .send jobs ∧ ∀ ch, step cfg s (.main ch) = none

def recovered (r : JobRecord) (now : Nat) : JobRecord :=
  { r with status := .pending, workerID := "", updatedAt := some now }

namespace Wal

def boot (w : Wal) : State := { mem := { store := w.store }, main := .list }

def backlog (w : Wal) : List JobRecord := w.store.listUnfinished

/-- What the server starts from when recovery has returned. -/
structure Recovered (w : Wal) (s : State) : Prop where
  unfinished : ∀ j r, w.store.getJob j = some r → r.terminal = false →
    (∃ now, s.mem.store.getJob j = some (recovered r now)) ∧ s.mem.pendingQueue.count j = 1
  finished : ∀ j r, w.store.getJob j = some r → r.terminal = true → s.mem.store.getJob j = some r

structure RecoveryCompletes (cfg : Config) (w : Wal) : Prop where
  unblocked : ∀ {as es s},
    (machine cfg).Run (fun s a => recovering s a = true) w.boot as es s → ¬ Blocked cfg s
  returns : ∀ {as es s}, (machine cfg).Run (fun s a => recovering s a = true) w.boot as es s →
    ∃ bs fs t, (machine cfg).Run (fun s a => recovering s a = true) s bs fs t ∧ t.main = .serving
  bounded : ∀ {as es s}, (machine cfg).Run (fun s a => recovering s a = true) w.boot as es s →
    as.length ≤ 3 * w.backlog.length + 1
  recovered : ∀ {as es s}, (machine cfg).Run (fun s a => recovering s a = true) w.boot as es s →
    s.main = .serving → w.Recovered s

variable {w : Wal}

theorem get_of_mem_backlog {job : JobRecord} (h : job ∈ w.backlog) :
    w.store.jobs.get job.id = some job ∧ job.terminal = false := by
  obtain ⟨⟨j, hget⟩, hp⟩ := BoltStore.mem_listWhere.mp h
  exact ⟨w.keyed j job hget ▸ hget, job.unfinished_iff.mp hp⟩

theorem mem_backlog {j : String} {r : JobRecord} (hget : w.store.jobs.get j = some r)
    (hr : r.terminal = false) : r ∈ w.backlog :=
  BoltStore.mem_listWhere.mpr ⟨⟨j, hget⟩, r.unfinished_iff.mpr hr⟩

theorem nodup_backlog (w : Wal) : (w.backlog.map (·.id)).Nodup :=
  BoltStore.nodup_listWhere w.keyed _

end Wal

def Main.todo : Main → List JobRecord
  | .replay job jobs => job :: jobs
  | .enqueue _ _ jobs => jobs
  | _ => []

def Main.hand : Main → List String
  | .enqueue jobID _ _ => [jobID]
  | _ => []

def Main.left : Main → Nat
  | .enqueue _ .check _ => 2
  | .enqueue _ .send _ => 1
  | _ => 0

section Points

variable (job : JobRecord) (jobs : List JobRecord) (jobID : String) (pc : EnqueuePc)

@[simp] theorem Main.todo_replay : (Main.replay job jobs).todo = job :: jobs := rfl
@[simp] theorem Main.todo_enqueue : (Main.enqueue jobID pc jobs).todo = jobs := rfl
@[simp] theorem Main.todo_serving : Main.serving.todo = [] := rfl
@[simp] theorem Main.hand_replay : (Main.replay job jobs).hand = [] := rfl
@[simp] theorem Main.hand_enqueue : (Main.enqueue jobID pc jobs).hand = [jobID] := rfl
@[simp] theorem Main.hand_serving : Main.serving.hand = [] := rfl
@[simp] theorem Main.left_replay : (Main.replay job jobs).left = 0 := rfl
@[simp] theorem Main.left_check : (Main.enqueue jobID .check jobs).left = 2 := rfl
@[simp] theorem Main.left_send : (Main.enqueue jobID .send jobs).left = 1 := rfl

@[simp] theorem Main.todo_next : (Main.next jobs).todo = jobs := by
  cases jobs <;> rfl

@[simp] theorem Main.hand_next : (Main.next jobs).hand = [] := by
  cases jobs <;> rfl

@[simp] theorem Main.left_next : (Main.next jobs).left = 0 := by
  cases jobs <;> rfl

theorem Main.next_ne_list : Main.next jobs ≠ .list := by
  cases jobs <;> simp [next]

theorem Main.next_ne_down : Main.next jobs ≠ .down := by
  cases jobs <;> simp [next]

end Points

structure Replaying (w : Wal) (done : List JobRecord) (s : State) : Prop where
  frame : s = { w.boot with
    mem := { store := s.mem.store, pendingQueue := s.mem.pendingQueue }, main := s.main }
  listed : s.main ≠ .list
  up : s.main ≠ .down
  split : w.backlog = done ++ s.main.todo
  queued : done.map (·.id) = s.mem.pendingQueue ++ s.main.hand
  room : s.mem.pendingQueue.length ≤ pendingQueueSize
  settled : ∀ job ∈ done, ∃ now, s.mem.store.jobs.get job.id = some (recovered job now)
  untouched : ∀ j, j ∉ done.map (·.id) → s.mem.store.jobs.get j = w.store.jobs.get j

theorem replaying_of_list (w : Wal) : Replaying w [] { w.boot with main := .next w.backlog } where
  frame := rfl
  listed := Main.next_ne_list _
  up := Main.next_ne_down _
  split := by simp
  queued := by simp [Wal.boot]
  room := Nat.zero_le _
  settled := by simp
  untouched _ _ := rfl

theorem recover_run {r : JobRecord} (hr : r.terminal = false) (hd : r.Dated) (ha : r.Assigned)
    {c c' : Captured} {r' : JobRecord} (h : Mutator.recover.run c r = (c', .ok r')) (now : Nat) :
    r'.stamp now = recovered r now := by
  obtain ⟨created, hc⟩ := Option.isSome_iff_exists.mp hd
  cases Mutator.rewrites_of_run h with
  | recover => simp [JobRecord.stamp, recovered, hc]
  | keep hst =>
    have hp : r.status = .pending := by
      cases hs : r.status <;> simp_all [JobRecord.terminal]
    have hw : r.workerID = "" := (ha hr).mpr hp
    simp [JobRecord.stamp, recovered, hc, ← hp, ← hw]

namespace Replaying

variable {w : Wal} {done jobs : List JobRecord} {job : JobRecord} {s : State} {ch : Choice}

theorem quiet (h : Replaying w done s) : s.mem.shuttingDown = false := by
  rw [h.frame]

theorem fresh (h : Replaying w done s) (hmain : s.main = .replay job jobs) :
    job.id ∉ done.map (·.id) ∧ s.mem.store.jobs.get job.id = some job ∧ job.terminal = false := by
  have hsplit := h.split
  rw [hmain, Main.todo_replay] at hsplit
  have hnew : job.id ∉ done.map (·.id) := by
    have hnodup := w.nodup_backlog
    rw [hsplit, List.map_append, List.map_cons] at hnodup
    intro hmem
    exact (List.nodup_append.mp hnodup).2.2 job.id hmem job.id (by simp) rfl
  have hmem : job ∈ w.backlog := by simp [hsplit]
  obtain ⟨hget, hr⟩ := Wal.get_of_mem_backlog hmem
  exact ⟨hnew, (h.untouched _ hnew).trans hget, hr⟩

theorem replay (h : Replaying w done s) (hmain : s.main = .replay job jobs)
    (hkey : validKey job.id = true) {c : Captured} {r' : JobRecord}
    (hrun : Mutator.recover.run {} job = (c, .ok r')) :
    Replaying w (done ++ [job]) { s with
      mem.store.jobs := s.mem.store.jobs.insert job.id (r'.stamp ch.now) hkey
      main := .enqueue job.id .check jobs } := by
  obtain ⟨hnew, hget, hr⟩ := h.fresh hmain
  have hold := (h.untouched _ hnew).symm.trans hget
  rw [recover_run hr (w.dated _ _ hold) (w.assigned _ _ hold) hrun]
  constructor
  case frame =>
    rw [h.frame]
  case listed => simp
  case up => simp
  case split => simp [h.split, hmain]
  case queued => simp [h.queued, hmain]
  case room => exact h.room
  case settled =>
    intro q hq
    rcases List.mem_append.mp hq with hq | hq
    · have hne : q.id ≠ job.id := fun he => hnew (he ▸ List.mem_map_of_mem hq)
      simpa [Lib.Bucket.get_insert_ne _ _ _ hne] using h.settled q hq
    · obtain rfl := List.mem_singleton.mp hq
      exact ⟨ch.now, Lib.Bucket.get_insert_self _ _ _ hkey⟩
  case untouched =>
    intro j hj
    simp only [List.map_append, List.map_cons, List.map_nil, List.mem_append, List.mem_singleton,
      not_or] at hj
    rw [Lib.Bucket.get_insert_ne _ _ _ hj.2]
    exact h.untouched j hj.1

theorem check {jobID : String} (h : Replaying w done s) (hmain : s.main = .enqueue jobID .check jobs) :
    Replaying w done { s with main := .enqueue jobID .send jobs } where
  frame := by
    rw [h.frame]
  listed := by simp
  up := by simp
  split := by simp [h.split, hmain]
  queued := by simp [h.queued, hmain]
  room := h.room
  settled := h.settled
  untouched := h.untouched

theorem send {jobID : String} (h : Replaying w done s) (hmain : s.main = .enqueue jobID .send jobs)
    (hlen : s.mem.pendingQueue.length < pendingQueueSize) :
    Replaying w done { s with
      mem.pendingQueue := s.mem.pendingQueue ++ [jobID]
      main := .next jobs } where
  frame := by
    rw [h.frame]
  listed := Main.next_ne_list _
  up := Main.next_ne_down _
  split := by simp [h.split, hmain]
  queued := by simp [h.queued, hmain]
  room := by simpa using hlen
  settled := h.settled
  untouched := h.untouched

theorem step {mem : Mem} {pc : Main} {es : List Event} (h : Replaying w done s)
    (hf : ch.fault = none) (hst : Main.Steps s.mem ch s.main mem pc es) :
    ∃ done', Replaying w done' { s with mem, main := pc } ∧
      pc.left + 3 * done.length + 1 = s.main.left + 3 * done'.length := by
  generalize hmain : s.main = main at hst
  cases hst with
  | list | listError => exact absurd hmain h.listed
  | replay ht =>
    obtain ⟨-, hget, -⟩ := h.fresh hmain
    cases ht with
    | commit hkey _ hget' hrun =>
      rw [hget, Option.some.injEq] at hget'
      subst hget'
      refine ⟨_, h.replay hmain hkey hrun, ?_⟩
      simp only [Main.left_check, Main.left_replay, List.length_append, List.length_singleton]
      omega
    | skip _ _ hrun => simp [Mutator.run] at hrun
  | replayError ht =>
    obtain ⟨-, hget, -⟩ := h.fresh hmain
    cases ht with
    | error hbad => simp [hf, hget] at hbad
  | check =>
    refine ⟨done, h.check hmain, ?_⟩
    simp only [Main.left_check, Main.left_send]
    omega
  | checkSkip hdown => simp [h.quiet] at hdown
  | send hlen =>
    refine ⟨done, h.send hmain hlen, ?_⟩
    simp only [Main.left_send, Main.left_next]
    omega

theorem recovered (h : Replaying w done s) (hmain : s.main = .serving) : w.Recovered s := by
  have hdone : w.backlog = done := by simpa [hmain] using h.split
  have hqueue : s.mem.pendingQueue = done.map (·.id) := by
    simpa [hmain] using h.queued.symm
  constructor
  · intro j r hget hr
    have hmem := Wal.mem_backlog hget hr
    obtain rfl := w.keyed j r hget
    refine ⟨h.settled r (hdone ▸ hmem), ?_⟩
    rw [hqueue, ← hdone]
    exact List.count_eq_one_of_mem w.nodup_backlog (List.mem_map_of_mem hmem)
  · intro j r hget hr
    have hnot : j ∉ done.map (·.id) := by
      intro hmem
      obtain ⟨q, hq, rfl⟩ := List.mem_map.mp hmem
      obtain ⟨hget', hq'⟩ := Wal.get_of_mem_backlog (hdone ▸ hq)
      have hget : w.store.jobs.get q.id = some r := hget
      rw [hget, Option.some.injEq] at hget'
      simp [hget', hq'] at hr
    exact (h.untouched j hnot).trans hget

theorem backlog_le (h : Replaying w done s) (hmain : s.main = .serving) :
    w.backlog.length ≤ pendingQueueSize := by
  have hlen := congrArg List.length h.queued
  rw [hmain, Main.hand_serving, List.append_nil, List.length_map] at hlen
  rw [h.split, hmain, Main.todo_serving, List.append_nil, hlen]
  exact h.room

theorem enabled (cfg : Config) (h : Replaying w done s) :
    s.main = .serving ∨ (Server.step cfg s (.main {})).isSome = true ∨
      Blocked cfg s ∧ s.mem.pendingQueue.length = pendingQueueSize := by
  cases hmain : s.main with
  | down => exact absurd hmain h.up
  | list => exact absurd hmain h.listed
  | serving => exact .inl rfl
  | replay job jobs =>
    exact .inr (.inl (by simp [Server.step, Lib.Thread.step, hmain, Main.code, perform]))
  | enqueue jobID pc jobs =>
    cases pc with
    | check =>
      right; left
      simp [Server.step, Lib.Thread.step, hmain, Main.code, EnqueuePc.code, perform]
    | send =>
      by_cases hlen : s.mem.pendingQueue.length < pendingQueueSize
      · right; left
        simp [Server.step, Lib.Thread.step, hmain, Main.code, EnqueuePc.code, perform, hlen]
      · refine .inr (.inr ⟨⟨jobID, jobs, hmain, fun ch => ?_⟩, le_antisymm h.room (not_lt.mp hlen)⟩)
        simp [Server.step, Lib.Thread.step, hmain, Main.code, EnqueuePc.code, perform, hlen]

end Replaying

section Runs

variable {cfg : Config} {w : Wal} {as : List Action} {es : List Event} {s : State}

def Progress (w : Wal) (n : Nat) (s : State) : Prop :=
  n = 0 ∧ s = w.boot ∨ ∃ done, Replaying w done s ∧ n + s.main.left = 3 * done.length + 1

theorem Progress.step {n : Nat} {t : State} {a : Action} (h : Progress w n s)
    (hok : recovering s a = true) (hst : Server.step cfg s a = some (t, es)) :
    Progress w (n + 1) t := by
  cases a with
  | main ch =>
    have hf : ch.fault = none := by simpa [recovering] using hok
    obtain ⟨stmt, mem, r, hcode, hperform, rfl⟩ := step_main hst
    have hmain := Main.steps hcode hperform
    rcases h with ⟨rfl, rfl⟩ | ⟨done, hd, hn⟩
    · refine .inr ⟨[], ?_⟩
      generalize stmt.next r = pc at hmain
      cases hmain with
      | list => exact ⟨replaying_of_list w, by simp⟩
      | listError hbad => simp [hf] at hbad
    · obtain ⟨done', hd', hleft⟩ := hd.step hf hmain
      exact .inr ⟨done', hd', by simp only; omega⟩
  | _ => simp [recovering] at hok

theorem progress_of_run (h : (machine cfg).Run (fun s a => recovering s a = true) w.boot as es s) :
    Progress w as.length s := by
  induction h with
  | refl => exact .inl ⟨rfl, rfl⟩
  | tail _ hok hst ih =>
    rw [List.length_append]
    exact ih.step hok hst

theorem Progress.bounded {n : Nat} (h : Progress w n s) : n ≤ 3 * w.backlog.length + 1 := by
  rcases h with ⟨rfl, -⟩ | ⟨done, hd, hn⟩
  · exact Nat.zero_le _
  · have hlen := congrArg List.length hd.split
    rw [List.length_append] at hlen
    omega

theorem Progress.serving {n : Nat} (h : Progress w n s) (hmain : s.main = .serving) :
    w.Recovered s ∧ w.backlog.length ≤ pendingQueueSize := by
  rcases h with ⟨-, rfl⟩ | ⟨done, hd, -⟩
  · simp [Wal.boot] at hmain
  · exact ⟨hd.recovered hmain, hd.backlog_le hmain⟩

theorem Progress.enabled (cfg : Config) {n : Nat} (h : Progress w n s) :
    s.main = .serving ∨ (Server.step cfg s (.main {})).isSome = true ∨
      Blocked cfg s ∧ pendingQueueSize < w.backlog.length := by
  rcases h with ⟨-, rfl⟩ | ⟨done, hd, -⟩
  · exact .inr (.inl rfl)
  · rcases hd.enabled cfg with hmain | hst | ⟨hb, hfull⟩
    · exact .inl hmain
    · exact .inr (.inl hst)
    · refine .inr (.inr ⟨hb, ?_⟩)
      obtain ⟨jobID, jobs, hmain, -⟩ := hb
      have hlen := congrArg List.length hd.queued
      have hsplit := congrArg List.length hd.split
      simp only [hmain, Main.hand_enqueue, Main.todo_enqueue, List.length_map, List.length_append,
        List.length_singleton] at hlen hsplit
      omega

theorem exists_end (h : (machine cfg).Run (fun s a => recovering s a = true) w.boot as es s) :
    ∃ bs fs t, (machine cfg).Run (fun s a => recovering s a = true) s bs fs t ∧
      (t.main = .serving ∨ Blocked cfg t ∧ pendingQueueSize < w.backlog.length) := by
  -- the length of a run is bounded, so a run that can always go on cannot exist
  induction hk : 3 * w.backlog.length + 1 - as.length generalizing as es s with
  | zero =>
    have hprog := progress_of_run h
    rcases hprog.enabled cfg with hmain | hst | hb
    · exact ⟨[], [], s, .refl, .inl hmain⟩
    · obtain ⟨⟨t, e⟩, hst⟩ := Option.isSome_iff_exists.mp hst
      have := (hprog.step rfl hst).bounded
      omega
    · exact ⟨[], [], s, .refl, .inr hb⟩
  | succ k ih =>
    rcases (progress_of_run h).enabled cfg with hmain | hst | hb
    · exact ⟨[], [], s, .refl, .inl hmain⟩
    · obtain ⟨⟨t, e⟩, hst⟩ := Option.isSome_iff_exists.mp hst
      have hok : recovering s (.main {}) = true := rfl
      have hst : (machine cfg).step s (.main {}) = some (t, e) := hst
      obtain ⟨bs, fs, u, hrun, hu⟩ := ih (.tail h hok hst) (by simp; omega)
      exact ⟨_, _, u, .cons hok hst hrun, hu⟩
    · exact ⟨[], [], s, .refl, .inr hb⟩

/-- Startup recovery completes exactly for the files whose backlog fits into the channel. -/
theorem recovery_completes_iff (cfg : Config) (w : Wal) :
    w.RecoveryCompletes cfg ↔ w.backlog.length ≤ pendingQueueSize := by
  constructor
  · intro h
    obtain ⟨bs, fs, t, hrun, hmain⟩ := h.returns .refl
    exact ((progress_of_run hrun).serving hmain).2
  · intro hfits
    constructor
    case unblocked =>
      intro as es s hrun hb
      obtain ⟨jobID, jobs, hmain, hnone⟩ := id hb
      rcases (progress_of_run hrun).enabled cfg with hserving | hst | ⟨-, hover⟩
      · simp [hmain] at hserving
      · simp [hnone] at hst
      · omega
    case returns =>
      intro as es s hrun
      obtain ⟨bs, fs, t, hrun', hmain | ⟨-, hover⟩⟩ := exists_end hrun
      · exact ⟨bs, fs, t, hrun', hmain⟩
      · omega
    case bounded => exact fun hrun => (progress_of_run hrun).bounded
    case recovered => exact fun hrun hmain => ((progress_of_run hrun).serving hmain).1

end Runs

section Overfull

def floodJob (i : Nat) : JobRecord where
  id := String.ofList (List.replicate (i + 1) 'j')
  status := .pending
  functionBytes := [1]
  createdAt := some 1
  updatedAt := some 1

theorem floodJob_size (i : Nat) : (floodJob i).id.utf8ByteSize = i + 1 := by
  have hsize : ∀ n, (String.ofList (List.replicate n 'j')).utf8ByteSize = n := by
    intro n
    induction n with
    | zero => rfl
    | succ n ih =>
      rw [List.replicate_succ, String.ofList_cons, String.utf8ByteSize_append, ih, Nat.add_comm]
      rfl
  exact hsize (i + 1)

theorem floodJob_valid {i : Nat} (h : i < 32768) : validKey (floodJob i).id = true := by
  simp only [validKey, floodJob_size, Bool.and_eq_true, decide_eq_true_eq]
  omega

def flood : (n : Nat) → n ≤ 32768 → BoltStore
  | 0, _ => .empty
  | n + 1, h =>
    let s := flood n (by omega)
    { s with jobs := s.jobs.insert (floodJob n).id (floodJob n) (floodJob_valid h) }

theorem flood_get {n : Nat} (h : n ≤ 32768) (j : String) (r : JobRecord) :
    (flood n h).jobs.get j = some r ↔ ∃ i < n, j = (floodJob i).id ∧ r = floodJob i := by
  induction n with
  | zero => simp [flood, BoltStore.empty]
  | succ n ih =>
    have hlast : (∃ i < n + 1, j = (floodJob i).id ∧ r = floodJob i) ↔
        (j = (floodJob n).id ∧ r = floodJob n) ∨ ∃ i < n, j = (floodJob i).id ∧ r = floodJob i := by
      simp only [Nat.lt_succ_iff_lt_or_eq, or_and_right, exists_or, exists_eq_left, or_comm]
    rw [hlast, ← ih (by omega)]
    simp only [flood, Lib.Bucket.get_insert]
    by_cases hj : (floodJob n).id = j
    · have hnew : (flood n (by omega)).jobs.get j ≠ some r := by
        rw [ne_eq, ih]
        rintro ⟨i, hi, rfl, -⟩
        have hsize := congrArg String.utf8ByteSize hj
        rw [floodJob_size, floodJob_size] at hsize
        omega
      simp [hj, hnew, eq_comm]
    · simp [hj, Ne.symm hj]

def floodWal (n : Nat) (h : n ≤ 32768) : Wal where
  store := flood n h
  keyed j r hget := by
    obtain ⟨i, -, rfl, rfl⟩ := (flood_get h j r).mp hget
    rfl
  dated j r hget := by
    obtain ⟨i, -, -, rfl⟩ := (flood_get h j r).mp hget
    rfl
  assigned j r hget := by
    obtain ⟨i, -, -, rfl⟩ := (flood_get h j r).mp hget
    exact fun _ => by simp [floodJob]

theorem le_backlog_floodWal {n : Nat} (h : n ≤ 32768) : n ≤ (floodWal n h).backlog.length := by
  have hinj : Function.Injective floodJob := by
    intro i k he
    have hsize := congrArg (fun r : JobRecord => r.id.utf8ByteSize) he
    simp only [floodJob_size] at hsize
    omega
  have hsub : (List.range n).map floodJob ⊆ (floodWal n h).backlog := by
    intro r hr
    obtain ⟨i, hi, rfl⟩ := List.mem_map.mp hr
    have hget : (flood n h).jobs.get (floodJob i).id = some (floodJob i) :=
      (flood_get h _ _).mpr ⟨i, List.mem_range.mp hi, rfl, rfl⟩
    exact Wal.mem_backlog (w := floodWal n h) hget rfl
  have hnodup : ((List.range n).map floodJob).Nodup := List.nodup_range.map hinj
  simpa using (hnodup.subperm hsub).length_le

theorem Replaying.stuck {cfg : Config} {w : Wal} {done : List JobRecord} {s : State}
    (h : Replaying w done s) (hb : Blocked cfg s) {a : Action} (ha : a ≠ .crash) :
    Server.step cfg s a = none := by
  obtain ⟨jobID, jobs, hmain, hnone⟩ := hb
  have hcalls : ∀ c, s.calls c = .idle := fun c => by
    rw [h.frame]
    rfl
  have hctx : s.mem.ctxDone = false := by
    rw [h.frame]
  cases a with
  | crash => exact absurd rfl ha
  | main ch => exact hnone ch
  | call c ch => simp [Server.step, Lib.Thread.step, hcalls, Handler.code]
  | invokeFunction => simp [Server.step, State.accept, hmain]
  | _ => simp [Server.step, State.accept, hmain, h.quiet, hctx]

/-- With one job more than the channel holds, the process never starts to serve: recovery
waits for the drainer, which `main` starts only after recovery. -/
theorem recovery_blocks_on_full_channel :
    ∃ as es s, (machine sampleConfig).Run (fun s a => recovering s a = true)
        (floodWal 10001 (by decide)).boot as es s ∧
      Blocked sampleConfig s ∧ ∀ a, a ≠ .crash → step sampleConfig s a = none := by
  have hover := le_backlog_floodWal (n := 10001) (by decide)
  obtain ⟨as, es, s, hrun, hmain | ⟨hb, -⟩⟩ :=
    @exists_end sampleConfig (floodWal 10001 (by decide)) _ _ _ .refl
  · have hfits := ((progress_of_run hrun).serving hmain).2
    simp only [pendingQueueSize] at hfits
    omega
  · refine ⟨as, es, s, hrun, hb, ?_⟩
    rcases progress_of_run hrun with ⟨-, rfl⟩ | ⟨done, hd, -⟩
    · obtain ⟨jobID, jobs, hmain, -⟩ := hb
      simp [Wal.boot] at hmain
    · exact fun a ha => hd.stuck hb ha

end Overfull

end Minimodal.Server
