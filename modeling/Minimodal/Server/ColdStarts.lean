import Mathlib.Data.List.Sort
import Minimodal.Lib.Ring
import Minimodal.Server.Step

namespace Minimodal

/-- `float64`, as far as the percentiles use it: `hundredths 95` is the literal `0.95`, and the index
that is computed from it lies in the slice and grows with it. -/
structure Float64 where
  carrier : Type
  ofInt : Int → carrier
  mul : carrier → carrier → carrier
  div : carrier → carrier → carrier
  toInt : carrier → Int
  hundredths : Nat → carrier
  index_nonneg : ∀ n p, n < coldStartRingSize → p ≤ 100 → 0 ≤ toInt (mul (ofInt n) (hundredths p))
  index_le : ∀ n p, n < coldStartRingSize → p ≤ 100 → toInt (mul (ofInt n) (hundredths p)) ≤ n
  index_mono : ∀ n p q, n < coldStartRingSize → p ≤ q → q ≤ 100 →
    toInt (mul (ofInt n) (hundredths p)) ≤ toInt (mul (ofInt n) (hundredths q))

structure Percentiles (fl : Float64) where
  p50 : Int
  p95 : Int
  p99 : Int
  mean : fl.carrier
  n : Nat

namespace Percentiles

variable (fl : Float64)

def zero : Percentiles fl where
  p50 := 0
  p95 := 0
  p99 := 0
  mean := fl.ofInt 0
  n := 0

def index (sorted : List Int) (p : Nat) : Int :=
  fl.toInt (fl.mul (fl.ofInt (sorted.length - 1)) (fl.hundredths p))

/-- An index out of range panics. -/
def pick (sorted : List Int) (p : Nat) : Option Int :=
  if index fl sorted p < 0 then none else sorted[(index fl sorted p).toNat]?

def ofSorted (sorted : List Int) : Option (Percentiles fl) := do
  let sum := sorted.foldl (fun sum v => int64 (sum + v)) 0
  let p50 ← pick fl sorted 50
  let p95 ← pick fl sorted 95
  let p99 ← pick fl sorted 99
  return { p50, p95, p99, mean := fl.div (fl.ofInt sum) (fl.ofInt sorted.length), n := sorted.length }

end Percentiles

def Metrics.snapshotPercentiles (fl : Float64) (m : Metrics) : Option (Percentiles fl) :=
  if m.coldSize = 0 then some (.zero fl)
  else Percentiles.ofSorted fl ((m.coldStarts.take m.coldSize).insertionSort (· ≤ ·))

namespace Metrics

def ring (m : Metrics) : Lib.Ring Int := ⟨m.coldStarts, m.coldHead, m.coldSize⟩

def samples (calls : List Int) : List Int := calls.filter fun ms => 0 ≤ ms

def recentSamples (calls : List Int) : List Int := (samples calls).rtake coldStartRingSize

theorem ring_recordColdStart (m : Metrics) (ms : Int) :
    (m.recordColdStart ms).ring = if ms < 0 then m.ring else m.ring.push ms := by
  unfold recordColdStart
  split <;> rfl

structure Records (m : Metrics) (xs : List Int) : Prop where
  length : m.coldStarts.length = coldStartRingSize
  holds : m.ring.Holds xs

theorem Records.new : ({} : Metrics).Records [] where
  length := List.length_replicate
  holds := by
    have hbuf : ({} : Metrics).ring.buf = [] ++ 0 :: List.replicate 1023 0 := rfl
    exact .filling hbuf rfl rfl

variable {m : Metrics} {xs : List Int}

theorem Records.recordColdStart (h : m.Records xs) (ms : Int) :
    (m.recordColdStart ms).Records (if ms < 0 then xs else xs ++ [ms]) := by
  have hlen : (m.recordColdStart ms).ring.buf.length = m.ring.buf.length := by
    rw [ring_recordColdStart]
    split
    · rfl
    · exact Lib.Ring.length_push _ _
  refine ⟨hlen.trans h.length, ?_⟩
  rw [ring_recordColdStart]
  split
  · exact h.holds
  · exact h.holds.push ms

theorem samples_snoc (calls : List Int) (ms : Int) :
    samples (calls ++ [ms]) = if ms < 0 then samples calls else samples calls ++ [ms] := by
  rw [samples, List.filter_append, ← samples]
  split
  · rename_i hneg
    have hnot : ¬ 0 ≤ ms := by omega
    simp [hnot]
  · rename_i hneg
    have hpos : 0 ≤ ms := by omega
    simp [hpos]

theorem records_samples (calls : List Int) : (calls.foldl recordColdStart {}).Records (samples calls) := by
  induction calls using List.reverseRecOn with
  | nil => exact .new
  | append_singleton calls ms ih =>
    rw [List.foldl_append, List.foldl_cons, List.foldl_nil, samples_snoc]
    exact ih.recordColdStart ms

theorem Records.perm (h : m.Records xs) :
    (m.coldStarts.take m.coldSize).Perm (xs.rtake coldStartRingSize) := by
  rw [← h.length]
  exact h.holds.perm

theorem Records.coldSize (h : m.Records xs) : m.coldSize = min xs.length coldStartRingSize := by
  rw [← h.length]
  exact h.holds.size_eq

theorem insertionSort_eq_of_perm {l l' : List Int} (h : l.Perm l') :
    l.insertionSort (· ≤ ·) = l'.insertionSort (· ≤ ·) := by
  refine List.Perm.eq_of_pairwise' (List.pairwise_insertionSort _ l) (List.pairwise_insertionSort _ l') ?_
  exact ((List.perm_insertionSort _ l).trans h).trans (List.perm_insertionSort _ l').symm

theorem Records.snapshotPercentiles (h : m.Records xs) (fl : Float64) :
    m.snapshotPercentiles fl =
      if xs.rtake coldStartRingSize = [] then some (.zero fl)
      else Percentiles.ofSorted fl ((xs.rtake coldStartRingSize).insertionSort (· ≤ ·)) := by
  have hsize : m.coldSize = 0 ↔ xs.rtake coldStartRingSize = [] := by
    rw [← List.length_eq_zero_iff, Lib.Ring.length_rtake, h.coldSize]
  simp only [Metrics.snapshotPercentiles, hsize, insertionSort_eq_of_perm h.perm]

end Metrics

namespace Percentiles

variable (fl : Float64) {sorted : List Int}

theorem pick_eq (hne : sorted ≠ []) (hlen : sorted.length ≤ coldStartRingSize) {p : Nat}
    (hp : p ≤ 100) : ∃ (k : Nat) (hk : k < sorted.length), index fl sorted p = k ∧
      pick fl sorted p = some (sorted.get ⟨k, hk⟩) := by
  have hpos := List.length_pos_iff.mpr hne
  have hcast : (sorted.length : Int) - 1 = (sorted.length - 1 : Nat) := by omega
  have hindex : index fl sorted p =
      fl.toInt (fl.mul (fl.ofInt (sorted.length - 1 : Nat)) (fl.hundredths p)) := by
    rw [index, hcast]
  have hnonneg := fl.index_nonneg (sorted.length - 1) p (by omega) hp
  have hle := fl.index_le (sorted.length - 1) p (by omega) hp
  rw [← hindex] at hnonneg hle
  have hk : (index fl sorted p).toNat < sorted.length := by omega
  refine ⟨_, hk, (Int.toNat_of_nonneg hnonneg).symm, ?_⟩
  rw [pick, if_neg (by omega), List.getElem?_eq_getElem hk]
  rfl

theorem index_mono (hne : sorted ≠ []) (hlen : sorted.length ≤ coldStartRingSize) {p q : Nat}
    (hpq : p ≤ q) (hq : q ≤ 100) : index fl sorted p ≤ index fl sorted q := by
  have hpos := List.length_pos_iff.mpr hne
  have hcast : (sorted.length : Int) - 1 = (sorted.length - 1 : Nat) := by omega
  rw [index, index, hcast]
  exact fl.index_mono _ p q (by omega) hpq hq

theorem ofSorted_eq (hne : sorted ≠ []) (hlen : sorted.length ≤ coldStartRingSize)
    (hsorted : sorted.Pairwise (· ≤ ·)) :
    ∃ snap, ofSorted fl sorted = some snap ∧ snap.n = sorted.length ∧
      snap.p50 ∈ sorted ∧ snap.p95 ∈ sorted ∧ snap.p99 ∈ sorted ∧
      snap.p50 ≤ snap.p95 ∧ snap.p95 ≤ snap.p99 := by
  obtain ⟨i, hi, hindex, hpick⟩ := pick_eq fl hne hlen (p := 50) (by omega)
  obtain ⟨j, hj, hindex', hpick'⟩ := pick_eq fl hne hlen (p := 95) (by omega)
  obtain ⟨k, hk, hindex'', hpick''⟩ := pick_eq fl hne hlen (p := 99) (by omega)
  have hij : i ≤ j := by
    have hmono := index_mono fl hne hlen (p := 50) (q := 95) (by omega) (by omega)
    omega
  have hjk : j ≤ k := by
    have hmono := index_mono fl hne hlen (p := 95) (q := 99) (by omega) (by omega)
    omega
  refine ⟨_, by simp only [ofSorted, hpick, hpick', hpick'']; rfl, rfl, List.get_mem .., List.get_mem ..,
    List.get_mem .., ?_, ?_⟩
  · exact hsorted.rel_get_of_le hij
  · exact hsorted.rel_get_of_le hjk

end Percentiles

namespace Metrics

structure Shows {fl : Float64} (snap : Percentiles fl) (recent : List Int) : Prop where
  n : snap.n = recent.length
  le : snap.p50 ≤ snap.p95
  le' : snap.p95 ≤ snap.p99
  mem : recent ≠ [] → snap.p50 ∈ recent ∧ snap.p95 ∈ recent ∧ snap.p99 ∈ recent
  zero : recent = [] → snap = .zero fl

theorem Records.shows {m : Metrics} {xs : List Int} (h : m.Records xs) (fl : Float64) :
    ∃ snap, m.snapshotPercentiles fl = some snap ∧ Shows snap (xs.rtake coldStartRingSize) := by
  rw [h.snapshotPercentiles fl]
  by_cases hnil : xs.rtake coldStartRingSize = []
  · rw [if_pos hnil]
    exact ⟨_, rfl, by rw [hnil]; rfl, le_rfl, le_rfl, absurd hnil, fun _ => rfl⟩
  · rw [if_neg hnil]
    have hperm := List.perm_insertionSort (· ≤ ·) (xs.rtake coldStartRingSize)
    have hne : (xs.rtake coldStartRingSize).insertionSort (· ≤ ·) ≠ [] := by
      intro heq
      rw [heq] at hperm
      exact hnil hperm.nil_eq.symm
    have hlen : ((xs.rtake coldStartRingSize).insertionSort (· ≤ ·)).length ≤ coldStartRingSize := by
      rw [hperm.length_eq, Lib.Ring.length_rtake]
      exact Nat.min_le_right _ _
    obtain ⟨snap, hsnap, hn, h50, h95, h99, hle, hle'⟩ :=
      Percentiles.ofSorted_eq fl hne hlen (List.pairwise_insertionSort _ _)
    refine ⟨snap, hsnap, hn.trans hperm.length_eq, hle, hle', ?_, fun heq => absurd heq hnil⟩
    exact fun _ => ⟨hperm.mem_iff.mp h50, hperm.mem_iff.mp h95, hperm.mem_iff.mp h99⟩

/-- Whatever cold starts were recorded, the snapshot is made of the most recent ones that were not
negative: it counts them, and its percentiles are among them and in order. Where there are none, it
is all zeros. -/
theorem snapshotPercentiles_recent (fl : Float64) (calls : List Int) :
    ((calls.foldl recordColdStart {}).coldStarts.take (calls.foldl recordColdStart {}).coldSize).Perm
        (recentSamples calls) ∧
      (recentSamples calls).length = min (samples calls).length coldStartRingSize ∧
      ∃ snap, (calls.foldl recordColdStart {}).snapshotPercentiles fl = some snap ∧
        snap.n = (recentSamples calls).length ∧ snap.p50 ≤ snap.p95 ∧ snap.p95 ≤ snap.p99 ∧
        (recentSamples calls ≠ [] → snap.p50 ∈ recentSamples calls ∧ snap.p95 ∈ recentSamples calls ∧
          snap.p99 ∈ recentSamples calls) ∧
        (recentSamples calls = [] → snap = .zero fl) := by
  have hrecords := records_samples calls
  obtain ⟨snap, hsnap, hshows⟩ := hrecords.shows fl
  exact ⟨hrecords.perm, Lib.Ring.length_rtake _, snap, hsnap, hshows.n, hshows.le, hshows.le',
    hshows.mem, hshows.zero⟩

theorem fixed_index (n p : Nat) : 100 * (n : Int) * p / 100 / 100 = n * p / 100 := by
  rw [mul_assoc, Int.mul_ediv_cancel_left _ (by decide)]

def sampleFloat : Float64 where
  carrier := Int
  ofInt n := 100 * n
  mul x y := x * y / 100
  div x y := 100 * x / y
  toInt x := x / 100
  hundredths p := p
  index_nonneg n p _ _ := by positivity
  index_le n p _ hp := by
    rw [fixed_index]
    refine Int.ediv_le_of_le_mul (by decide) ?_
    exact Int.mul_le_mul_of_nonneg_left (by exact_mod_cast hp) (Int.natCast_nonneg n)
  index_mono n p q _ hpq _ := by
    rw [fixed_index, fixed_index]
    refine Int.ediv_le_ediv (by decide) ?_
    exact Int.mul_le_mul_of_nonneg_left (by exact_mod_cast hpq) (Int.natCast_nonneg n)

theorem snapshotPercentiles_recent_sample :
    recentSamples [5, -1, 3] = [5, 3] ∧
      ∃ snap, (([5, -1, 3] : List Int).foldl recordColdStart {}).snapshotPercentiles sampleFloat =
        some snap ∧ snap.n = 2 ∧ snap.p50 ∈ [5, 3] := by
  have hrecent : recentSamples [5, -1, 3] = [5, 3] := by decide
  obtain ⟨-, -, snap, hsnap, hn, -, -, hmem, -⟩ := snapshotPercentiles_recent sampleFloat [5, -1, 3]
  rw [hrecent] at hn hmem
  exact ⟨hrecent, snap, hsnap, hn, (hmem (by decide)).1⟩

/-- With nothing recorded, the percentiles are no samples. -/
theorem zero_is_no_sample :
    ∃ snap, (([] : List Int).foldl recordColdStart {}).snapshotPercentiles sampleFloat = some snap ∧
      recentSamples [] = [] ∧ snap.p50 = 0 ∧ snap.p50 ∉ recentSamples [] :=
  ⟨.zero sampleFloat, rfl, rfl, rfl, List.not_mem_nil⟩

end Metrics

namespace Server

variable {cfg : Config} {s t : State} {a : Action} {es : List Event} {m m' : Mem} {ch : Choice}

def Mem.Recorded (m : Mem) : Prop := ∃ calls, m.metrics.Records (Metrics.samples calls)

theorem recorded_of_perform {op : Op} {r : op.Res} (h : m.Recorded)
    (hp : perform cfg m ch op = some (m', r, es)) : m'.Recorded := by
  obtain ⟨calls, hcalls⟩ := h
  cases performs_of_perform hp with
  | @recordColdStart ms =>
    refine ⟨calls ++ [ms], ?_⟩
    rw [Metrics.samples_snoc]
    exact hcalls.recordColdStart ms
  | _ => exact ⟨calls, hcalls.length, hcalls.holds⟩

theorem recorded_of_step (h : s.mem.Recorded) (hst : step cfg s a = some (t, es)) :
    t.mem.Recorded := by
  cases stepped_of_step hst with
  | start | crash => exact ⟨[], .new⟩
  | main _ hp => exact recorded_of_perform h hp
  | drainer _ _ hp => exact recorded_of_perform h hp
  | detector _ _ hp => exact recorded_of_perform h hp
  | call _ hp => exact recorded_of_perform h hp
  | _ => exact h

/-- In no state of the server does a snapshot index past the samples, and it shows the most recent
ones of the process. -/
theorem snapshot_of_run (fl : Float64) {as : List Action} {es : List Event}
    (h : (machine cfg).Run Lib.Machine.Always init as es s) :
    ∃ calls snap, s.mem.metrics.snapshotPercentiles fl = some snap ∧
      Metrics.Shows snap (Metrics.recentSamples calls) := by
  have hrecorded : s.mem.Recorded :=
    h.invariant (P := fun s => s.mem.Recorded) ⟨[], .new⟩ fun _ _ _ _ hs _ hst => recorded_of_step hs hst
  obtain ⟨calls, hcalls⟩ := hrecorded
  obtain ⟨snap, hsnap, hshows⟩ := hcalls.shows fl
  exact ⟨calls, snap, hsnap, hshows⟩

end Server

end Minimodal
