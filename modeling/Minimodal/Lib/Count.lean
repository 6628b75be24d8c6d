import Minimodal.Lib.Bucket

universe u v

namespace Lib

def CountIs {ι : Type u} {α : Type v} (p : α → Bool) (f : ι → α) (n : Nat) : Prop :=
  ∃ F : Finset ι, (∀ i, i ∈ F ↔ p (f i) = true) ∧ F.card = n

namespace CountIs

variable {ι : Type u} {α : Type v} {p : α → Bool} {f : ι → α} {n n' : Nat}

theorem unique (h : CountIs p f n) (h' : CountIs p f n') : n = n' := by
  obtain ⟨F, hF, rfl⟩ := h
  obtain ⟨F', hF', rfl⟩ := h'
  have : F = F' := by
    ext i
    rw [hF, hF']
  rw [this]

theorem zero (h : ∀ i, p (f i) = false) : CountIs p f 0 := ⟨∅, by simp [h], rfl⟩

theorem update [DecidableEq ι] (h : CountIs p f n) (i : ι) (x : α) :
    ∃ n', CountIs p (Function.update f i x) n' ∧ n' + (p (f i)).toNat = n + (p x).toNat := by
  obtain ⟨F, hF, rfl⟩ := h
  have herase : (F.erase i).card + (p (f i)).toNat = F.card := by
    cases hi : p (f i) with
    | true =>
      have hmem : i ∈ F := (hF i).mpr hi
      simpa using Finset.card_erase_add_one hmem
    | false =>
      have hmem : i ∉ F := fun h => by simp [(hF i).mp h] at hi
      simp [Finset.erase_eq_of_notMem hmem]
  have hother : ∀ k, k ≠ i → (k ∈ F.erase i ↔ p (Function.update f i x k) = true) := by
    intro k hk
    rw [Function.update_of_ne hk, Finset.mem_erase, hF]
    simp [hk]
  cases hx : p x with
  | true =>
    refine ⟨(insert i (F.erase i)).card, ⟨_, fun k => ?_, rfl⟩, ?_⟩
    · by_cases hk : k = i
      · simp [hk, hx]
      · rw [Finset.mem_insert, or_iff_right hk, hother k hk]
    · rw [Finset.card_insert_of_notMem (Finset.notMem_erase i F)]
      simp only [Bool.toNat_true]
      omega
  | false =>
    refine ⟨(F.erase i).card, ⟨_, fun k => ?_, rfl⟩, by simpa using herase⟩
    by_cases hk : k = i
    · simp [hk, hx]
    · exact hother k hk

end CountIs

theorem countP_set {α : Type v} {p : α → Bool} {l : List α} {i : Nat} {x : α} (h : l[i]? = some x)
    (y : α) : (l.set i y).countP p + (p x).toNat = l.countP p + (p y).toNat := by
  induction l generalizing i with
  | nil => simp at h
  | cons z l ih =>
    cases i with
    | zero =>
      obtain rfl : z = x := by simpa using h
      cases hz : p z <;> cases hy : p y <;> simp [hz, hy]
    | succ i =>
      have ih := ih (by simpa using h)
      cases hz : p z <;> simp [hz] <;> omega

theorem countP_set_of_eq {α : Type v} {p : α → Bool} {l : List α} {i : Nat} {x y : α}
    (h : l[i]? = some x) (hy : p y = p x) : (l.set i y).countP p = l.countP p := by
  have hcount := countP_set (p := p) h y
  rw [hy] at hcount
  omega

namespace Bucket

variable {κ : Type u} [Ord κ] [Std.TransOrd κ] {ok : κ → Bool} {ν : Type v}

def count (b : Bucket κ ok ν) (p : ν → Bool) : Nat := b.forEach.countP fun x => p x.2

@[simp] theorem count_empty (p : ν → Bool) : (empty : Bucket κ ok ν).count p = 0 := by
  simp [count, forEach, empty]

variable [Std.LawfulEqOrd κ]

theorem countIs_get (b : Bucket κ ok ν) (p : ν → Bool) :
    CountIs (Option.any p) b.get (b.count p) := by
  have hnodup : ((b.forEach.filter fun x => p x.2).map Prod.fst).Nodup := by
    rw [List.Nodup, List.pairwise_map]
    exact b.forEach_pairwise.filter _
  refine ⟨⟨_, Multiset.coe_nodup.mpr hnodup⟩, fun k => ?_, ?_⟩
  · simp only [Finset.mem_mk, Multiset.mem_coe, List.mem_map, List.mem_filter, Prod.exists,
      exists_and_right, exists_eq_right, mem_forEach, Option.any_eq_true]
  · simp [count, List.countP_eq_length_filter]

theorem count_insert [DecidableEq κ] (b : Bucket κ ok ν) (k : κ) (v : ν) (h : ok k = true)
    (p : ν → Bool) :
    (b.insert k v h).count p + ((b.get k).any p).toNat = b.count p + (p v).toNat := by
  have hget : (b.insert k v h).get = Function.update b.get k (some v) := by
    funext x
    rw [get_insert]
    by_cases hx : k = x
    · simp [hx]
    · simp [hx, Ne.symm hx]
  obtain ⟨n, hn, he⟩ := (b.countIs_get p).update k (some v)
  rw [← hget] at hn
  rw [((b.insert k v h).countIs_get p).unique hn, he, Option.any_some]

end Bucket

end Lib
