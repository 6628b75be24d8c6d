import Mathlib.Data.Finset.Card
import Mathlib.Data.List.Nodup

universe u v

namespace Lib

variable {α : Type u} [DecidableEq α]

def touch (k : α) (l : List α) : List α := k :: l.erase k

def recent (uses : List α) : List α := uses.foldl (fun l k => touch k l) []

def ahead (l : List α) (k : α) : List α := l.takeWhile (· ≠ k)

def usedSince (uses : List α) (k : α) : List α := ahead uses.reverse k

variable {uses l : List α} {j k x : α} {n : Nat}

theorem mem_touch : j ∈ touch k l ↔ j = k ∨ j ∈ l := by
  rw [touch, List.mem_cons]
  by_cases h : j = k
  · simp [h]
  · rw [List.mem_erase_of_ne h]

theorem nodup_touch (h : l.Nodup) : (touch k l).Nodup :=
  List.nodup_cons.mpr ⟨h.not_mem_erase, h.erase k⟩

theorem length_touch_of_mem (h : k ∈ l) : (touch k l).length = l.length := by
  have hpos := List.length_pos_of_mem h
  rw [touch, List.length_cons, List.length_erase_of_mem h]
  omega

theorem map_touch {β : Type v} [DecidableEq β] {f : α → β} (hnodup : (l.map f).Nodup) (h : x ∈ l) :
    (touch x l).map f = touch (f x) (l.map f) := by
  obtain ⟨l₁, l₂, hx, rfl, herase⟩ := List.exists_erase_eq h
  have hfx : f x ∉ l₁.map f := by
    rw [List.map_append, List.map_cons] at hnodup
    exact fun hmem => (List.nodup_append.mp hnodup).2.2 _ hmem _ List.mem_cons_self rfl
  rw [touch, touch, herase, List.map_cons, List.map_append, List.map_append, List.map_cons,
    List.erase_append_right _ hfx, List.erase_cons_head]

/-- A stack that was cut off at `n` and one that was not look alike down to `n`. -/
theorem take_touch_take : (touch k (l.take n)).take n = (touch k l).take n := by
  rcases Nat.lt_or_ge l.length n with hlen | hlen
  · rw [List.take_of_length_le (l := l) (Nat.le_of_lt hlen)]
  · have hpre : touch k (l.take n) <+: touch k l :=
      List.cons_prefix_cons.mpr ⟨rfl, (List.take_prefix n l).erase k⟩
    have hle : n ≤ (touch k (l.take n)).length := by
      have herase := List.le_length_erase (a := k) (l := l.take n)
      simp only [List.length_take, Nat.min_eq_left hlen] at herase
      simp only [touch, List.length_cons]
      omega
    rw [List.prefix_iff_eq_take.mp hpre, List.take_take, Nat.min_eq_left hle]

@[simp] theorem recent_nil : recent ([] : List α) = [] := rfl

@[simp] theorem recent_snoc : recent (uses ++ [x]) = touch x (recent uses) := by
  simp [recent]

theorem mem_recent : k ∈ recent uses ↔ k ∈ uses := by
  induction uses using List.reverseRecOn with
  | nil => rfl
  | append_singleton uses x ih => simp [mem_touch, ih, or_comm]

theorem nodup_recent : (recent uses).Nodup := by
  induction uses using List.reverseRecOn with
  | nil => exact List.nodup_nil
  | append_singleton uses x ih =>
    rw [recent_snoc]
    exact nodup_touch ih

@[simp] theorem ahead_cons_self : ahead (k :: l) k = [] := by
  simp [ahead]

theorem ahead_cons_of_ne (h : x ≠ k) : ahead (x :: l) k = x :: ahead l k := by
  simp [ahead, h]

theorem ahead_erase (h : x ≠ k) : ahead (l.erase x) k = (ahead l k).erase x := by
  induction l with
  | nil => rfl
  | cons y l ih =>
    by_cases hy : y = x
    · subst hy
      rw [ahead_cons_of_ne h, List.erase_cons_head, List.erase_cons_head]
    · rw [List.erase_cons_tail (by simpa using hy)]
      by_cases hk : y = k
      · subst hk
        rw [ahead_cons_self, ahead_cons_self, List.erase_nil]
      · rw [ahead_cons_of_ne hk, ahead_cons_of_ne hk, ih, List.erase_cons_tail (by simpa using hy)]

theorem ahead_touch (h : x ≠ k) : ahead (touch x l) k = touch x (ahead l k) := by
  rw [touch, ahead_cons_of_ne h, ahead_erase h, touch]

theorem mem_take_iff : k ∈ l.take n ↔ k ∈ l ∧ (ahead l k).length < n := by
  induction l generalizing n with
  | nil => simp
  | cons y l ih =>
    cases n with
    | zero => simp
    | succ n =>
      by_cases hy : y = k
      · subst hy
        simp
      · have hne : k ≠ y := Ne.symm hy
        simp [ahead_cons_of_ne hy, hne, ih]

theorem pairwise_ahead (h : l.Nodup) : l.Pairwise fun j k => j ∈ ahead l k := by
  induction l with
  | nil => exact .nil
  | cons y l ih =>
    obtain ⟨hy, hl⟩ := List.nodup_cons.mp h
    have hne : ∀ k ∈ l, y ≠ k := by
      rintro k hk rfl
      exact hy hk
    refine .cons ?_ ?_
    · intro k hk
      rw [ahead_cons_of_ne (hne k hk)]
      exact List.mem_cons_self
    · refine (ih hl).imp_of_mem fun _ hk hj => ?_
      rw [ahead_cons_of_ne (hne _ hk)]
      exact List.mem_cons_of_mem _ hj

@[simp] theorem usedSince_snoc_self : usedSince (uses ++ [k]) k = [] := by
  simp [usedSince]

theorem usedSince_snoc (h : x ≠ k) : usedSince (uses ++ [x]) k = x :: usedSince uses k := by
  rw [usedSince, List.reverse_append, List.reverse_singleton, List.singleton_append,
    ahead_cons_of_ne h, usedSince]

theorem mem_ahead_recent : j ∈ ahead (recent uses) k ↔ j ∈ usedSince uses k := by
  induction uses using List.reverseRecOn with
  | nil => rfl
  | append_singleton uses x ih =>
    by_cases hx : x = k
    · subst hx
      simp [touch]
    · rw [recent_snoc, ahead_touch hx, mem_touch, ih, usedSince_snoc hx, List.mem_cons]

theorem length_ahead_recent : (ahead (recent uses) k).length = (usedSince uses k).toFinset.card := by
  have hnodup : (ahead (recent uses) k).Nodup :=
    nodup_recent.sublist (List.takeWhile_sublist _)
  rw [← List.toFinset_card_of_nodup hnodup]
  congr 1
  ext j
  simp only [List.mem_toFinset, mem_ahead_recent]

theorem mem_take_recent :
    k ∈ (recent uses).take n ↔ k ∈ uses ∧ (usedSince uses k).toFinset.card < n := by
  rw [mem_take_iff, mem_recent, length_ahead_recent]

theorem pairwise_recent : (recent uses).Pairwise fun j k => j ∈ usedSince uses k :=
  (pairwise_ahead nodup_recent).imp fun h => mem_ahead_recent.mp h

end Lib
