import Mathlib.Data.List.Nodup
import Mathlib.Data.List.Perm.Basic

universe u v

namespace Lib

/-- Members of `S` taken one after the other, each the cheapest of those left. -/
inductive Greedy {α : Type u} {β : Type v} [LE β] (S : α → Prop) (cost : α → β) : List α → Prop
  | nil : Greedy S cost []
  | concat {l : List α} {a : α} : Greedy S cost l → S a → a ∉ l →
      (∀ b, S b → b ∉ l → cost a ≤ cost b) → Greedy S cost (l ++ [a])

namespace Greedy

variable {α : Type u} {β : Type v} [LE β] {S : α → Prop} {cost : α → β} {l : List α}

theorem mem (h : Greedy S cost l) : ∀ a ∈ l, S a := by
  induction h with
  | nil => simp
  | concat _ ha _ _ ih => simpa [or_imp, forall_and] using ⟨ih, ha⟩

theorem nodup (h : Greedy S cost l) : l.Nodup := by
  induction h with
  | nil => exact .nil
  | concat _ _ hnew _ ih =>
    rw [← List.concat_eq_append, List.nodup_concat]
    exact ⟨hnew, ih⟩

theorem le_left (h : Greedy S cost l) {a b : α} (ha : a ∈ l) (hb : S b) (hl : b ∉ l) :
    cost a ≤ cost b := by
  induction h with
  | nil => simp at ha
  | concat _ _ _ hmin ih =>
    simp only [List.mem_append, List.mem_singleton, not_or] at ha hl
    rcases ha with ha | rfl
    · exact ih ha hl.1
    · exact hmin b hb hl.1

theorem sorted (h : Greedy S cost l) : l.Pairwise fun a b => cost a ≤ cost b := by
  induction h with
  | nil => exact .nil
  | concat hl ha hnew _ ih =>
    refine List.pairwise_append.mpr ⟨ih, List.pairwise_singleton _ _, fun x hx b hb => ?_⟩
    rw [List.mem_singleton.mp hb]
    exact hl.le_left hx ha hnew

theorem length_le (h : Greedy S cost l) {all : List α} (hall : ∀ a, S a → a ∈ all) :
    l.length ≤ all.length :=
  (List.subperm_of_subset h.nodup fun a ha => hall a (h.mem a ha)).length_le

theorem length_eq (h : Greedy S cost l) {all : List α} (hall : ∀ a, a ∈ all ↔ S a)
    (hnodup : all.Nodup) (hdone : ∀ a, S a → a ∈ l) : l.length = all.length :=
  ((List.perm_ext_iff_of_nodup h.nodup hnodup).mpr fun a =>
    ⟨fun ha => (hall a).mpr (h.mem a ha), fun ha => hdone a ((hall a).mp ha)⟩).length_eq

end Greedy

end Lib
