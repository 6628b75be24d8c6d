import Mathlib.Algebra.Order.BigOperators.Group.List
import Mathlib.Algebra.Order.Group.PosPart

universe u v

namespace Lib

variable {α : Type u} {G : Type v} [AddCommGroup G] [LinearOrder G]

/-- By how much `f` exceeds `g`, where it does, summed over the list. -/
def slack (f g : α → G) (l : List α) : G := (l.map fun x => (f x - g x)⁺).sum

@[simp] theorem slack_nil (f g : α → G) : slack f g [] = 0 := rfl

@[simp] theorem slack_cons (f g : α → G) (x : α) (l : List α) :
    slack f g (x :: l) = (f x - g x)⁺ + slack f g l := rfl

variable [IsOrderedAddMonoid G]

theorem slack_nonneg (f g : α → G) (l : List α) : 0 ≤ slack f g l := by
  refine List.sum_nonneg fun y hy => ?_
  obtain ⟨x, -, rfl⟩ := List.mem_map.mp hy
  exact posPart_nonneg _

theorem slack_eq_zero {f g : α → G} {l : List α} : slack f g l = 0 ↔ ∀ x ∈ l, f x ≤ g x := by
  induction l with
  | nil => simp
  | cons x l ih =>
    rw [slack_cons, add_eq_zero_iff_of_nonneg (posPart_nonneg _) (slack_nonneg f g l), ih,
      posPart_eq_zero, sub_nonpos, List.forall_mem_cons]

theorem sub_eq_posPart_sub (a b : G) : a - b = (a - b)⁺ - (b - a)⁺ := by
  rw [← neg_sub a b, posPart_neg, posPart_sub_negPart]

theorem sum_sub_sum (f g : α → G) (l : List α) :
    (l.map f).sum - (l.map g).sum = slack f g l - slack g f l := by
  induction l with
  | nil => simp
  | cons x l ih =>
    calc ((x :: l).map f).sum - ((x :: l).map g).sum
      _ = (f x - g x) + ((l.map f).sum - (l.map g).sum) := by
        simp only [List.map_cons, List.sum_cons, add_sub_add_comm]
      _ = ((f x - g x)⁺ - (g x - f x)⁺) + (slack f g l - slack g f l) := by
        rw [ih, ← sub_eq_posPart_sub]
      _ = slack f g (x :: l) - slack g f (x :: l) := by
        rw [slack_cons, slack_cons, add_sub_add_comm]

theorem sum_le_sum_iff_slack {f g : α → G} {l : List α} :
    (l.map f).sum ≤ (l.map g).sum ↔ slack f g l ≤ slack g f l := by
  rw [← sub_nonpos, sum_sub_sum, sub_nonpos]

end Lib
