import Mathlib.Data.List.Basic

universe u

namespace Lib.Split

variable {α : Type u} (p : α → Bool)

/-- Cuts a list behind its separators, which are left out: the complete pieces and the rest.
`piece` has been read before. -/
def cut (piece : List α) : List α → List (List α) × List α
  | [] => ([], piece)
  | a :: l => if p a then (piece :: (cut [] l).1, (cut [] l).2) else cut (piece ++ [a]) l

def close : List (List α) × List α → List (List α)
  | (pieces, []) => pieces
  | (pieces, a :: rest) => pieces ++ [a :: rest]

variable {p} {piece l s : List α}

theorem cut_cons_of_pos {a : α} (h : p a = true) :
    cut p piece (a :: l) = (piece :: (cut p [] l).1, (cut p [] l).2) := by
  rw [cut, if_pos h]

theorem cut_cons_of_neg {a : α} (h : p a = false) :
    cut p piece (a :: l) = cut p (piece ++ [a]) l := by
  rw [cut, if_neg (by simp [h])]

theorem cut_append (l l' : List α) :
    cut p piece (l ++ l') =
      ((cut p piece l).1 ++ (cut p (cut p piece l).2 l').1, (cut p (cut p piece l).2 l').2) := by
  induction l generalizing piece with
  | nil => rfl
  | cons a l ih =>
    cases ha : p a with
    | true => rw [List.cons_append, cut_cons_of_pos ha, cut_cons_of_pos ha, ih, List.cons_append]
    | false => rw [List.cons_append, cut_cons_of_neg ha, cut_cons_of_neg ha, ih]

theorem cut_of_forall_not (h : ∀ a ∈ l, p a = false) : cut p piece l = ([], piece ++ l) := by
  induction l generalizing piece with
  | nil => simp [cut]
  | cons a l ih =>
    rw [cut_cons_of_neg (h a (by simp)), ih fun b hb => h b (List.mem_cons_of_mem _ hb)]
    simp

theorem rest_not (hpiece : ∀ a ∈ piece, p a = false) : ∀ a ∈ (cut p piece l).2, p a = false := by
  induction l generalizing piece with
  | nil => exact hpiece
  | cons a l ih =>
    cases ha : p a with
    | true =>
      rw [cut_cons_of_pos ha]
      exact ih (by simp)
    | false =>
      rw [cut_cons_of_neg ha]
      refine ih fun b hb => ?_
      rcases List.mem_append.mp hb with hb | hb
      · exact hpiece b hb
      · rw [List.mem_singleton.mp hb]
        exact ha

theorem cut_nil_append (hpiece : ∀ a ∈ piece, p a = false) (l : List α) :
    cut p [] (piece ++ l) = cut p piece l := by
  rw [cut_append, cut_of_forall_not hpiece]
  rfl

theorem cut_subset (piece l : List α) :
    (∀ s ∈ (cut p piece l).1, s ⊆ piece ++ l) ∧ (cut p piece l).2 ⊆ piece ++ l := by
  induction l generalizing piece with
  | nil => simp [cut]
  | cons a l ih =>
    cases ha : p a with
    | true =>
      rw [cut_cons_of_pos ha]
      obtain ⟨hpieces, hrest⟩ := ih []
      have hsub : l ⊆ piece ++ a :: l := fun b hb => by simp [hb]
      refine ⟨fun s hs => ?_, List.Subset.trans hrest hsub⟩
      rcases List.mem_cons.mp hs with rfl | hs
      · exact List.subset_append_left _ _
      · exact List.Subset.trans (hpieces s hs) hsub
    | false =>
      rw [cut_cons_of_neg ha]
      simpa using ih (piece ++ [a])

theorem mem_close {pieces : List (List α)} {rest : List α} :
    s ∈ close (pieces, rest) ↔ s ∈ pieces ∨ s = rest ∧ s ≠ [] := by
  cases rest with
  | nil => simp [close]
  | cons a rest =>
    simp only [close, List.mem_append, List.mem_singleton]
    refine or_congr_right ⟨fun hs => ⟨hs, ?_⟩, And.left⟩
    rw [hs]
    exact List.cons_ne_nil a rest

theorem exists_mem_close {a : α} (ha : a ∈ piece ++ l) (hp : p a = false) :
    ∃ s ∈ close (cut p piece l), a ∈ s := by
  induction l generalizing piece with
  | nil =>
    rw [List.append_nil] at ha
    exact ⟨piece, mem_close.mpr (.inr ⟨rfl, List.ne_nil_of_mem ha⟩), ha⟩
  | cons b l ih =>
    cases hb : p b with
    | false =>
      rw [cut_cons_of_neg hb]
      exact ih (by simpa using ha)
    | true =>
      have hcases : a ∈ piece ∨ a ∈ l := by
        have hne : a ≠ b := by
          rintro rfl
          simp [hp] at hb
        simpa [hne] using ha
      rw [cut_cons_of_pos hb]
      rcases hcases with ha | ha
      · exact ⟨piece, mem_close.mpr (.inl (by simp)), ha⟩
      · have hmem : a ∈ [] ++ l := by rwa [List.nil_append]
        obtain ⟨s, hs, has⟩ := ih hmem
        refine ⟨s, ?_, has⟩
        generalize cut p [] l = r at hs
        obtain ⟨pieces, rest⟩ := r
        cases rest with
        | nil => exact List.mem_cons_of_mem _ hs
        | cons c rest => exact List.mem_cons_of_mem _ hs

end Lib.Split
