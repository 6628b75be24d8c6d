import Mathlib.Data.List.Basic

universe u

namespace Lib

structure Pieces (α : Type u) where
  list : List (List α)
  ne_nil : ∀ piece ∈ list, piece ≠ []

namespace Pieces

variable {α : Type u}

def flatten (s : Pieces α) : List α := s.list.flatten

/-- At most `n` elements of the next piece; what is left of the piece is the next one. -/
def recv (s : Pieces α) (n : Nat) : List α × Pieces α :=
  match s with
  | ⟨[], h⟩ => ([], ⟨[], h⟩)
  | ⟨piece :: rest, h⟩ =>
    (piece.take n,
      if hn : n < piece.length then
        ⟨piece.drop n :: rest, by
          refine List.forall_mem_cons.mpr ⟨?_, fun p hp => h p (List.mem_cons_of_mem _ hp)⟩
          simpa [List.drop_eq_nil_iff] using hn⟩
      else ⟨rest, fun p hp => h p (List.mem_cons_of_mem _ hp)⟩)

theorem recv_append (s : Pieces α) (n : Nat) : (s.recv n).1 ++ (s.recv n).2.flatten = s.flatten := by
  obtain ⟨list, h⟩ := s
  cases list with
  | nil => rfl
  | cons piece rest =>
    simp only [recv, flatten]
    split
    · simp [← List.append_assoc]
    · rename_i hn
      simp [List.take_of_length_le (Nat.le_of_not_lt hn)]

theorem length_recv_le (s : Pieces α) (n : Nat) : (s.recv n).1.length ≤ n := by
  obtain ⟨list, h⟩ := s
  cases list with
  | nil => exact Nat.zero_le n
  | cons piece rest => exact List.length_take_le n piece

theorem recv_eq_nil {s : Pieces α} {n : Nat} (hn : 0 < n) (h : (s.recv n).1 = []) : s.flatten = [] := by
  obtain ⟨list, hne⟩ := s
  cases list with
  | nil => rfl
  | cons piece rest =>
    obtain hzero | hnil := List.take_eq_nil_iff.mp h
    · omega
    · exact absurd hnil (hne piece List.mem_cons_self)

end Pieces

end Lib
