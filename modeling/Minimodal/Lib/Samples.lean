import Mathlib.Data.List.Basic

universe u

namespace Lib

/-! The values that a variable takes one after another, and what an observer sees of them who
looks now and then and notes a value that differs from the one it has noted last. -/

namespace Samples

variable {α : Type u}

def push [DecidableEq α] (hist : List α) (a : α) : List α :=
  if hist.getLast? = some a then hist else hist ++ [a]

theorem getLast?_push [DecidableEq α] (hist : List α) (a : α) : (push hist a).getLast? = some a := by
  unfold push
  split
  · assumption
  · simp

theorem push_eq_append [DecidableEq α] (hist : List α) (a : α) :
    ∃ post, push hist a = hist ++ post := by
  unfold push
  split
  · exact ⟨[], by simp⟩
  · exact ⟨[a], rfl⟩

/-- The notes are in the order of the history, and the last one was its end when it was taken. -/
def Tracks (hist notes : List α) (last : α) : Prop :=
  ∃ pre post, hist = pre ++ post ∧ notes.Sublist pre ∧ pre.getLast? = some last

variable {hist notes : List α} {last a : α}

theorem Tracks.sublist (h : Tracks hist notes last) : notes.Sublist hist := by
  obtain ⟨pre, post, rfl, hnotes, -⟩ := h
  exact hnotes.trans (List.sublist_append_left pre post)

theorem Tracks.append (h : Tracks hist notes last) (l : List α) : Tracks (hist ++ l) notes last := by
  obtain ⟨pre, post, rfl, hnotes, hlast⟩ := h
  exact ⟨pre, post ++ l, by simp, hnotes, hlast⟩

theorem Tracks.start (h : hist.getLast? = some a) : Tracks hist [a] a := by
  obtain ⟨front, rfl⟩ := List.getLast?_eq_some_iff.mp h
  exact ⟨front ++ [a], [], by simp, List.sublist_append_right front [a], h⟩

theorem Tracks.note (h : Tracks hist notes last) (ha : hist.getLast? = some a) (hne : a ≠ last) :
    Tracks hist (notes ++ [a]) a := by
  obtain ⟨pre, post, rfl, hnotes, hlast⟩ := h
  have hpost : post ≠ [] := by
    rintro rfl
    rw [List.append_nil, hlast, Option.some.injEq] at ha
    exact hne ha.symm
  rw [List.getLast?_append_of_ne_nil _ hpost] at ha
  obtain ⟨front, rfl⟩ := List.getLast?_eq_some_iff.mp ha
  refine ⟨pre ++ (front ++ [a]), [], by simp, ?_, by simp⟩
  exact hnotes.append (List.sublist_append_right front [a])

end Samples

end Lib
