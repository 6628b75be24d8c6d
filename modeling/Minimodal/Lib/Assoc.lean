import Mathlib.Data.List.Basic

universe u v

namespace Lib

variable {κ : Type u} [DecidableEq κ] {β : Type v} {c sub : κ} {v : β}

theorem lookup_cons_eq_ite (k : κ) (w : β) (l : List (κ × β)) :
    ((k, w) :: l).lookup c = if c = k then some w else l.lookup c := by
  by_cases hck : c = k
  · simp [hck]
  · have hne : (c == k) = false := by simpa using hck
    simp [List.lookup_cons, hck, hne]

theorem lookup_map_key (f : κ → β → β) (l : List (κ × β)) :
    (l.map fun x => (x.1, f x.1 x.2)).lookup c = (l.lookup c).map (f c) := by
  induction l with
  | nil => rfl
  | cons x l ih =>
    obtain ⟨k, w⟩ := x
    rw [List.map_cons, lookup_cons_eq_ite, lookup_cons_eq_ite, ih]
    split
    · rename_i hk
      rw [hk]
      rfl
    · rfl

theorem lookup_map (f : β → β) (l : List (κ × β)) :
    (l.map fun x => (x.1, f x.2)).lookup c = (l.lookup c).map f :=
  lookup_map_key (fun _ => f) l

theorem lookup_filter (hc : c ≠ sub) (l : List (κ × β)) :
    (l.filter fun x => x.1 != sub).lookup c = l.lookup c := by
  induction l with
  | nil => rfl
  | cons x l ih =>
    obtain ⟨k, w⟩ := x
    rw [List.filter_cons, lookup_cons_eq_ite]
    by_cases hk : k = sub
    · simp [hk, hc, ih]
    · simp [hk, lookup_cons_eq_ite, ih]

theorem lookup_filter_self (l : List (κ × β)) :
    (l.filter fun x => x.1 != sub).lookup sub = none := by
  induction l with
  | nil => rfl
  | cons x l ih =>
    obtain ⟨k, w⟩ := x
    rw [List.filter_cons]
    by_cases hk : k = sub
    · simp [hk, ih]
    · simp [hk, lookup_cons_eq_ite, ih, Ne.symm hk]

theorem lookup_set_ne (hc : c ≠ sub) (l : List (κ × β)) :
    (l.map fun x => if x.1 = sub then (sub, v) else x).lookup c = l.lookup c := by
  induction l with
  | nil => rfl
  | cons x l ih =>
    obtain ⟨k, w⟩ := x
    rw [List.map_cons, lookup_cons_eq_ite]
    by_cases hk : k = sub
    · simp [hk, hc, lookup_cons_eq_ite, ih]
    · simp [hk, lookup_cons_eq_ite, ih]

theorem lookup_set_self {w : β} {l : List (κ × β)} (h : l.lookup sub = some w) :
    (l.map fun x => if x.1 = sub then (sub, v) else x).lookup sub = some v := by
  induction l with
  | nil => simp at h
  | cons x l ih =>
    obtain ⟨k, w'⟩ := x
    rw [lookup_cons_eq_ite] at h
    rw [List.map_cons]
    by_cases hk : k = sub
    · simp [hk]
    · rw [if_neg (Ne.symm hk)] at h
      simp [hk, lookup_cons_eq_ite, Ne.symm hk, ih h]

end Lib
