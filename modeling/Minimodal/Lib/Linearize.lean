import Mathlib.Data.List.Sort
import Minimodal.Lib.Machine

universe u v w x

namespace Lib.Linearize

variable {σ : Type u} {α : Type v} {ι : Type w} {ρ : Type x} {τ : Type u}

/-- A sequential object: what each call does to it and what it answers. -/
abbrev Object (τ : Type u) (ι : Type w) (ρ : Type x) := ι → τ → τ × ρ

def Object.run (obj : Object τ ι ρ) (t : τ) : List ι → τ × List (ι × ρ)
  | [] => (t, [])
  | i :: is =>
    let (t', r) := obj i t
    let (t'', rs) := Object.run obj t' is
    (t'', (i, r) :: rs)

theorem Object.run_append (obj : Object τ ι ρ) (t : τ) (is js : List ι) :
    obj.run t (is ++ js) =
      ((obj.run (obj.run t is).1 js).1, (obj.run t is).2 ++ (obj.run (obj.run t is).1 js).2) := by
  induction is generalizing t with
  | nil => rfl
  | cons i is ih => simp only [List.cons_append, Object.run, ih]

/-- Concurrent calls as they are observed: the answer each has given so far, which
answers stand for a call without effect, and at which actions a call with a given
answer may be placed. -/
structure Observation (σ : Type u) (α : Type v) (ι : Type w) (ρ : Type x) where
  result : σ → ι → Option ρ
  void : ρ → Bool
  place : ι → ρ → α → Prop
  owner : ∀ {i j r r' a}, place i r a → place j r' a → i = j

variable (O : Observation σ α ι ρ) (obj : Object τ ι ρ)

def effective (s : σ) (lin : List (Nat × ι)) : List ι :=
  (lin.filter fun x => !((O.result s x.2).any O.void)).map Prod.snd

/-- The answered calls of a run, placed at positions of the run, answer as the
sequential object does when it takes them in that order from `t₀` to `t`. -/
structure Linearized (as : List α) (s : σ) (t₀ : τ) (lin : List (Nat × ι)) (t : τ) : Prop where
  sorted : lin.Pairwise (fun x y => x.1 < y.1)
  nodup : (lin.map Prod.snd).Nodup
  answered : ∀ i, i ∈ lin.map Prod.snd ↔ (O.result s i).isSome
  placed : ∀ x ∈ lin, ∃ a r, as[x.1]? = some a ∧ O.result s x.2 = some r ∧ O.place x.2 r a
  replay : (obj.run t₀ (effective O s lin)).1 = t
  answers : ∀ p ∈ (obj.run t₀ (effective O s lin)).2, O.result s p.1 = some p.2

variable {O obj} {as : List α} {s s' : σ} {t₀ t t' : τ} {lin : List (Nat × ι)}

theorem Linearized.nil (h : ∀ i, O.result s i = none) : Linearized O obj [] s t₀ [] t₀ where
  sorted := List.Pairwise.nil
  nodup := List.nodup_nil
  answered := by simp [h]
  placed := by simp
  replay := rfl
  answers := by simp [effective, Object.run]

theorem Linearized.pos_lt (h : Linearized O obj as s t₀ lin t) {x : Nat × ι} (hx : x ∈ lin) :
    x.1 < as.length := by
  obtain ⟨a, r, ha, -, -⟩ := h.placed x hx
  exact (List.getElem?_eq_some_iff.mp ha).1

theorem effective_congr (h : ∀ x ∈ lin, O.result s' x.2 = O.result s x.2) :
    effective O s' lin = effective O s lin := by
  simp only [effective]
  congr 1
  apply List.filter_congr
  intro x hx
  rw [h x hx]

theorem pairwise_insert {p : Nat} {i : ι} (hs : lin.Pairwise (fun x y => x.1 < y.1))
    (hne : ∀ x ∈ lin, x.1 ≠ p) :
    (lin.orderedInsert (fun x y => x.1 ≤ y.1) (p, i)).Pairwise (fun x y => x.1 < y.1) := by
  induction lin with
  | nil => simp
  | cons x lin ih =>
    obtain ⟨hx, hs⟩ := List.pairwise_cons.mp hs
    have hxp : x.1 ≠ p := hne x (by simp)
    rw [List.orderedInsert_cons]
    split
    · rename_i hle
      simp only at hle
      refine List.pairwise_cons.mpr ⟨?_, List.pairwise_cons.mpr ⟨hx, hs⟩⟩
      intro y hy
      rcases List.mem_cons.mp hy with rfl | hy
      · simp only
        omega
      · have := hx y hy
        simp only
        omega
    · rename_i hnle
      simp only at hnle
      refine List.pairwise_cons.mpr ⟨?_, ih hs (fun y hy => hne y (List.mem_cons_of_mem _ hy))⟩
      intro y hy
      rcases List.mem_cons.mp ((List.perm_orderedInsert _ _ _).mem_iff.mp hy) with rfl | hy
      · simp only
        omega
      · exact hx y hy

theorem filter_insert {q : Nat × ι → Bool} {y : Nat × ι} (hq : q y = false) :
    (lin.orderedInsert (fun x y => x.1 ≤ y.1) y).filter q = lin.filter q := by
  induction lin with
  | nil => simp [hq]
  | cons x lin ih =>
    rw [List.orderedInsert_cons]
    split
    · simp [List.filter_cons, hq]
    · simp [List.filter_cons, ih]

theorem Linearized.silent (h : Linearized O obj as s t₀ lin t) (a : α)
    (hsame : ∀ i, O.result s' i = O.result s i) : Linearized O obj (as ++ [a]) s' t₀ lin t where
  sorted := h.sorted
  nodup := h.nodup
  answered := by
    intro i
    rw [hsame, h.answered]
  placed := by
    intro x hx
    obtain ⟨b, r, hb, hr, hp⟩ := h.placed x hx
    refine ⟨b, r, ?_, by rw [hsame, hr], hp⟩
    rw [List.getElem?_append_left (h.pos_lt hx)]
    exact hb
  replay := by
    rw [effective_congr fun x _ => hsame x.2]
    exact h.replay
  answers := by
    rw [effective_congr fun x _ => hsame x.2]
    intro p hp
    rw [hsame]
    exact h.answers p hp

section Answer

variable {i : ι} {r : ρ} {a : α} (h : Linearized O obj as s t₀ lin t)
  (hnew : O.result s i = none) (hres : O.result s' i = some r)
  (hother : ∀ j, j ≠ i → O.result s' j = O.result s j)
include h hnew hres hother

theorem Linearized.not_mem : ∀ x ∈ lin, x.2 ≠ i := by
  rintro x hx rfl
  have := (h.answered x.2).mp (List.mem_map_of_mem hx)
  simp [hnew] at this

theorem Linearized.effective_old : effective O s' lin = effective O s lin :=
  effective_congr fun x hx => hother x.2 (h.not_mem hnew hres hother x hx)

theorem Linearized.answered_new {lin' : List (Nat × ι)} (hperm : lin'.Perm ((n, i) :: lin))
    (j : ι) : j ∈ lin'.map Prod.snd ↔ (O.result s' j).isSome := by
  rw [(hperm.map Prod.snd).mem_iff]
  by_cases hj : j = i
  · subst hj
    simp [hres]
  · rw [hother j hj, ← h.answered j]
    simp [hj]

theorem Linearized.nodup_new {lin' : List (Nat × ι)} (hperm : lin'.Perm ((n, i) :: lin)) :
    (lin'.map Prod.snd).Nodup := by
  rw [(hperm.map Prod.snd).nodup_iff, List.map_cons, List.nodup_cons]
  refine ⟨?_, h.nodup⟩
  intro hm
  obtain ⟨x, hx, he⟩ := List.mem_map.mp hm
  exact h.not_mem hnew hres hother x hx he

theorem Linearized.placed_new {lin' : List (Nat × ι)} {b : α}
    (hperm : lin'.Perm ((n, i) :: lin)) (hb : (as ++ [a])[n]? = some b) (hplace : O.place i r b) :
    ∀ x ∈ lin', ∃ a' r', (as ++ [a])[x.1]? = some a' ∧ O.result s' x.2 = some r' ∧
      O.place x.2 r' a' := by
  intro x hx
  rcases List.mem_cons.mp (hperm.mem_iff.mp hx) with rfl | hx
  · exact ⟨b, r, hb, hres, hplace⟩
  · obtain ⟨c, r', hc, hr', hp⟩ := h.placed x hx
    refine ⟨c, r', ?_, ?_, hp⟩
    · rw [List.getElem?_append_left (h.pos_lt hx)]
      exact hc
    · rw [hother x.2 (h.not_mem hnew hres hother x hx), hr']

theorem Linearized.commit (hobj : obj i t = (t', r)) (hvoid : O.void r = false)
    (hplace : O.place i r a) :
    Linearized O obj (as ++ [a]) s' t₀ (lin ++ [(as.length, i)]) t' := by
  have hperm : (lin ++ [(as.length, i)]).Perm ((as.length, i) :: lin) :=
    List.perm_append_singleton _ _
  have heff : effective O s' (lin ++ [(as.length, i)]) = effective O s lin ++ [i] := by
    rw [← h.effective_old hnew hres hother]
    simp [effective, hres, hvoid]
  refine ⟨?_, h.nodup_new hnew hres hother hperm, h.answered_new hnew hres hother hperm,
    h.placed_new hnew hres hother hperm (by simp) hplace, ?_, ?_⟩
  · rw [List.pairwise_append]
    refine ⟨h.sorted, List.pairwise_singleton _ _, ?_⟩
    intro x hx y hy
    rw [List.mem_singleton] at hy
    subst hy
    exact h.pos_lt hx
  · rw [heff, Object.run_append, h.replay]
    simp [Object.run, hobj]
  · rw [heff, Object.run_append, h.replay]
    intro p hp
    rcases List.mem_append.mp hp with hp | hp
    · have hold := h.answers p hp
      rw [hother p.1]
      · exact hold
      · rintro rfl
        simp [hnew] at hold
    · simp only [Object.run, hobj, List.mem_singleton] at hp
      subst hp
      exact hres

/-- A step at which one call is given up. It had no effect, so it may stand at any
earlier action of its own. -/
theorem Linearized.abandon {p : Nat} {b : α} (hb : as[p]? = some b) (hvoid : O.void r = true)
    (hplace : O.place i r b) :
    Linearized O obj (as ++ [a]) s' t₀
      (lin.orderedInsert (fun x y => x.1 ≤ y.1) (p, i)) t := by
  have hperm : (lin.orderedInsert (fun x y => x.1 ≤ y.1) (p, i)).Perm ((p, i) :: lin) :=
    List.perm_orderedInsert _ _ _
  have hp : p < as.length := (List.getElem?_eq_some_iff.mp hb).1
  have heff : effective O s' (lin.orderedInsert (fun x y => x.1 ≤ y.1) (p, i)) =
      effective O s lin := by
    rw [← h.effective_old hnew hres hother]
    simp only [effective]
    rw [filter_insert]
    simp [hres, hvoid]
  refine ⟨pairwise_insert h.sorted ?_, h.nodup_new hnew hres hother hperm,
    h.answered_new hnew hres hother hperm,
    h.placed_new hnew hres hother hperm (by rw [List.getElem?_append_left hp, hb]) hplace, ?_, ?_⟩
  · rintro x hx rfl
    obtain ⟨c, r', hc, -, hpc⟩ := h.placed x hx
    rw [hb, Option.some.injEq] at hc
    subst hc
    exact h.not_mem hnew hres hother x hx (O.owner hpc hplace)
  · rw [heff]
    exact h.replay
  · rw [heff]
    intro q hq
    have hold := h.answers q hq
    rw [hother q.1]
    · exact hold
    · rintro rfl
      simp [hnew] at hold

end Answer

end Lib.Linearize
