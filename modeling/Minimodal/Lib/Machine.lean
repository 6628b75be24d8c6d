import Mathlib.Logic.Basic

universe u v w

namespace Lib

/-- A labelled transition system given by an executable step function. The
action resolves every choice the environment makes; `none` means that the
action is not enabled. -/
structure Machine (σ : Type u) (α : Type v) (ε : Type w) where
  step : σ → α → Option (σ × List ε)

namespace Machine

variable {σ : Type u} {α : Type v} {ε : Type w} (M : Machine σ α ε)

/-- Runs whose steps all meet `ok`, with the actions taken and the events emitted. -/
inductive Run (ok : σ → α → Prop) (s : σ) : List α → List ε → σ → Prop
  | refl : Run ok s [] [] s
  | tail {as es t a u e} : Run ok s as es t → ok t a → M.step t a = some (u, e) →
      Run ok s (as ++ [a]) (es ++ e) u

abbrev Always : σ → α → Prop := fun _ _ => True

variable {M} {ok ok' : σ → α → Prop} {s t u : σ} {as bs : List α} {es fs : List ε}

theorem Run.mono (himp : ∀ t a, ok t a → ok' t a) (h : M.Run ok s as es t) :
    M.Run ok' s as es t := by
  induction h with
  | refl => exact .refl
  | tail _ hok hstep ih => exact .tail ih (himp _ _ hok) hstep

theorem Run.trans (h : M.Run ok s as es t) (h' : M.Run ok t bs fs u) :
    M.Run ok s (as ++ bs) (es ++ fs) u := by
  induction h' with
  | refl => simpa using h
  | tail _ hok hstep ih =>
    rw [← List.append_assoc, ← List.append_assoc]
    exact .tail ih hok hstep

theorem Run.invariant {P : σ → Prop} (h : M.Run ok s as es t) (hs : P s)
    (hstep : ∀ t a u e, P t → ok t a → M.step t a = some (u, e) → P u) : P t := by
  induction h with
  | refl => exact hs
  | tail _ hok hst ih => exact hstep _ _ _ _ ih hok hst

theorem Run.invariant_trace {P : List ε → σ → Prop} (h : M.Run ok s as es t) (hs : P [] s)
    (hstep : ∀ es t a u e, P es t → ok t a → M.step t a = some (u, e) → P (es ++ e) u) :
    P es t := by
  induction h with
  | refl => exact hs
  | tail _ hok hst ih => exact hstep _ _ _ _ _ ih hok hst

theorem Run.invariant_history {P : List α → List ε → σ → Prop} (h : M.Run ok s as es t)
    (hs : P [] [] s) (hstep : ∀ as es t a u e, M.Run ok s as es t → P as es t → ok t a →
      M.step t a = some (u, e) → P (as ++ [a]) (es ++ e) u) : P as es t := by
  induction h with
  | refl => exact hs
  | tail h hok hst ih => exact hstep _ _ _ _ _ _ h ih hok hst

def Takes (M : Machine σ α ε) (R : σ → α → Prop) (s : σ) (as : List α) : Prop :=
  ∃ bs fs t a cs, M.Run Always s bs fs t ∧ R t a ∧ as = bs ++ a :: cs

theorem Run.takes {R : σ → α → Prop} {a : α} (h : M.Run ok s as es t) (ha : R t a) :
    M.Takes R s (as ++ [a]) :=
  ⟨as, es, t, a, [], h.mono fun _ _ _ => trivial, ha, rfl⟩

theorem Takes.append {R : σ → α → Prop} (h : M.Takes R s as) (bs : List α) :
    M.Takes R s (as ++ bs) := by
  obtain ⟨cs, fs, t, a, ds, hrun, ha, rfl⟩ := h
  exact ⟨cs, fs, t, a, ds ++ bs, hrun, ha, by simp⟩

theorem Run.mem (h : M.Run ok s as es t) : M.Run (fun u a => ok u a ∧ a ∈ as) s as es t := by
  induction h with
  | refl => exact .refl
  | tail _ hok hst ih =>
    refine .tail (ih.mono fun _ _ h => ⟨h.1, ?_⟩) ⟨hok, by simp⟩ hst
    exact List.mem_append_left _ h.2

theorem Run.single {a : α} {e : List ε} (hok : ok s a) (h : M.step s a = some (t, e)) :
    M.Run ok s [a] e t := by
  simpa using Run.tail .refl hok h

theorem Run.cons {a : α} {e : List ε} (hok : ok s a) (hst : M.step s a = some (t, e))
    (h : M.Run ok t as es u) : M.Run ok s (a :: as) (e ++ es) u :=
  (Run.single hok hst).trans h

/-- Forward simulation: if every step is matched by a run with the same events,
seen through `f`, then so is every run. -/
theorem Run.simulate {σ' : Type u} {α' : Type v} {ε' : Type w} {N : Machine σ' α' ε'}
    {R : σ → σ' → Prop} {f : ε → Option ε'}
    (hstep : ∀ t a u e t', R t t' → ok t a → M.step t a = some (u, e) →
      ∃ u' bs, N.Run Always t' bs (e.filterMap f) u' ∧ R u u')
    {s' : σ'} (hs : R s s') (h : M.Run ok s as es t) :
    ∃ t' bs, N.Run Always s' bs (es.filterMap f) t' ∧ R t t' := by
  induction h with
  | refl => exact ⟨s', [], .refl, hs⟩
  | tail _ hok hst ih =>
    obtain ⟨t', bs, hrun, ht⟩ := ih
    obtain ⟨u', cs, hrun', hu⟩ := hstep _ _ _ _ t' ht hok hst
    rw [List.filterMap_append]
    exact ⟨u', bs ++ cs, hrun.trans hrun', hu⟩

def exec (M : Machine σ α ε) (ok : σ → α → Bool) (s : σ) : List α → Option (σ × List ε)
  | [] => some (s, [])
  | a :: as =>
    if ok s a then
      match M.step s a with
      | none => none
      | some (t, e) => (M.exec ok t as).map fun (u, es) => (u, e ++ es)
    else none

theorem run_of_exec {ok : σ → α → Bool} (h : M.exec ok s as = some (t, es)) :
    M.Run (fun s a => ok s a = true) s as es t := by
  induction as generalizing s es with
  | nil =>
    simp only [exec, Option.some.injEq, Prod.mk.injEq] at h
    obtain ⟨rfl, rfl⟩ := h
    exact .refl
  | cons a as ih =>
    simp only [exec] at h
    split at h
    · rename_i hok
      split at h
      · simp at h
      · rename_i v e hst
        simp only [Option.map_eq_some_iff, Prod.mk.injEq, Prod.exists] at h
        obtain ⟨u, es', hrec, rfl, rfl⟩ := h
        exact .cons hok hst (ih hrec)
    · simp at h

theorem run_of_exec_get {ok : σ → α → Bool} (h : (M.exec ok s as).isSome = true) :
    M.Run (fun s a => ok s a = true) s as ((M.exec ok s as).get h).2 ((M.exec ok s as).get h).1 :=
  run_of_exec (Option.some_get h).symm

section Record

universe x

variable {η : Type x}

/-- The machine with a history variable, which nothing reads. -/
def record (M : Machine σ α ε) (f : η → σ → α → List ε → η) : Machine (σ × η) α ε where
  step y a := (M.step y.1 a).map fun (t, e) => ((t, f y.2 y.1 a e), e)

variable {f : η → σ → α → List ε → η} {y z : σ × η} {a : α} {e : List ε}

theorem record_step :
    (M.record f).step y a = some (z, e) ↔
      M.step y.1 a = some (z.1, e) ∧ z.2 = f y.2 y.1 a e := by
  obtain ⟨z, h⟩ := z
  simp only [record, Option.map_eq_some_iff, Prod.mk.injEq, Prod.exists]
  constructor
  · rintro ⟨t, e', hst, ⟨rfl, rfl⟩, rfl⟩
    exact ⟨hst, rfl⟩
  · rintro ⟨hst, rfl⟩
    exact ⟨z, e, hst, ⟨rfl, rfl⟩, rfl⟩

theorem Run.of_record (h : (M.record f).Run (fun y a => ok y.1 a) y as es z) :
    M.Run ok y.1 as es z.1 := by
  induction h with
  | refl => exact .refl
  | tail _ hok hst ih => exact .tail ih hok (record_step.mp hst).1

theorem Run.record (h : M.Run ok y.1 as es t) :
    ∃ x, (M.record f).Run (fun y a => ok y.1 a) y as es (t, x) := by
  induction h with
  | refl => exact ⟨y.2, .refl⟩
  | tail _ hok hst ih =>
    obtain ⟨x, hrun⟩ := ih
    exact ⟨_, .tail hrun hok (record_step.mpr ⟨hst, rfl⟩)⟩

end Record

end Machine

end Lib
