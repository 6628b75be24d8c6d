import Mathlib.Logic.Basic

universe u v w x y

namespace Lib

structure Stmt (Op : Type u) (Res : Op → Type v) (Pc : Type w) where
  op : Op
  next : Res op → Pc

namespace Thread

variable {Op : Type u} {Res : Op → Type v} {Pc : Type w} {μ : Type x} {χ : Type y} {ε : Type}

/-- A shared memory: what each operation does to it, which result it gives and which
events it emits, given the environment's choice. `none` means that it blocks. -/
abbrev Memory (Op : Type u) (Res : Op → Type v) (μ : Type x) (χ : Type y) (ε : Type) :=
  μ → χ → (op : Op) → Option (μ × Res op × List ε)

def step (perform : Memory Op Res μ χ ε) (code : Pc → Option (Stmt Op Res Pc)) (m : μ) (pc : Pc)
    (choice : χ) : Option (μ × Pc × List ε) :=
  match code pc with
  | none => none
  | some stmt => (perform m choice stmt.op).map fun (m, r, es) => (m, stmt.next r, es)

variable {perform : Memory Op Res μ χ ε} {code : Pc → Option (Stmt Op Res Pc)} {m m' : μ}
  {pc pc' : Pc} {choice : χ} {es : List ε}

theorem step_some (h : step perform code m pc choice = some (m', pc', es)) :
    ∃ stmt r, code pc = some stmt ∧ perform m choice stmt.op = some (m', r, es) ∧
      pc' = stmt.next r := by
  unfold step at h
  split at h
  · simp at h
  · rename_i stmt hcode
    simp only [Option.map_eq_some_iff, Prod.mk.injEq, Prod.exists] at h
    obtain ⟨_, r, _, hperform, rfl, rfl, rfl⟩ := h
    exact ⟨stmt, r, hcode, hperform, rfl⟩

end Thread

end Lib
