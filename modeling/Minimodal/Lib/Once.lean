import Mathlib.Data.List.Basic
import Mathlib.Logic.Function.Basic
import Minimodal.Lib.Machine

universe u v

namespace Lib.Once

/-- A write-once cell shared by callers that may lose their answer: the first claim
fixes the value, every later one is told it. -/
structure State (ι : Type u) (β : Type v) where
  cell : Option β
  pending : ι → Option (β × Bool)

inductive Action (ι : Type u) (β : Type v)
  | claim (call : ι) (value : β)
  | reply (call : ι)
  | crash

inductive Event (ι : Type u) (β : Type v)
  | claimed (call : ι) (answer : β × Bool)
  | returned (call : ι) (answer : β × Bool)
  | crashed

variable {ι : Type u} {β : Type v}

def init : State ι β := ⟨none, fun _ => none⟩

def answer (cell : Option β) (value : β) : β × Bool :=
  match cell with
  | some held => (held, false)
  | none => (value, true)

def step [DecidableEq ι] (s : State ι β) : Action ι β → Option (State ι β × List (Event ι β))
  | .claim call value =>
    match s.pending call with
    | some _ => none
    | none =>
      let a := answer s.cell value
      some (⟨some a.1, Function.update s.pending call (some a)⟩, [.claimed call a])
  | .reply call =>
    match s.pending call with
    | none => none
    | some a => some ({ s with pending := Function.update s.pending call none },
        [.returned call a])
  | .crash => some ({ s with pending := fun _ => none }, [.crashed])

def machine [DecidableEq ι] : Machine (State ι β) (Action ι β) (Event ι β) := ⟨step⟩

def claimsNew : Event ι β → Bool
  | .claimed _ (_, true) => true
  | _ => false

def returnsNew : Event ι β → Bool
  | .returned _ (_, true) => true
  | _ => false

structure Spec (es : List (Event ι β)) (s : State ι β) : Prop where
  held : ∀ call b new, .claimed call (b, new) ∈ es → s.cell = some b
  pending : ∀ call a, s.pending call = some a → .claimed call a ∈ es
  returned : ∀ call a, .returned call a ∈ es → .claimed call a ∈ es
  news : es.countP claimsNew = if s.cell.isSome then 1 else 0
  once : es.countP returnsNew ≤ es.countP claimsNew
  waiting : ∀ call b, s.pending call = some (b, true) → es.countP returnsNew = 0 ∧
    ∀ call' b', s.pending call' = some (b', true) → call' = call
  kept : .crashed ∉ es → ∀ call a, .claimed call a ∈ es →
    .returned call a ∈ es ∨ s.pending call = some a

theorem Spec.of_init : Spec ([] : List (Event ι β)) init where
  held := by simp
  pending := by simp [init]
  returned := by simp
  news := by simp [init]
  once := by simp
  waiting := by simp [init]
  kept := by simp

theorem Spec.crash {es : List (Event ι β)} {s : State ι β} (h : Spec es s) :
    Spec (es ++ [Event.crashed]) { s with pending := fun _ => none } where
  held := by
    intro c b new hc
    exact h.held c b new (by simpa using hc)
  pending := by simp
  returned := by
    intro c a hc
    exact List.mem_append_left _ (h.returned c a (by simpa using hc))
  news := by simpa [claimsNew] using h.news
  once := by simpa [claimsNew, returnsNew] using h.once
  waiting := by simp
  kept := by simp

variable [DecidableEq ι]

theorem Spec.claim {es : List (Event ι β)} {s : State ι β} (h : Spec es s) {call : ι} (value : β)
    (hfree : s.pending call = none) :
    Spec (es ++ [Event.claimed call (answer s.cell value)])
      ⟨some (answer s.cell value).1,
        Function.update s.pending call (some (answer s.cell value))⟩ := by
  have hret : (es ++ [Event.claimed call (answer s.cell value)]).countP returnsNew =
      es.countP returnsNew := by
    simp [returnsNew]
  -- a second new claim is impossible: the first one filled the cell
  have hnew : (answer s.cell value).2 = true → es.countP claimsNew = 0 := by
    intro ha
    rw [h.news]
    cases hc : s.cell with
    | none => rfl
    | some held => simp [answer, hc] at ha
  have hnone : es.countP claimsNew = 0 → ∀ c b, s.pending c ≠ some (b, true) := by
    intro hz c b hc
    have := List.countP_eq_zero.mp hz _ (h.pending c _ hc)
    simp [claimsNew] at this
  have hcases : ∀ c x, Function.update s.pending call (some (answer s.cell value)) c = some x →
      c = call ∧ answer s.cell value = x ∨ s.pending c = some x := by
    intro c x hc
    by_cases hcc : c = call
    · subst hcc
      exact .inl ⟨rfl, by simpa using hc⟩
    · exact .inr (by rwa [Function.update_of_ne hcc] at hc)
  refine ⟨?_, ?_, ?_, ?_, ?_, ?_, ?_⟩
  · intro c b new hc
    rcases List.mem_append.mp hc with hc | hc
    · have := h.held c b new hc
      simp [answer, this]
    · simp only [List.mem_singleton, Event.claimed.injEq] at hc
      simp [← hc.2]
  · intro c a hc
    rcases hcases c a hc with ⟨rfl, rfl⟩ | hc
    · simp
    · exact List.mem_append_left _ (h.pending c a hc)
  · intro c a hc
    rcases List.mem_append.mp hc with hc | hc
    · exact List.mem_append_left _ (h.returned c a hc)
    · simp at hc
  · rw [List.countP_append, h.news]
    cases hc : s.cell <;> simp [answer, claimsNew]
  · rw [hret, List.countP_append]
    exact Nat.le_trans h.once (Nat.le_add_right _ _)
  · intro c b hc
    rw [hret]
    rcases hcases c _ hc with ⟨rfl, ha⟩ | hold
    · have hz := hnew (by rw [ha])
      refine ⟨Nat.le_zero.mp (hz ▸ h.once), ?_⟩
      intro c' b' hc'
      rcases hcases c' _ hc' with ⟨rfl, -⟩ | hc'
      · rfl
      · exact absurd hc' (hnone hz c' b')
    · obtain ⟨hz, huniq⟩ := h.waiting c b hold
      refine ⟨hz, ?_⟩
      intro c' b' hc'
      rcases hcases c' _ hc' with ⟨rfl, ha⟩ | hold'
      · exact absurd hold (hnone (hnew (by rw [ha])) c b)
      · exact huniq c' b' hold'
  · intro hcr c a hc
    have hcr' : Event.crashed ∉ es := fun hm => hcr (List.mem_append_left _ hm)
    rcases List.mem_append.mp hc with hc | hc
    · rcases h.kept hcr' c a hc with hr | hp
      · exact .inl (List.mem_append_left _ hr)
      · refine .inr ((Function.update_of_ne ?_ _ _).trans hp)
        rintro rfl
        simp [hfree] at hp
    · simp only [List.mem_singleton, Event.claimed.injEq] at hc
      obtain ⟨rfl, rfl⟩ := hc
      exact .inr (by simp)

theorem Spec.reply {es : List (Event ι β)} {s : State ι β} (h : Spec es s) {call : ι}
    {a : β × Bool} (hp : s.pending call = some a) :
    Spec (es ++ [Event.returned call a])
      { s with pending := Function.update s.pending call none } := by
  have hclaims : (es ++ [Event.returned call a]).countP claimsNew = es.countP claimsNew := by
    simp [claimsNew]
  have hother : ∀ c x, Function.update s.pending call none c = some x →
      c ≠ call ∧ s.pending c = some x := by
    intro c x hc
    by_cases hcc : c = call
    · subst hcc
      simp at hc
    · exact ⟨hcc, by rwa [Function.update_of_ne hcc] at hc⟩
  refine ⟨?_, ?_, ?_, ?_, ?_, ?_, ?_⟩
  · intro c b new hc
    rcases List.mem_append.mp hc with hc | hc
    · exact h.held c b new hc
    · simp at hc
  · intro c x hc
    exact List.mem_append_left _ (h.pending c x (hother c x hc).2)
  · intro c x hc
    rcases List.mem_append.mp hc with hc | hc
    · exact List.mem_append_left _ (h.returned c x hc)
    · simp only [List.mem_singleton, Event.returned.injEq] at hc
      obtain ⟨rfl, rfl⟩ := hc
      exact List.mem_append_left _ (h.pending c x hp)
  · rw [hclaims]
    exact h.news
  · rw [hclaims, List.countP_append]
    obtain ⟨b, new⟩ := a
    cases new with
    | false => simpa [returnsNew] using h.once
    | true =>
      have hpos : 0 < es.countP claimsNew :=
        List.countP_pos_iff.mpr ⟨_, h.pending call _ hp, rfl⟩
      rw [(h.waiting call b hp).1]
      simpa [returnsNew] using hpos
  · intro c b hc
    obtain ⟨hne, hc⟩ := hother c _ hc
    obtain ⟨hz, huniq⟩ := h.waiting c b hc
    refine ⟨?_, ?_⟩
    · rw [List.countP_append, hz]
      obtain ⟨b', new⟩ := a
      cases new with
      | false => rfl
      | true => exact absurd (huniq call b' hp).symm hne
    · intro c' b' hc'
      exact huniq c' b' (hother c' _ hc').2
  · intro hcr c x hc
    have hcr' : Event.crashed ∉ es := fun hm => hcr (List.mem_append_left _ hm)
    rcases List.mem_append.mp hc with hc | hc
    · rcases h.kept hcr' c x hc with hr | hpc
      · exact .inl (List.mem_append_left _ hr)
      · by_cases hcc : c = call
        · subst hcc
          rw [hp, Option.some.injEq] at hpc
          exact .inl (by simp [hpc])
        · exact .inr ((Function.update_of_ne hcc _ _).trans hpc)
    · simp at hc

theorem Spec.step {es e : List (Event ι β)} {s t : State ι β} {a : Action ι β} (h : Spec es s)
    (hst : step s a = some (t, e)) : Spec (es ++ e) t := by
  cases a with
  | claim call value =>
    simp only [Once.step] at hst
    split at hst
    · simp at hst
    · rename_i hfree
      simp only [Option.some.injEq, Prod.mk.injEq] at hst
      obtain ⟨rfl, rfl⟩ := hst
      exact h.claim value hfree
  | reply call =>
    simp only [Once.step] at hst
    split at hst
    · simp at hst
    · rename_i a hp
      simp only [Option.some.injEq, Prod.mk.injEq] at hst
      obtain ⟨rfl, rfl⟩ := hst
      exact h.reply hp
  | crash =>
    simp only [Once.step, Option.some.injEq, Prod.mk.injEq] at hst
    obtain ⟨rfl, rfl⟩ := hst
    exact h.crash

theorem spec_of_run {ok : State ι β → Action ι β → Prop} {as : List (Action ι β)}
    {es : List (Event ι β)} {s : State ι β} (h : machine.Run ok init as es s) : Spec es s :=
  h.invariant_trace Spec.of_init fun _ _ _ _ _ hs _ hst => hs.step hst

end Lib.Once
