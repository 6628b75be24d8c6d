import Mathlib.Logic.Basic

/-! Code with a state that may stop early. What was done before the stop stays done. -/

namespace Lib

def Effect (ε σ α : Type) := σ → Except ε α × σ

namespace Effect

variable {ε σ α β : Type}

instance : Monad (Effect ε σ) where
  pure a s := (.ok a, s)
  bind x f s :=
    match x s with
    | (.ok a, t) => f a t
    | (.error e, t) => (.error e, t)

def exec (x : Effect ε σ α) (s : σ) : Except ε α × σ := x s

def stop (e : ε) : Effect ε σ α := fun s => (.error e, s)

def ofExcept (r : Except ε α) : Effect ε σ α := fun s => (r, s)

def read (f : σ → α) : Effect ε σ α := fun s => (.ok (f s), s)

def modify (f : σ → σ) : Effect ε σ Unit := fun s => (.ok (), f s)

/-- `try`/`except`, for the stops that `p` selects. -/
def rescue (p : ε → Bool) (x : Effect ε σ α) (handler : ε → Effect ε σ α) : Effect ε σ α := fun s =>
  match x s with
  | (.ok a, t) => (.ok a, t)
  | (.error e, t) => if p e then handler e t else (.error e, t)

/-- `try`/`finally`; a stop outside `p` leaves no time for it. -/
def ensure (p : ε → Bool) (x : Effect ε σ α) (final : Effect ε σ Unit) : Effect ε σ α := fun s =>
  match x s with
  | (.ok a, t) => (final >>= fun _ => pure a) t
  | (.error e, t) => if p e then (final >>= fun _ => stop e) t else (.error e, t)

def attempt (p : ε → Bool) (x : Effect ε σ Unit) : Effect ε σ (Option ε) :=
  rescue p (x >>= fun _ => pure none) fun e => pure (some e)

section Exec

variable {x : Effect ε σ α} {f : α → Effect ε σ β} {k : ε → Effect ε σ α} {p : ε → Bool}
  {final : Effect ε σ Unit} {s t : σ} {a : α} {e : ε}

@[simp] theorem exec_pure : (pure a : Effect ε σ α).exec s = (.ok a, s) := rfl

@[simp] theorem exec_stop : (stop e : Effect ε σ α).exec s = (.error e, s) := rfl

@[simp] theorem exec_read {f : σ → α} : (read f : Effect ε σ α).exec s = (.ok (f s), s) := rfl

@[simp] theorem exec_modify {f : σ → σ} : (modify f : Effect ε σ Unit).exec s = (.ok (), f s) := rfl

@[simp] theorem exec_ofExcept {r : Except ε α} : (ofExcept r : Effect ε σ α).exec s = (r, s) := rfl

theorem exec_bind : (x >>= f).exec s =
    match x.exec s with
    | (.ok a, t) => (f a).exec t
    | (.error e, t) => (.error e, t) := rfl

theorem exec_bind_ok (h : x.exec s = (.ok a, t)) : (x >>= f).exec s = (f a).exec t := by
  rw [exec_bind, h]

theorem exec_bind_error (h : x.exec s = (.error e, t)) : (x >>= f).exec s = (.error e, t) := by
  rw [exec_bind, h]

theorem exec_rescue : (rescue p x k).exec s =
    match x.exec s with
    | (.ok a, t) => (.ok a, t)
    | (.error e, t) => if p e then (k e).exec t else (.error e, t) := rfl

theorem exec_rescue_ok (h : x.exec s = (.ok a, t)) : (rescue p x k).exec s = (.ok a, t) := by
  rw [exec_rescue, h]

theorem exec_rescue_error (h : x.exec s = (.error e, t)) (hp : p e = true) :
    (rescue p x k).exec s = (k e).exec t := by
  simp [exec_rescue, h, hp]

theorem exec_rescue_skip (h : x.exec s = (.error e, t)) (hp : p e = false) :
    (rescue p x k).exec s = (.error e, t) := by
  simp [exec_rescue, h, hp]

theorem exec_attempt_ok {x : Effect ε σ Unit} (h : x.exec s = (.ok (), t)) :
    (attempt p x).exec s = (.ok none, t) :=
  exec_rescue_ok (exec_bind_ok h)

theorem exec_attempt_error {x : Effect ε σ Unit} (h : x.exec s = (.error e, t)) (hp : p e = true) :
    (attempt p x).exec s = (.ok (some e), t) :=
  exec_rescue_error (exec_bind_error h) hp

theorem exec_attempt_skip {x : Effect ε σ Unit} (h : x.exec s = (.error e, t)) (hp : p e = false) :
    (attempt p x).exec s = (.error e, t) :=
  exec_rescue_skip (exec_bind_error h) hp

theorem exec_ensure : (ensure p x final).exec s =
    match x.exec s with
    | (.ok a, t) => (final >>= fun _ => pure a).exec t
    | (.error e, t) => if p e then (final >>= fun _ => stop e).exec t else (.error e, t) := rfl

end Exec

def Preserves {τ : Type} (f : σ → τ) (x : Effect ε σ α) : Prop := ∀ s, f (x.exec s).2 = f s

namespace Preserves

variable {τ : Type} {f : σ → τ} {x : Effect ε σ α} {p : ε → Bool}

theorem pure (a : α) : Preserves f (pure a : Effect ε σ α) := fun _ => rfl

theorem stop (e : ε) : Preserves f (stop e : Effect ε σ α) := fun _ => rfl

theorem ofExcept (r : Except ε α) : Preserves f (ofExcept r : Effect ε σ α) := fun _ => rfl

theorem read (g : σ → α) : Preserves f (read g : Effect ε σ α) := fun _ => rfl

theorem modify {g : σ → σ} (h : ∀ s, f (g s) = f s) : Preserves f (modify g : Effect ε σ Unit) := h

theorem bind {k : α → Effect ε σ β} (hx : Preserves f x) (hk : ∀ a, Preserves f (k a)) :
    Preserves f (x >>= k) := by
  intro s
  have hs := hx s
  rw [exec_bind]
  match he : x.exec s with
  | (.ok a, t) => exact (hk a t).trans (by simpa [he] using hs)
  | (.error e, t) => simpa [he] using hs

theorem rescue {k : ε → Effect ε σ α} (hx : Preserves f x) (hk : ∀ e, Preserves f (k e)) :
    Preserves f (rescue p x k) := by
  intro s
  have hs := hx s
  rw [exec_rescue]
  match he : x.exec s with
  | (.ok a, t) => simpa [he] using hs
  | (.error e, t) =>
    cases hp : p e with
    | true => exact (by simpa [hp] using hk e t : _ = f t).trans (by simpa [he] using hs)
    | false => simpa [he, hp] using hs

theorem attempt {x : Effect ε σ Unit} (hx : Preserves f x) : Preserves f (attempt p x) :=
  rescue (hx.bind fun _ => pure none) fun e => pure (some e)

theorem ensure {final : Effect ε σ Unit} (hfinal : Preserves f final) (s : σ) :
    f ((ensure p x final).exec s).2 = f (x.exec s).2 := by
  rw [exec_ensure]
  match x.exec s with
  | (.ok a, t) => exact hfinal.bind (fun _ => pure a) t
  | (.error e, t) =>
    cases hp : p e with
    | true => simpa [hp] using hfinal.bind (fun _ => stop (α := α) e) t
    | false => simp [hp]

end Preserves

def Appends {τ : Type} (f : σ → List τ) (P : τ → Prop) (x : Effect ε σ α) : Prop :=
  ∀ s, ∃ l, f (x.exec s).2 = f s ++ l ∧ ∀ a ∈ l, P a

namespace Appends

variable {τ : Type} {f : σ → List τ} {P : τ → Prop} {x : Effect ε σ α} {p : ε → Bool}

theorem imp {Q : τ → Prop} (h : Appends f P x) (hPQ : ∀ a, P a → Q a) : Appends f Q x := by
  intro s
  obtain ⟨l, hl, hP⟩ := h s
  exact ⟨l, hl, fun a ha => hPQ a (hP a ha)⟩

theorem of_preserves (h : Preserves f x) : Appends f P x := fun s => ⟨[], by simp [h s], by simp⟩

theorem trans {s t u : σ} (h : ∃ l, f t = f s ++ l ∧ ∀ a ∈ l, P a)
    (h' : ∃ l, f u = f t ++ l ∧ ∀ a ∈ l, P a) : ∃ l, f u = f s ++ l ∧ ∀ a ∈ l, P a := by
  obtain ⟨l, hl, hP⟩ := h
  obtain ⟨l', hl', hP'⟩ := h'
  refine ⟨l ++ l', by rw [hl', hl, List.append_assoc], fun a ha => ?_⟩
  exact (List.mem_append.mp ha).elim (hP a) (hP' a)

theorem bind {k : α → Effect ε σ β} (hx : Appends f P x) (hk : ∀ a, Appends f P (k a)) :
    Appends f P (x >>= k) := by
  intro s
  have hs := hx s
  rw [exec_bind]
  match he : x.exec s with
  | (.ok a, t) => exact trans (by simpa [he] using hs) (hk a t)
  | (.error e, t) => simpa [he] using hs

theorem exec_rescue {k : ε → Effect ε σ α} {s : σ} (hx : ∃ l, f (x.exec s).2 = f s ++ l ∧ ∀ a ∈ l, P a)
    (hk : ∀ e t, x.exec s = (.error e, t) → p e = true →
      ∃ l, f ((k e).exec t).2 = f t ++ l ∧ ∀ a ∈ l, P a) :
    ∃ l, f ((rescue p x k).exec s).2 = f s ++ l ∧ ∀ a ∈ l, P a := by
  rw [Effect.exec_rescue]
  match he : x.exec s with
  | (.ok a, t) => simpa [he] using hx
  | (.error e, t) =>
    cases hp : p e with
    | true => exact trans (t := t) (by simpa [he] using hx) (by simpa [hp] using hk e t he hp)
    | false => simpa [he, hp] using hx

theorem rescue {k : ε → Effect ε σ α} (hx : Appends f P x) (hk : ∀ e, Appends f P (k e)) :
    Appends f P (rescue p x k) :=
  fun s => exec_rescue (hx s) fun e t _ _ => hk e t

end Appends

end Effect

end Lib
