import Mathlib.Data.List.Basic

universe u

namespace Lib

/-- A bounded queue: what does not fit is lost and counted. -/
structure Mailbox (α : Type u) where
  queue : List α := []
  lost : Nat := 0

namespace Mailbox

variable {α : Type u}

def offer (cap : Nat) (x : α) (b : Mailbox α) : Mailbox α :=
  if b.queue.length < cap then { b with queue := b.queue ++ [x] }
  else { b with lost := b.lost + 1 }

/-- What was offered to a mailbox has been received, is still in it or is lost; nothing comes
out of order. -/
structure Ledger (offered received : List α) (b : Mailbox α) : Prop where
  order : (received ++ b.queue).Sublist offered
  count : (received ++ b.queue).length + b.lost = offered.length

namespace Ledger

variable {offered received : List α} {b : Mailbox α}

theorem empty : Ledger [] [] ({} : Mailbox α) := ⟨List.Sublist.refl _, rfl⟩

theorem offer (h : Ledger offered received b) (cap : Nat) (x : α) :
    Ledger (offered ++ [x]) received (b.offer cap x) := by
  unfold Mailbox.offer
  split
  · constructor
    · rw [← List.append_assoc]
      exact h.order.append (List.Sublist.refl [x])
    · have hcount := h.count
      simp only [List.length_append, List.length_singleton] at hcount ⊢
      omega
  · constructor
    · exact h.order.trans (List.sublist_append_left offered [x])
    · have hcount := h.count
      simp only [List.length_append, List.length_singleton] at hcount ⊢
      omega

theorem receive {x : α} {queue : List α} {lost : Nat}
    (h : Ledger offered received ⟨x :: queue, lost⟩) :
    Ledger offered (received ++ [x]) ⟨queue, lost⟩ := by
  have hmove : received ++ [x] ++ queue = received ++ x :: queue := by simp
  constructor
  · rw [hmove]
    exact h.order
  · rw [hmove]
    exact h.count

end Ledger

end Mailbox

end Lib
