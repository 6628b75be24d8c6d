import Mathlib.Data.List.DropRight

universe u

namespace Lib

/-- A buffer that is written over from the start when it is full. -/
structure Ring (α : Type u) where
  buf : List α
  head : Nat
  size : Nat

namespace Ring

variable {α : Type u} {r : Ring α} {xs : List α} {x y : α}

def push (r : Ring α) (x : α) : Ring α where
  buf := r.buf.set r.head x
  head := (r.head + 1) % r.buf.length
  size := if r.size < r.buf.length then r.size + 1 else r.size

/-- What the ring keeps of all that was pushed: everything, in its first places, or as much as it
has room for, the oldest of it at the head. -/
inductive Holds (r : Ring α) (xs : List α) : Prop
  | filling {y rest} : r.buf = xs ++ y :: rest → r.head = xs.length → r.size = xs.length → Holds r xs
  | full {front y rest} : r.buf = front ++ y :: rest → r.head = front.length →
      r.size = r.buf.length → y :: rest ++ front = xs.rtake r.buf.length → Holds r xs

theorem set_append_cons (front rest : List α) :
    (front ++ y :: rest).set front.length x = front ++ x :: rest := by
  simp

theorem rtake_of_length_le {n : Nat} (h : xs.length ≤ n) : xs.rtake n = xs := by
  rw [List.rtake, Nat.sub_eq_zero_of_le h, List.drop_zero]

theorem length_rtake (n : Nat) : (xs.rtake n).length = min xs.length n := by
  rw [List.rtake, List.length_drop]
  omega

theorem rtake_snoc {n : Nat} {rest : List α} (h : y :: rest = xs.rtake (n + 1))
    (hlen : rest.length = n) : (xs ++ [x]).rtake (n + 1) = rest ++ [x] := by
  have hle : n + 1 ≤ xs.length := by
    have hmin := congrArg List.length h
    rw [length_rtake, List.length_cons] at hmin
    omega
  have hrest : xs.rtake n = rest := by
    have htail : (xs.drop (xs.length - (n + 1))).tail = rest := by
      rw [← List.rtake, ← h, List.tail_cons]
    rw [List.tail_drop] at htail
    rw [List.rtake, ← htail]
    congr 1
    omega
  rw [List.rtake_concat_succ, hrest]

theorem Holds.of_push {front rest : List α} (hbuf : r.buf = front ++ x :: rest)
    (hhead : r.head = (front.length + 1) % r.buf.length) (hsize : r.size = r.buf.length)
    (hlast : rest ++ front ++ [x] = xs.rtake r.buf.length) : r.Holds xs := by
  cases rest with
  | nil =>
    have hzero : r.head = 0 := by
      rw [hhead, hbuf, List.length_append]
      exact Nat.mod_self _
    obtain ⟨z, zs, hzs⟩ : ∃ z zs, front ++ [x] = z :: zs :=
      List.exists_cons_of_ne_nil (by simp)
    have hwrapped : r.buf = [] ++ z :: zs := hbuf.trans hzs
    refine .full hwrapped hzero hsize ?_
    rw [List.append_nil, ← hzs, ← hlast, List.nil_append]
  | cons z zs =>
    have hlt : front.length + 1 < r.buf.length := by
      rw [hbuf]
      simp
    have hpassed : r.buf = (front ++ [x]) ++ z :: zs := by
      rw [hbuf, List.append_assoc, List.singleton_append]
    refine .full hpassed ?_ hsize ?_
    · rw [hhead, Nat.mod_eq_of_lt hlt, List.length_append, List.length_singleton]
    · rw [← List.append_assoc, hlast]

theorem Holds.push (h : r.Holds xs) (x : α) : (r.push x).Holds (xs ++ [x]) := by
  cases h with
  | @filling y rest hbuf hhead hsize =>
    have hbuf' : (r.push x).buf = xs ++ x :: rest := by
      rw [Ring.push, hbuf, hhead, set_append_cons]
    have hlen : r.buf.length = xs.length + 1 + rest.length := by
      rw [hbuf, List.length_append, List.length_cons]
      omega
    have hsize' : (r.push x).size = xs.length + 1 := by
      rw [Ring.push, hsize, if_pos (by omega)]
    cases rest with
    | nil =>
      refine .of_push hbuf' ?_ ?_ ?_
      · simp only [Ring.push, hhead, List.length_set]
      · rw [hsize', hbuf', List.length_append, List.length_singleton]
      · rw [hbuf', List.nil_append, rtake_of_length_le le_rfl]
    | cons z zs =>
      have hpassed : (r.push x).buf = (xs ++ [x]) ++ z :: zs := by
        rw [hbuf', List.append_assoc, List.singleton_append]
      refine .filling hpassed ?_ ?_
      · rw [List.length_append, List.length_singleton, Ring.push, hhead, hlen]
        exact Nat.mod_eq_of_lt (by simp)
      · rw [hsize', List.length_append, List.length_singleton]
  | @full front y rest hbuf hhead hsize hlast =>
    have hbuf' : (r.push x).buf = front ++ x :: rest := by
      rw [Ring.push, hbuf, hhead, set_append_cons]
    have hlen : (r.push x).buf.length = r.buf.length := List.length_set
    refine .of_push hbuf' ?_ ?_ ?_
    · rw [hlen, Ring.push, hhead]
    · rw [hlen, Ring.push, hsize, if_neg (Nat.lt_irrefl _)]
    · have hcount : r.buf.length = (rest ++ front).length + 1 := by
        rw [hbuf, List.length_append, List.length_append, List.length_cons]
        omega
      rw [hlen, hcount]
      rw [hcount, List.cons_append] at hlast
      exact (rtake_snoc hlast rfl).symm

theorem length_push (r : Ring α) (x : α) : (r.push x).buf.length = r.buf.length := List.length_set

theorem Holds.perm (h : r.Holds xs) : (r.buf.take r.size).Perm (xs.rtake r.buf.length) := by
  cases h with
  | filling hbuf hhead hsize =>
    have hle : xs.length ≤ r.buf.length := by
      rw [hbuf, List.length_append]
      omega
    rw [rtake_of_length_le hle, hsize, hbuf, List.take_left]
  | full hbuf hhead hsize hlast =>
    rw [hsize, List.take_length, ← hlast, hbuf]
    exact List.perm_append_comm

theorem Holds.size_eq (h : r.Holds xs) : r.size = min xs.length r.buf.length := by
  have hlen := h.perm.length_eq
  rw [length_rtake, List.length_take] at hlen
  have hsize : r.size ≤ r.buf.length := by
    cases h with
    | filling hbuf hhead hsize =>
      rw [hsize, hbuf, List.length_append]
      omega
    | full hbuf hhead hsize hlast => exact hsize.le
  omega

end Ring

end Lib
