import Mathlib

universe u v

namespace Lib

/-- An ordered key/value bucket whose keys all pass the admission test `ok`. -/
structure Bucket (κ : Type u) [Ord κ] [Std.TransOrd κ] (ok : κ → Bool) (ν : Type v) where
  map : Std.ExtTreeMap κ ν
  admitted : ∀ k, k ∈ map → ok k = true

namespace Bucket

variable {κ : Type u} [Ord κ] [Std.TransOrd κ] {ok : κ → Bool} {ν : Type v}

def empty : Bucket κ ok ν where
  map := ∅
  admitted := by simp

def get (b : Bucket κ ok ν) (k : κ) : Option ν := b.map[k]?

def forEach (b : Bucket κ ok ν) : List (κ × ν) := b.map.toList

@[simp] theorem get_empty (k : κ) : (empty : Bucket κ ok ν).get k = none := by
  simp [empty, get]

theorem admitted_of_get {b : Bucket κ ok ν} {k : κ} {v : ν} (h : b.get k = some v) :
    ok k = true := by
  apply b.admitted
  rw [Std.ExtTreeMap.mem_iff_isSome_getElem?]
  simp only [get] at h
  simp [h]

section Lawful

variable [Std.LawfulEqOrd κ]

def insert (b : Bucket κ ok ν) (k : κ) (v : ν) (h : ok k = true) : Bucket κ ok ν where
  map := b.map.insert k v
  admitted := by
    intro x hx
    rcases Std.ExtTreeMap.mem_insert.mp hx with hx | hx
    · rw [← Std.LawfulEqOrd.eq_of_compare hx]
      exact h
    · exact b.admitted x hx

def put (b : Bucket κ ok ν) (k : κ) (v : ν) : Option (Bucket κ ok ν) :=
  if h : ok k = true then some (b.insert k v h) else none

theorem get_insert [DecidableEq κ] (b : Bucket κ ok ν) (k x : κ) (v : ν) (h : ok k = true) :
    (b.insert k v h).get x = if k = x then some v else b.get x := by
  simp [get, insert, Std.ExtTreeMap.getElem?_insert]

@[simp] theorem get_insert_self [DecidableEq κ] (b : Bucket κ ok ν) (k : κ) (v : ν)
    (h : ok k = true) : (b.insert k v h).get k = some v := by
  simp [get_insert]

theorem get_insert_ne [DecidableEq κ] (b : Bucket κ ok ν) {k x : κ} (v : ν) (h : ok k = true)
    (hx : x ≠ k) : (b.insert k v h).get x = b.get x := by
  rw [get_insert, if_neg (Ne.symm hx)]

theorem ext_get {a b : Bucket κ ok ν} (h : ∀ k, a.get k = b.get k) : a = b := by
  cases a with
  | mk a ha =>
    cases b with
    | mk b hb =>
      have : a = b := Std.ExtTreeMap.ext_getElem? h
      subst this
      rfl

theorem mem_forEach {b : Bucket κ ok ν} {k : κ} {v : ν} :
    (k, v) ∈ b.forEach ↔ b.get k = some v :=
  Std.ExtTreeMap.mem_toList_iff_getElem?_eq_some

theorem forEach_pairwise (b : Bucket κ ok ν) :
    b.forEach.Pairwise (fun x y => x.1 ≠ y.1) := by
  refine b.map.distinct_keys_toList.imp ?_
  intro x y hxy he
  exact hxy (by simp [he])

def modify (b : Bucket κ ok ν) (k : κ) (f : ν → ν) : Bucket κ ok ν :=
  match h : b.get k with
  | none => b
  | some v => b.insert k (f v) (admitted_of_get h)

theorem get_modify [DecidableEq κ] (b : Bucket κ ok ν) (k x : κ) (f : ν → ν) :
    (b.modify k f).get x = if k = x then (b.get x).map f else b.get x := by
  unfold modify
  split
  · rename_i hnone
    split
    · rename_i he
      simp [← he, hnone]
    · rfl
  · rename_i v hv
    rw [get_insert]
    split
    · rename_i he
      simp [← he, hv]
    · rfl

end Lawful

end Bucket

end Lib
