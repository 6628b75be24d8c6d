import Minimodal.Store.Record

namespace Minimodal

structure ResultEntry where
  resultBytes : Bytes
  errorMsg : String
  coldStartMs : Int
  executionMs : Int
  deriving DecidableEq, Repr

/-- The bounded cache of results: `order` lists the keys, most recently used first. -/
structure LruResults where
  cap : Nat
  items : Std.ExtTreeMap String ResultEntry
  order : List String

namespace LruResults

def new (capacity : Int) : LruResults :=
  { cap := (if capacity < 1 then 1 else capacity).toNat, items := ∅, order := [] }

def moveToFront (order : List String) (key : String) : List String := key :: order.erase key

def put (l : LruResults) (key : String) (value : ResultEntry) : LruResults :=
  if key ∈ l.items then
    { l with items := l.items.insert key value, order := moveToFront l.order key }
  else
    let order := key :: l.order
    let items := l.items.insert key value
    if order.length > l.cap then
      match order.getLast? with
      | some oldest => { l with items := items.erase oldest, order := order.dropLast }
      | none => { l with items, order }
    else { l with items, order }

def get (l : LruResults) (key : String) : LruResults × Option ResultEntry :=
  match l.items[key]? with
  | none => (l, none)
  | some value => ({ l with order := moveToFront l.order key }, some value)

def find (l : LruResults) (key : String) : Option ResultEntry := (l.get key).2

theorem find_eq (l : LruResults) (key : String) : l.find key = l.items[key]? := by
  unfold find get
  split <;> simp_all

@[simp] theorem find_new (capacity : Int) (key : String) : (new capacity).find key = none := by
  simp [find_eq, new]

@[simp] theorem find_get (l : LruResults) (key x : String) : (l.get key).1.find x = l.find x := by
  simp only [find_eq]
  unfold get
  split <;> rfl

theorem find_put {l : LruResults} {key x : String} {value v : ResultEntry}
    (h : (l.put key value).find x = some v) : x = key ∧ v = value ∨ x ≠ key ∧ l.find x = some v := by
  rw [find_eq] at h ⊢
  have hins : (l.items.insert key value)[x]? = some v →
      x = key ∧ v = value ∨ x ≠ key ∧ l.items[x]? = some v := by
    intro hx
    rw [Std.ExtTreeMap.getElem?_insert] at hx
    split at hx
    · rename_i he
      rw [Std.LawfulEqCmp.compare_eq_iff_eq] at he
      simp only [Option.some.injEq] at hx
      exact .inl ⟨he.symm, hx.symm⟩
    · rename_i he
      rw [Std.LawfulEqCmp.compare_eq_iff_eq] at he
      exact .inr ⟨Ne.symm he, hx⟩
  unfold put at h
  split at h
  · exact hins h
  · simp only at h
    split at h
    · split at h
      · rw [Std.ExtTreeMap.getElem?_erase] at h
        split at h
        · simp at h
        · exact hins h
      · exact hins h
    · exact hins h

end LruResults

end Minimodal
