import Minimodal.Lib.Machine
import Minimodal.Lib.Recency
import Minimodal.Server.Results

namespace Minimodal

namespace LruResults

structure Consistent (r : LruResults) : Prop where
  nodup : r.order.Nodup
  mem : ∀ k, k ∈ r.items ↔ k ∈ r.order

def pushFront (r : LruResults) (key : String) (value : ResultEntry) : LruResults :=
  { r with items := r.items.insert key value, order := key :: r.order }

def evict (r : LruResults) : LruResults :=
  if r.order.length > r.cap then
    match r.order.getLast? with
    | some oldest => { r with items := r.items.erase oldest, order := r.order.dropLast }
    | none => r
  else r

variable {r : LruResults} {key k : String} {value : ResultEntry}

theorem put_of_mem (h : key ∈ r.items) :
    r.put key value = { r with items := r.items.insert key value, order := Lib.touch key r.order } :=
  if_pos h

theorem put_of_notMem (h : key ∉ r.items) : r.put key value = (r.pushFront key value).evict :=
  if_neg h

theorem getElem?_insert {β : Type} {x : β} (items : Std.ExtTreeMap String β) :
    (items.insert key x)[k]? = if key = k then some x else items[k]? := by
  simp only [Std.ExtTreeMap.getElem?_insert, Std.LawfulEqCmp.compare_eq_iff_eq]

theorem Consistent.getElem?_eq_none (h : r.Consistent) (hk : k ∉ r.order) : r.items[k]? = none :=
  Std.ExtTreeMap.getElem?_eq_none fun hmem => hk ((h.mem k).mp hmem)

theorem Consistent.pushFront (h : r.Consistent) (hkey : key ∉ r.items) :
    (r.pushFront key value).Consistent where
  nodup := List.nodup_cons.mpr ⟨fun hmem => hkey ((h.mem key).mpr hmem), h.nodup⟩
  mem k := by
    simp only [LruResults.pushFront, Std.ExtTreeMap.mem_insert, Std.LawfulEqCmp.compare_eq_iff_eq,
      h.mem, List.mem_cons, eq_comm (a := k)]

theorem evict_order (hlen : r.order.length ≤ r.cap + 1) : r.evict.order = r.order.take r.cap := by
  unfold evict
  split
  · rename_i hlong
    split
    · have hcap : r.order.length - 1 = r.cap := by omega
      rw [List.dropLast_eq_take, hcap]
    · rename_i hnone
      simp [List.getLast?_eq_none_iff.mp hnone]
  · rename_i hshort
    exact (List.take_of_length_le (by omega)).symm

theorem evict_cap : r.evict.cap = r.cap := by
  unfold evict
  split
  · split <;> rfl
  · rfl

theorem put_cap : (r.put key value).cap = r.cap := by
  by_cases hkey : key ∈ r.items
  · rw [put_of_mem hkey]
  · rw [put_of_notMem hkey, evict_cap]
    rfl

theorem Consistent.evict_items (h : r.Consistent) :
    r.evict.items[k]? = if k ∈ r.evict.order then r.items[k]? else none := by
  have hmiss : k ∉ r.order → r.items[k]? = none := h.getElem?_eq_none
  unfold evict
  split
  · split
    · rename_i oldest hlast
      obtain ⟨front, heq⟩ := List.getLast?_eq_some_iff.mp hlast
      have hnodup := h.nodup
      rw [heq] at hnodup hmiss
      have hdrop : r.order.dropLast = front := by rw [heq, List.dropLast_concat]
      have hold : oldest ∉ front := fun hmem =>
        (List.nodup_append.mp hnodup).2.2 oldest hmem oldest (by simp) rfl
      simp only [hdrop, Std.ExtTreeMap.getElem?_erase, Std.LawfulEqCmp.compare_eq_iff_eq]
      by_cases hk : oldest = k
      · subst hk
        simp [hold]
      · by_cases hfront : k ∈ front
        · simp [hk, hfront]
        · rw [if_neg hk, if_neg hfront]
          exact hmiss (by simp [hfront, Ne.symm hk])
    · by_cases hk : k ∈ r.order
      · rw [if_pos hk]
      · rw [if_neg hk, hmiss hk]
  · by_cases hk : k ∈ r.order
    · rw [if_pos hk]
    · rw [if_neg hk, hmiss hk]

/-- The cache holds the most recent of the keys used, each with the value put last. -/
structure Recalls (r : LruResults) (uses : List String) (last : String → Option ResultEntry) : Prop where
  pos : 0 < r.cap
  order : r.order = (Lib.recent uses).take r.cap
  items : ∀ k, r.items[k]? = if k ∈ r.order then last k else none
  known : ∀ k ∈ uses, (last k).isSome = true

variable {uses : List String} {last : String → Option ResultEntry}

theorem Recalls.new (capacity : Int) : (new capacity).Recalls [] fun _ => none where
  pos := by
    simp only [LruResults.new]
    split <;> omega
  order := by simp [LruResults.new]
  items k := by simp [LruResults.new]
  known k hk := by simp at hk

theorem Recalls.isSome (h : r.Recalls uses last) (hk : k ∈ r.order) : (last k).isSome = true := by
  rw [h.order] at hk
  exact h.known k (Lib.mem_recent.mp (List.mem_of_mem_take hk))

theorem Recalls.consistent (h : r.Recalls uses last) : r.Consistent where
  nodup := by
    rw [h.order]
    exact Lib.nodup_recent.sublist (List.take_sublist _ _)
  mem k := by
    rw [Std.ExtTreeMap.mem_iff_isSome_getElem?, h.items k]
    by_cases hk : k ∈ r.order
    · simp [hk, h.isSome hk]
    · simp [hk]

theorem Recalls.length_le (h : r.Recalls uses last) : r.order.length ≤ r.cap := by
  rw [h.order]
  exact List.length_take_le _ _

theorem Recalls.touch (h : r.Recalls uses last) (hk : k ∈ r.order) :
    Lib.touch k r.order = (Lib.recent (uses ++ [k])).take r.cap := by
  have hlen : (Lib.touch k r.order).length ≤ r.cap := by
    rw [Lib.length_touch_of_mem hk]
    exact h.length_le
  rw [Lib.recent_snoc, ← Lib.take_touch_take, ← h.order, List.take_of_length_le hlen]

theorem Recalls.isSome_update (h : r.Recalls uses last) :
    ∀ k ∈ uses ++ [key], (Function.update last key (some value) k).isSome = true := by
  intro k hk
  rw [Function.update_apply]
  split
  · rfl
  · rename_i hne
    exact h.known k (by simpa [hne] using hk)

theorem Recalls.put_mem (h : r.Recalls uses last) (hkey : key ∈ r.items) :
    (r.put key value).Recalls (uses ++ [key]) (Function.update last key (some value)) := by
  have hmem : key ∈ r.order := (h.consistent.mem key).mp hkey
  rw [put_of_mem hkey]
  refine ⟨h.pos, h.touch hmem, fun k => ?_, h.isSome_update⟩
  simp only [getElem?_insert, Lib.mem_touch, Function.update_apply]
  by_cases hk : k = key
  · subst hk
    simp
  · simp [hk, Ne.symm hk, h.items k]

theorem Recalls.put_notMem (h : r.Recalls uses last) (hkey : key ∉ r.items) :
    (r.put key value).Recalls (uses ++ [key]) (Function.update last key (some value)) := by
  have hcons : (r.pushFront key value).Consistent := h.consistent.pushFront hkey
  have hmem : key ∉ r.order := fun hmem => hkey ((h.consistent.mem key).mpr hmem)
  have hlen : (r.pushFront key value).order.length ≤ (r.pushFront key value).cap + 1 :=
    Nat.succ_le_succ h.length_le
  have htouch : (r.pushFront key value).order = Lib.touch key r.order := by
    rw [Lib.touch, List.erase_of_not_mem hmem, LruResults.pushFront]
  rw [put_of_notMem hkey]
  refine ⟨?_, ?_, fun k => ?_, h.isSome_update⟩
  · rw [evict_cap]
    exact h.pos
  · rw [evict_order hlen, evict_cap, htouch, h.order, Lib.recent_snoc]
    exact Lib.take_touch_take
  · rw [hcons.evict_items]
    by_cases hk : k ∈ (r.pushFront key value).evict.order
    · rw [if_pos hk, if_pos hk, Function.update_apply, LruResults.pushFront, getElem?_insert]
      rw [evict_order hlen] at hk
      have hk' := List.mem_of_mem_take hk
      by_cases hne : k = key
      · simp [hne]
      · have hold : k ∈ r.order := by simpa [LruResults.pushFront, hne] using hk'
        simp [hne, Ne.symm hne, h.items k, hold]
    · rw [if_neg hk, if_neg hk]

theorem Recalls.put (h : r.Recalls uses last) (key : String) (value : ResultEntry) :
    (r.put key value).Recalls (uses ++ [key]) (Function.update last key (some value)) := by
  by_cases hkey : key ∈ r.items
  · exact h.put_mem hkey
  · exact h.put_notMem hkey

theorem Recalls.get_hit (h : r.Recalls uses last) (hk : k ∈ r.order) :
    r.get k = ({ r with order := Lib.touch k r.order }, last k) ∧
      (r.get k).1.Recalls (uses ++ [k]) last := by
  obtain ⟨value, hvalue⟩ := Option.isSome_iff_exists.mp (h.isSome hk)
  have hget : r.get k = ({ r with order := Lib.touch k r.order }, last k) := by
    have hitem : r.items[k]? = some value := by rw [h.items k, if_pos hk, hvalue]
    simp only [LruResults.get, hitem, hvalue]
    rfl
  refine ⟨hget, ?_⟩
  rw [hget]
  refine ⟨h.pos, h.touch hk, fun j => ?_, fun j hj => ?_⟩
  · simp only [Lib.mem_touch, h.items j]
    by_cases hj : j = k
    · simp [hj, hk]
    · simp [hj]
  · obtain hj | rfl : j ∈ uses ∨ j = k := by simpa using hj
    · exact h.known j hj
    · exact h.isSome hk

theorem Recalls.get_miss (h : r.Recalls uses last) (hk : k ∉ r.order) : r.get k = (r, none) := by
  simp only [LruResults.get, h.items k, if_neg hk]

end LruResults

structure LruEntry where
  key : String
  value : ResultEntry
  deriving DecidableEq, Repr

/-- `lruResults` with its linked list: `elems` are all the list elements there have been, a
`*list.Element` is a place among them, and `order` is the list from its front. -/
structure LruList where
  cap : Nat
  elems : List LruEntry := []
  items : Std.ExtTreeMap String Nat := ∅
  order : List Nat := []

namespace LruList

def new (capacity : Int) : LruList := { cap := (if capacity < 1 then 1 else capacity).toNat }

/-- `MoveToFront` leaves the list alone if the element is not in it. -/
def moveToFront (order : List Nat) (el : Nat) : List Nat :=
  if el ∈ order then Lib.touch el order else order

def pushFront (l : LruList) (key : String) (value : ResultEntry) : LruList :=
  { l with
    elems := l.elems ++ [⟨key, value⟩]
    items := l.items.insert key l.elems.length
    order := l.elems.length :: l.order }

def evict (l : LruList) : LruList :=
  if l.order.length > l.cap then
    match l.order.getLast? with
    | some oldest =>
      match l.elems[oldest]? with
      | some entry => { l with order := l.order.erase oldest, items := l.items.erase entry.key }
      | none => { l with order := l.order.erase oldest }
    | none => l
  else l

def put (l : LruList) (key : String) (value : ResultEntry) : LruList :=
  match l.items[key]? with
  | some el =>
    { l with
      elems := l.elems.modify el fun entry => { entry with value }
      order := moveToFront l.order el }
  | none => (l.pushFront key value).evict

def get (l : LruList) (key : String) : LruList × Option ResultEntry :=
  match l.items[key]? with
  | none => (l, none)
  | some el => ({ l with order := moveToFront l.order el }, (l.elems[el]?).map LruEntry.value)

def keyAt (l : LruList) (el : Nat) : Option String := (l.elems[el]?).map LruEntry.key

def valueAt (l : LruList) (el : Nat) : Option ResultEntry := (l.elems[el]?).map LruEntry.value

def keys (l : LruList) : List String := l.order.filterMap l.keyAt

/-- The map leads to the list element of its key, and the element has the key's value. -/
structure Represents (l : LruList) (r : LruResults) : Prop where
  cap : r.cap = l.cap
  order : l.order.map l.keyAt = r.order.map some
  linked : ∀ (k : String) el, l.items[k]? = some el ↔ el ∈ l.order ∧ l.keyAt el = some k
  items : ∀ k : String, r.items[k]? = (l.items[k]?).bind l.valueAt

variable {l : LruList} {r : LruResults} {key k : String} {value : ResultEntry} {el : Nat}

theorem Represents.new (capacity : Int) : (new capacity).Represents (.new capacity) where
  cap := rfl
  order := rfl
  linked k el := by simp [LruList.new]
  items k := by simp [LruList.new, LruResults.new]

theorem Represents.keys (h : l.Represents r) : l.keys = r.order := by
  have hid : (l.order.map l.keyAt).filterMap id = r.order := by
    rw [h.order, List.filterMap_map]
    exact List.filterMap_some
  simpa [LruList.keys, List.filterMap_map] using hid

theorem Represents.length (h : l.Represents r) : l.order.length = r.order.length := by
  simpa using congrArg List.length h.order

theorem Represents.mem_items (h : l.Represents r) : k ∈ l.items ↔ k ∈ r.order := by
  rw [Std.ExtTreeMap.mem_iff_isSome_getElem?, Option.isSome_iff_exists]
  have hkey : (∃ el ∈ l.order, l.keyAt el = some k) ↔ k ∈ r.order := by
    rw [← List.mem_map, h.order, List.mem_map]
    simp
  simpa only [h.linked] using hkey

theorem Represents.nodup (h : l.Represents r) (hr : r.order.Nodup) : (l.order.map l.keyAt).Nodup := by
  rw [h.order]
  exact hr.map (Option.some_injective _)

theorem Represents.moveToFront (h : l.Represents r) (hr : r.order.Nodup)
    (hel : l.items[key]? = some el) :
    { l with order := moveToFront l.order el }.Represents
      { r with order := Lib.touch key r.order } := by
  obtain ⟨hmem, hkey⟩ := (h.linked key el).mp hel
  have hmem' : key ∈ r.order := by
    have hsome : some key ∈ r.order.map some := by
      rw [← h.order, ← hkey]
      exact List.mem_map_of_mem hmem
    simpa using hsome
  have htouch : LruList.moveToFront l.order el = Lib.touch el l.order := if_pos hmem
  rw [htouch]
  refine ⟨h.cap, ?_, fun k el' => ?_, h.items⟩
  · calc (Lib.touch el l.order).map l.keyAt
      _ = Lib.touch (some key) (l.order.map l.keyAt) := by
        rw [Lib.map_touch (h.nodup hr) hmem, hkey]
      _ = Lib.touch (some key) (r.order.map some) := by rw [h.order]
      _ = (Lib.touch key r.order).map some :=
        (Lib.map_touch (hr.map (Option.some_injective _)) hmem').symm
  · have hiff : el' ∈ Lib.touch el l.order ↔ el' ∈ l.order := by
      rw [Lib.mem_touch]
      exact or_iff_right_of_imp fun heq => heq ▸ hmem
    rw [hiff]
    exact h.linked k el'

def setValue (l : LruList) (el : Nat) (value : ResultEntry) : LruList :=
  { l with elems := l.elems.modify el fun entry => { entry with value } }

theorem keyAt_setValue (l : LruList) (el : Nat) (value : ResultEntry) :
    (l.setValue el value).keyAt = l.keyAt := by
  funext el'
  simp only [keyAt, setValue, List.getElem?_modify, Option.map_eq_map, Option.map_map]
  congr 1
  funext entry
  dsimp only [Function.comp]
  split <;> rfl

theorem valueAt_setValue (l : LruList) (el el' : Nat) (value : ResultEntry) :
    (l.setValue el value).valueAt el' =
      if el = el' then (l.valueAt el').map fun _ => value else l.valueAt el' := by
  simp only [valueAt, setValue, List.getElem?_modify, Option.map_eq_map, Option.map_map]
  split <;> rfl

theorem Represents.isSome_valueAt (h : l.Represents r) (hel : l.items[k]? = some el) :
    ∃ value, l.valueAt el = some value := by
  obtain ⟨-, hkey⟩ := (h.linked k el).mp hel
  obtain ⟨entry, hentry, -⟩ := Option.map_eq_some_iff.mp hkey
  exact ⟨entry.value, by simp [valueAt, hentry]⟩

theorem Represents.setValue (h : l.Represents r) (hel : l.items[key]? = some el) :
    (l.setValue el value).Represents { r with items := r.items.insert key value } := by
  refine ⟨h.cap, ?_, ?_, fun k => ?_⟩
  · rw [keyAt_setValue]
    exact h.order
  · rw [keyAt_setValue]
    exact h.linked
  · have hitems : (l.setValue el value).items = l.items := rfl
    rw [LruResults.getElem?_insert, hitems]
    by_cases hk : key = k
    · subst hk
      obtain ⟨old, hold⟩ := h.isSome_valueAt hel
      rw [hel, Option.bind_some, valueAt_setValue, if_pos rfl, if_pos rfl, hold, Option.map_some]
    · rw [if_neg hk, h.items k]
      cases hel' : l.items[k]? with
      | none => rfl
      | some el' =>
        -- an element has one key
        have hne : el ≠ el' := by
          rintro rfl
          have hkey := ((h.linked key el).mp hel).2
          rw [((h.linked k el).mp hel').2, Option.some.injEq] at hkey
          exact hk hkey.symm
        rw [Option.bind_some, Option.bind_some, valueAt_setValue, if_neg hne]

theorem keyAt_pushFront (l : LruList) (key : String) (value : ResultEntry) (el : Nat) :
    (l.pushFront key value).keyAt el = if el = l.elems.length then some key else l.keyAt el := by
  simp only [keyAt, pushFront, List.getElem?_append, List.getElem?_singleton]
  grind

theorem valueAt_pushFront (l : LruList) (key : String) (value : ResultEntry) (el : Nat) :
    (l.pushFront key value).valueAt el = if el = l.elems.length then some value else l.valueAt el := by
  simp only [valueAt, pushFront, List.getElem?_append, List.getElem?_singleton]
  grind

theorem Represents.ne_length (h : l.Represents r) (hel : el ∈ l.order) : el ≠ l.elems.length := by
  rintro rfl
  have hsome : l.keyAt l.elems.length ∈ r.order.map some := by
    rw [← h.order]
    exact List.mem_map_of_mem hel
  simp [keyAt] at hsome

theorem Represents.pushFront (h : l.Represents r) (hnone : l.items[key]? = none) :
    (l.pushFront key value).Represents (r.pushFront key value) := by
  have hother : ∀ el ∈ l.order, (l.pushFront key value).keyAt el = l.keyAt el := by
    intro el hel
    rw [keyAt_pushFront, if_neg (h.ne_length hel)]
  refine ⟨h.cap, ?_, fun k el => ?_, fun k => ?_⟩
  · have hhead : (l.pushFront key value).keyAt l.elems.length = some key := by
      rw [keyAt_pushFront, if_pos rfl]
    have htail : l.order.map (l.pushFront key value).keyAt = r.order.map some := by
      rw [List.map_congr_left hother, h.order]
    exact List.cons_eq_cons.mpr ⟨hhead, htail⟩
  · have hitems : (l.pushFront key value).items = l.items.insert key l.elems.length := rfl
    have horder : (l.pushFront key value).order = l.elems.length :: l.order := rfl
    rw [hitems, horder, LruResults.getElem?_insert, List.mem_cons, keyAt_pushFront]
    by_cases hk : key = k
    · subst hk
      rw [if_pos rfl]
      constructor
      · rintro ⟨⟩
        exact ⟨.inl rfl, if_pos rfl⟩
      · rintro ⟨rfl | hel, hkey⟩
        · rfl
        · rw [if_neg (h.ne_length hel)] at hkey
          rw [(h.linked key el).mpr ⟨hel, hkey⟩] at hnone
          cases hnone
    · rw [if_neg hk, h.linked]
      constructor
      · rintro ⟨hel, hkey⟩
        exact ⟨.inr hel, by rw [if_neg (h.ne_length hel), hkey]⟩
      · rintro ⟨rfl | hel, hkey⟩
        · rw [if_pos rfl, Option.some.injEq] at hkey
          exact absurd hkey hk
        · rw [if_neg (h.ne_length hel)] at hkey
          exact ⟨hel, hkey⟩
  · have hitems : (l.pushFront key value).items = l.items.insert key l.elems.length := rfl
    have hitems' : (r.pushFront key value).items = r.items.insert key value := rfl
    rw [hitems, hitems', LruResults.getElem?_insert, LruResults.getElem?_insert]
    by_cases hk : key = k
    · rw [if_pos hk, if_pos hk, Option.bind_some, valueAt_pushFront, if_pos rfl]
    · rw [if_neg hk, if_neg hk, h.items k]
      cases hel : l.items[k]? with
      | none => rfl
      | some el =>
        have hne := h.ne_length ((h.linked k el).mp hel).1
        rw [Option.bind_some, Option.bind_some, valueAt_pushFront, if_neg hne]

theorem Represents.concat (h : l.Represents r) {front : List Nat} (heq : l.order = front ++ [el]) :
    ∃ front' k, r.order = front' ++ [k] ∧ front.map l.keyAt = front'.map some ∧ l.keyAt el = some k := by
  have horder := h.order
  obtain hnil | ⟨front', k, hr⟩ := r.order.eq_nil_or_concat
  · simp [heq, hnil] at horder
  · rw [List.concat_eq_append] at hr
    rw [heq, hr, List.map_append, List.map_append] at horder
    obtain ⟨hfront, hlast⟩ := List.append_inj' horder rfl
    exact ⟨front', k, hr, hfront, by simpa using hlast⟩

theorem Represents.evict (h : l.Represents r) (hr : r.order.Nodup) : l.evict.Represents r.evict := by
  unfold LruList.evict LruResults.evict
  rw [← h.length, h.cap]
  split
  · obtain hnil | ⟨front, oldest, heq⟩ := l.order.eq_nil_or_concat
    · have hnil' : r.order = [] := by simpa [hnil] using h.length.symm
      rw [hnil, hnil']
      exact h
    · rw [List.concat_eq_append] at heq
      obtain ⟨front', k, heq', hfront, hkey⟩ := h.concat heq
      obtain ⟨entry, hentry, rfl⟩ := Option.map_eq_some_iff.mp hkey
      have hkeys : ∀ el ∈ front, l.keyAt el ≠ some entry.key := by
        intro el hel
        have hnodup := h.nodup hr
        rw [heq, List.map_append, List.map_singleton, hkey] at hnodup
        exact (List.nodup_append.mp hnodup).2.2 _ (List.mem_map_of_mem hel) _ (by simp)
      have hold : oldest ∉ front := fun hmem => hkeys oldest hmem hkey
      have herase : l.order.erase oldest = front := by
        rw [heq, List.erase_append_right _ hold]
        simp
      have hdrop : r.order.dropLast = front' := by rw [heq', List.dropLast_concat]
      simp only [heq, heq', List.getLast?_concat, hentry]
      rw [← heq, ← heq', herase, hdrop]
      refine ⟨rfl, hfront, fun k el => ?_, fun k => ?_⟩
      · simp only [Std.ExtTreeMap.getElem?_erase, Std.LawfulEqCmp.compare_eq_iff_eq]
        have hlinked := h.linked k el
        rw [heq, List.mem_append, List.mem_singleton] at hlinked
        by_cases hk : entry.key = k
        · subst hk
          rw [if_pos rfl]
          constructor
          · rintro ⟨⟩
          · rintro ⟨hel, hkey'⟩
            exact absurd hkey' (hkeys el hel)
        · rw [if_neg hk, hlinked]
          constructor
          · rintro ⟨hel | rfl, hkey'⟩
            · exact ⟨hel, hkey'⟩
            · rw [hkey, Option.some.injEq] at hkey'
              exact absurd hkey' hk
          · rintro ⟨hel, hkey'⟩
            exact ⟨.inl hel, hkey'⟩
      · simp only [Std.ExtTreeMap.getElem?_erase, Std.LawfulEqCmp.compare_eq_iff_eq]
        by_cases hk : entry.key = k
        · rw [if_pos hk, if_pos hk]
          rfl
        · rw [if_neg hk, if_neg hk]
          exact h.items k
  · exact h

theorem Represents.put (h : l.Represents r) (hr : r.Consistent) (key : String) (value : ResultEntry) :
    (l.put key value).Represents (r.put key value) := by
  have hmem : key ∈ r.items ↔ key ∈ l.items := (hr.mem key).trans h.mem_items.symm
  cases hel : l.items[key]? with
  | some el =>
    have hkey : key ∈ r.items := hmem.mpr (Std.ExtTreeMap.mem_iff_isSome_getElem?.mpr (by simp [hel]))
    have hput : l.put key value = { l.setValue el value with order := LruList.moveToFront l.order el } := by
      simp only [LruList.put, hel]
      rfl
    rw [hput, LruResults.put_of_mem hkey]
    exact (h.setValue hel).moveToFront hr.nodup hel
  | none =>
    have hkey : key ∉ r.items := by
      rw [hmem, Std.ExtTreeMap.mem_iff_isSome_getElem?, hel]
      simp
    have hput : l.put key value = (l.pushFront key value).evict := by simp only [LruList.put, hel]
    rw [hput, LruResults.put_of_notMem hkey]
    exact (h.pushFront hel).evict (hr.pushFront hkey).nodup

theorem Represents.get (h : l.Represents r) (hr : r.Consistent) (key : String) :
    (l.get key).1.Represents (r.get key).1 ∧ (l.get key).2 = (r.get key).2 := by
  have hitem := h.items key
  cases hel : l.items[key]? with
  | some el =>
    obtain ⟨value, hvalue⟩ := h.isSome_valueAt hel
    rw [hel, Option.bind_some, hvalue] at hitem
    have hget : l.get key = ({ l with order := LruList.moveToFront l.order el }, some value) := by
      simp only [LruList.get, hel, ← hvalue]
      rfl
    have hget' : r.get key = ({ r with order := Lib.touch key r.order }, some value) := by
      simp only [LruResults.get, hitem]
      rfl
    rw [hget, hget']
    exact ⟨h.moveToFront hr.nodup hel, rfl⟩
  | none =>
    rw [hel, Option.bind_none] at hitem
    have hget : l.get key = (l, none) := by simp only [LruList.get, hel]
    have hget' : r.get key = (r, none) := by simp only [LruResults.get, hitem]
    rw [hget, hget']
    exact ⟨h, rfl⟩

inductive Call
  | put (key : String) (value : ResultEntry)
  | get (key : String)

def step (l : LruList) : Call → LruList × List String
  | .put key value => (l.put key value, [key])
  | .get key => ((l.get key).1, if (l.get key).2.isSome then [key] else [])

def machine : Lib.Machine LruList Call String := ⟨fun l call => some (l.step call)⟩

def lastPut (calls : List Call) (k : String) : Option ResultEntry :=
  calls.reverse.findSome? fun
    | .put key value => if key = k then some value else none
    | .get _ => none

@[simp] theorem lastPut_put (calls : List Call) (key : String) (value : ResultEntry) :
    lastPut (calls ++ [.put key value]) = Function.update (lastPut calls) key (some value) := by
  funext k
  rw [lastPut, List.reverse_append, List.reverse_singleton, List.singleton_append,
    List.findSome?_cons, Function.update_apply, lastPut]
  by_cases hk : key = k
  · simp [hk]
  · simp [hk, Ne.symm hk]

@[simp] theorem lastPut_get (calls : List Call) (key : String) :
    lastPut (calls ++ [.get key]) = lastPut calls := by
  funext k
  simp [lastPut]

theorem isSome_lastPut {calls : List Call} :
    (lastPut calls k).isSome = true ↔ ∃ value, .put k value ∈ calls := by
  simp only [lastPut, List.findSome?_isSome_iff, List.mem_reverse]
  constructor
  · rintro ⟨call, hcall, hsome⟩
    cases call with
    | put key value =>
      obtain rfl : key = k := by
        by_contra hne
        simp [hne] at hsome
      exact ⟨value, hcall⟩
    | get key => simp at hsome
  · rintro ⟨value, hcall⟩
    exact ⟨_, hcall, by simp⟩

structure Remembers (l : LruList) (capacity : Int) (calls : List Call) (uses : List String)
    (r : LruResults) : Prop where
  represents : l.Represents r
  recalls : r.Recalls uses (lastPut calls)
  cap : (r.cap : Int) = max 1 capacity
  used : ∀ k, (lastPut calls k).isSome = true → k ∈ uses

theorem Remembers.put {capacity : Int} {calls : List Call} {uses : List String}
    (h : l.Remembers capacity calls uses r) (key : String) (value : ResultEntry) :
    (l.put key value).Remembers capacity (calls ++ [.put key value]) (uses ++ [key])
      (r.put key value) where
  represents := h.represents.put h.recalls.consistent key value
  recalls := by
    rw [lastPut_put]
    exact h.recalls.put key value
  cap := by
    rw [LruResults.put_cap]
    exact h.cap
  used k hk := by
    rw [lastPut_put, Function.update_apply] at hk
    split at hk
    · rename_i heq
      simp [heq]
    · exact List.mem_append_left _ (h.used k hk)

theorem Remembers.get {capacity : Int} {calls : List Call} {uses : List String}
    (h : l.Remembers capacity calls uses r) (key : String) :
    (l.get key).1.Remembers capacity (calls ++ [.get key])
      (uses ++ if (l.get key).2.isSome then [key] else []) (r.get key).1 := by
  obtain ⟨hrep, hvalue⟩ := h.represents.get h.recalls.consistent key
  rw [hvalue]
  by_cases hkey : key ∈ r.order
  · obtain ⟨hget, hrec⟩ := h.recalls.get_hit hkey
    have hsome : (r.get key).2.isSome = true := by
      rw [hget]
      exact h.recalls.isSome hkey
    rw [if_pos hsome]
    refine ⟨hrep, ?_, ?_, ?_⟩
    · rw [lastPut_get]
      exact hrec
    · rw [hget]
      exact h.cap
    · rw [lastPut_get]
      exact fun k hk => List.mem_append_left _ (h.used k hk)
  · have hget := h.recalls.get_miss hkey
    rw [hget] at hrep ⊢
    refine ⟨hrep, ?_, h.cap, ?_⟩
    · simpa using h.recalls
    · simpa using h.used

theorem remembers_of_run (capacity : Int) {calls : List Call} {uses : List String}
    (h : machine.Run Lib.Machine.Always (new capacity) calls uses l) :
    ∃ r, l.Remembers capacity calls uses r := by
  induction h with
  | refl =>
    refine ⟨.new capacity, .new capacity, .new capacity, ?_, by simp [lastPut]⟩
    simp only [LruResults.new]
    split <;> omega
  | @tail _ _ _ call _ _ _ _ hst ih =>
    obtain ⟨r, hr⟩ := ih
    simp only [machine, Option.some.injEq] at hst
    cases call with
    | put key value =>
      obtain ⟨rfl, rfl⟩ := Prod.mk.inj hst
      exact ⟨_, hr.put key value⟩
    | get key =>
      obtain ⟨rfl, rfl⟩ := Prod.mk.inj hst
      exact ⟨_, hr.get key⟩

/-- After every sequence of calls the map and the list have the same keys, no more than the
capacity, in the order of their last use, and `Get` finds a key that was put if and only if fewer
other keys than the capacity were used since its last use. -/
theorem lru_exact (capacity : Int) {calls : List Call} {uses : List String} {l : LruList}
    (h : machine.Run Lib.Machine.Always (new capacity) calls uses l) :
    (∀ k, k ∈ l.items ↔ k ∈ l.keys) ∧ l.keys.Nodup ∧ l.keys.length = l.order.length ∧
      (l.keys.length : Int) ≤ max 1 capacity ∧
      l.keys.Pairwise (fun j k => j ∈ Lib.usedSince uses k) ∧
      ∀ k, ((l.get k).2.isSome = true ↔ (∃ value, .put k value ∈ calls) ∧
          ((Lib.usedSince uses k).toFinset.card : Int) < max 1 capacity) ∧
        ∀ value, (l.get k).2 = some value → lastPut calls k = some value := by
  obtain ⟨r, hr⟩ := remembers_of_run capacity h
  have hkeys := hr.represents.keys
  have hcons := hr.recalls.consistent
  refine ⟨?_, ?_, ?_, ?_, ?_, fun k => ?_⟩
  · intro k
    rw [hkeys]
    exact hr.represents.mem_items
  · rw [hkeys]
    exact hcons.nodup
  · rw [hkeys, hr.represents.length]
  · rw [hkeys, ← hr.cap]
    exact_mod_cast hr.recalls.length_le
  · rw [hkeys, hr.recalls.order]
    exact Lib.pairwise_recent.sublist (List.take_sublist _ _)
  · have hused : k ∈ uses ↔ ∃ value, .put k value ∈ calls := by
      rw [← isSome_lastPut]
      exact ⟨hr.recalls.known k, hr.used k⟩
    have hmem : k ∈ r.order ↔ (∃ value, .put k value ∈ calls) ∧
        ((Lib.usedSince uses k).toFinset.card : Int) < max 1 capacity := by
      rw [hr.recalls.order, Lib.mem_take_recent, hused, ← hr.cap]
      norm_cast
    rw [(hr.represents.get hcons k).2, ← hmem]
    by_cases hk : k ∈ r.order
    · rw [(hr.recalls.get_hit hk).1]
      exact ⟨iff_of_true (hr.recalls.isSome hk) hk, fun _ hvalue => hvalue⟩
    · rw [hr.recalls.get_miss hk]
      exact ⟨iff_of_false (by simp) hk, by simp⟩

def sampleEntry (data : UInt8) : ResultEntry where
  resultBytes := [data]
  errorMsg := ""
  coldStartMs := 0
  executionMs := 0

def sampleCalls : List Call :=
  [.put "a" (sampleEntry 1), .put "b" (sampleEntry 2), .get "a", .put "c" (sampleEntry 3), .get "b"]

def sampleLru : LruList × List String :=
  (machine.exec (fun _ _ => true) (new 2) sampleCalls).get (by decide)

theorem lru_exact_sample :
    sampleLru.2 = ["a", "b", "a", "c"] ∧ sampleLru.1.keys = ["c", "a"] ∧
      (sampleLru.1.get "b").2 = none ∧ lastPut sampleCalls "a" = some (sampleEntry 1) := by
  have hrun : machine.Run (fun _ _ => true = true) (new 2) sampleCalls sampleLru.2 sampleLru.1 :=
    Lib.Machine.run_of_exec_get (by decide)
  obtain ⟨-, -, -, -, -, hget⟩ := lru_exact 2 (hrun.mono fun _ _ _ => trivial)
  exact ⟨by decide, by decide, by decide, (hget "a").2 _ (by decide)⟩

end LruList

end Minimodal
