import Omoikane.Base.Text

/-!
# Tables

A hash map as the list of its entries, one for each key.  Its order is that of
insertion, which nothing but a listing of the entries can observe.
-/

namespace Base

/-- The entries of a map. -/
abbrev Table (κ υ : Type) := List (κ × υ)

namespace Table

variable {κ υ : Type} [DecidableEq κ]

/-- `get`. -/
def get (table : Table κ υ) (key : κ) : Option υ :=
  (table.find? fun entry => entry.1 = key).map Prod.snd

/-- `remove`. -/
def remove (table : Table κ υ) (key : κ) : Table κ υ := table.filter fun entry => entry.1 ≠ key

/-- `insert`; an entry of the key is replaced. -/
def insert (table : Table κ υ) (key : κ) (value : υ) : Table κ υ :=
  table.remove key ++ [(key, value)]

@[simp] theorem get_nil (key : κ) : get ([] : Table κ υ) key = none := rfl

theorem get_cons (entry : κ × υ) (table : Table κ υ) (key : κ) :
    get (entry :: table) key = if entry.1 = key then some entry.2 else get table key := by
  unfold get
  by_cases h : entry.1 = key
  · rw [List.find?_cons_of_pos (by simpa using h), if_pos h]
    rfl
  · rw [List.find?_cons_of_neg (by simpa using h), if_neg h]

@[simp] theorem get_remove_self (table : Table κ υ) (key : κ) :
    get (table.remove key) key = none := by
  induction table with
  | nil => rfl
  | cons entry table ih =>
    unfold remove at ih ⊢
    by_cases h : entry.1 = key
    · rw [List.filter_cons_of_neg (by simpa using h), ih]
    · rw [List.filter_cons_of_pos (by simpa using h), get_cons, if_neg h, ih]

@[simp] theorem get_remove_of_ne (table : Table κ υ) {key other : κ} (h : other ≠ key) :
    get (table.remove key) other = table.get other := by
  induction table with
  | nil => rfl
  | cons entry table ih =>
    unfold remove at ih ⊢
    by_cases hk : entry.1 = key
    · have hne : ¬ entry.1 = other := fun ho => h (ho.symm.trans hk)
      rw [List.filter_cons_of_neg (by simpa using hk), ih, get_cons, if_neg hne]
    · rw [List.filter_cons_of_pos (by simpa using hk), get_cons, get_cons, ih]

/-- The value of a key is that of an entry. -/
theorem exists_mem_of_get_eq_some {table : Table κ υ} {key : κ} {value : υ}
    (h : table.get key = some value) : ∃ entry ∈ table, entry.1 = key ∧ entry.2 = value := by
  unfold get at h
  obtain ⟨entry, hfind, hvalue⟩ := Option.map_eq_some_iff.mp h
  exact ⟨entry, List.mem_of_find?_eq_some hfind, by simpa using List.find?_some hfind, hvalue⟩

theorem get_append (xs ys : Table κ υ) (key : κ) :
    get (xs ++ ys) key = (xs.get key).or (ys.get key) := by
  induction xs with
  | nil => rfl
  | cons entry xs ih =>
    rw [List.cons_append, get_cons, get_cons, ih]
    split <;> rfl

@[simp] theorem get_insert_self (table : Table κ υ) (key : κ) (value : υ) :
    get (table.insert key value) key = some value := by
  rw [insert, get_append, get_remove_self, get_cons, if_pos rfl]
  rfl

@[simp] theorem get_insert_of_ne (table : Table κ υ) {key other : κ} (h : other ≠ key)
    (value : υ) : get (table.insert key value) other = table.get other := by
  rw [insert, get_append, get_remove_of_ne table h, get_cons, if_neg (Ne.symm h), get_nil,
    Option.or_none]

/-! ## One entry for each key -/

/-- No key has two entries. -/
def Keyed (table : Table κ υ) : Prop := (table.map Prod.fst).Nodup

omit [DecidableEq κ] in
theorem Keyed.filter {table : Table κ υ} (h : table.Keyed) (p : κ × υ → Bool) :
    Keyed (table.filter p) := h.sublist (List.filter_sublist.map _)

theorem Keyed.insert {table : Table κ υ} (h : table.Keyed) (key : κ) (value : υ) :
    Keyed (table.insert key value) := by
  show ((table.remove key ++ [(key, value)]).map Prod.fst).Nodup
  rw [List.map_append, List.nodup_append]
  refine ⟨h.filter _, List.nodup_cons.mpr ⟨List.not_mem_nil, List.nodup_nil⟩, ?_⟩
  intro other hother key' hkey
  obtain ⟨entry, hentry, rfl⟩ := List.mem_map.mp hother
  rw [List.map_singleton, List.mem_singleton] at hkey
  rw [hkey]
  exact of_decide_eq_true (List.mem_filter.mp hentry).2

/-- The entry of a key is the only one. -/
theorem Keyed.get_eq_some_iff {table : Table κ υ} (h : table.Keyed) {key : κ} {value : υ} :
    table.get key = some value ↔ (key, value) ∈ table := by
  induction table with
  | nil => exact ⟨nofun, nofun⟩
  | cons entry table ih =>
    obtain ⟨hnot, htable⟩ := List.nodup_cons.mp h
    rw [get_cons, List.mem_cons]
    split
    next heq =>
      have hother : (key, value) ∉ table := fun hm =>
        hnot (List.mem_map.mpr ⟨_, hm, heq.symm⟩)
      rw [or_iff_left hother, Prod.ext_iff, Option.some.injEq]
      exact ⟨fun hvalue => ⟨heq.symm, hvalue.symm⟩, fun hpair => hpair.2.symm⟩
    next hne =>
      rw [ih htable, or_iff_right]
      intro heq
      exact hne (congrArg Prod.fst heq).symm

/-- A key keeps its value where its entry is kept. -/
theorem Keyed.get_filter {table : Table κ υ} (h : table.Keyed) (p : κ × υ → Bool) {key : κ}
    {value : υ} :
    get (table.filter p) key = some value ↔ table.get key = some value ∧ p (key, value) = true := by
  rw [(h.filter p).get_eq_some_iff, h.get_eq_some_iff, List.mem_filter]

omit [DecidableEq κ] in
theorem Keyed.map {table : Table κ υ} (h : table.Keyed) (f : υ → υ) :
    Keyed (table.map fun entry => (entry.1, f entry.2)) := by
  show ((table.map fun entry => (entry.1, f entry.2)).map Prod.fst).Nodup
  rw [List.map_map]
  exact h

/-- All values are mapped. -/
theorem get_map (table : Table κ υ) (f : υ → υ) (key : κ) :
    get (table.map fun entry => (entry.1, f entry.2)) key = (table.get key).map f := by
  induction table with
  | nil => rfl
  | cons entry table ih =>
    rw [List.map_cons, get_cons, get_cons, ih]
    split <;> rfl

end Table

end Base

/-!
## JSON values

The values of a JSON library, with the accessors that programs use on them.  An
object has one entry for each key.
-/

namespace Base

/-- A JSON number; a float is its bits. -/
inductive JsonNumber where
  | integer (value : Int)
  | float (bits : UInt64)
deriving DecidableEq, Repr

/-- A JSON value. -/
inductive Json where
  | null
  | bool (value : Bool)
  | number (value : JsonNumber)
  | string (value : Text)
  | array (values : List Json)
  | object (entries : List (Text × Json))

namespace Json

/-- `get` with a key. -/
def get (key : Text) : Json → Option Json
  | object entries => Table.get entries key
  | _ => none

/-- `as_str`. -/
def asStr : Json → Option Text
  | string value => some value
  | _ => none

end Json

end Base
