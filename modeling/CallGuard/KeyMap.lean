/-!
# Maps with text keys

A finite map that keeps its keys in the order in which they were first set. Each
key has one value.

* `KeyMap.get?_set`: a key reads back as last set, other keys stay.
* `KeyMap.get?_filter`: filtering keeps exactly the entries that pass.
* `KeyMap.get?_erase`: an erased key has no value, other keys stay.
* `KeyMap.get?_eq_some_iff`: the values are those of the entries.
* `KeyMap.mem_keys_iff`: the keys are those that have a value.
-/

namespace CallGuard

/-- A map from texts to values, in which no key comes twice. -/
structure KeyMap (α : Type) where
  entries : List (String × α)
  nodup : (entries.map Prod.fst).Nodup

namespace KeyMap

variable {α : Type}

/-- The map without keys. -/
def empty : KeyMap α := ⟨[], .nil⟩

instance : Inhabited (KeyMap α) := ⟨empty⟩

/-- The number of keys. -/
def size (m : KeyMap α) : Nat := m.entries.length

/-- The keys. -/
def keys (m : KeyMap α) : List String := m.entries.map Prod.fst

/-- The value of a key. -/
def get? (m : KeyMap α) (key : String) : Option α := m.entries.lookup key

/-- A value set in a list of entries, in its place or at the end. -/
def put (key : String) (value : α) : List (String × α) → List (String × α)
  | [] => [(key, value)]
  | e :: rest => if e.1 = key then (key, value) :: rest else e :: put key value rest

theorem mem_keys_put {key k : String} {value : α} {entries : List (String × α)} :
    k ∈ (put key value entries).map Prod.fst ↔ k = key ∨ k ∈ entries.map Prod.fst := by
  induction entries with
  | nil => simp [put]
  | cons e rest ih =>
    unfold put
    split
    · rename_i h; subst h; simp
    · rw [List.map_cons, List.mem_cons, ih, List.map_cons, List.mem_cons]
      exact or_left_comm

theorem nodup_put (key : String) (value : α) {entries : List (String × α)}
    (h : (entries.map Prod.fst).Nodup) : ((put key value entries).map Prod.fst).Nodup := by
  induction entries with
  | nil => simp [put]
  | cons e rest ih =>
    obtain ⟨he, hr⟩ := List.nodup_cons.1 h
    unfold put
    split
    · rename_i heq
      exact List.nodup_cons.2 ⟨heq ▸ he, hr⟩
    · rename_i hne
      refine List.nodup_cons.2 ⟨fun hm => ?_, ih hr⟩
      rcases mem_keys_put.1 hm with hk | hk
      · exact hne hk
      · exact he hk

/-- The map with a key set to a value. -/
def set (m : KeyMap α) (key : String) (value : α) : KeyMap α :=
  ⟨put key value m.entries, nodup_put key value m.nodup⟩

theorem nodup_filter (p : String × α → Bool) {entries : List (String × α)}
    (h : (entries.map Prod.fst).Nodup) : ((entries.filter p).map Prod.fst).Nodup :=
  h.sublist (List.filter_sublist.map Prod.fst)

/-- The entries that pass a test. -/
def filter (m : KeyMap α) (p : String × α → Bool) : KeyMap α :=
  ⟨m.entries.filter p, nodup_filter p m.nodup⟩

/-- The map without a key. -/
def erase (m : KeyMap α) (key : String) : KeyMap α := m.filter fun e => e.1 != key

/-! ## Reading back -/

theorem lookup_entry (other key : String) (value : α) (rest : List (String × α)) :
    ((key, value) :: rest).lookup other = if other = key then some value else rest.lookup other := by
  by_cases h : other = key
  · simp [h]
  · simp [List.lookup_cons, h, beq_false_of_ne h]

theorem lookup_put (key : String) (value : α) (other : String) (entries : List (String × α)) :
    (put key value entries).lookup other =
      if other = key then some value else entries.lookup other := by
  induction entries with
  | nil => exact lookup_entry other key value []
  | cons e rest ih =>
    obtain ⟨k, v⟩ := e
    unfold put
    split
    · rename_i heq
      rw [lookup_entry, lookup_entry]
      by_cases h : other = key
      · rw [if_pos h, if_pos h]
      · rw [if_neg h, if_neg h, if_neg fun hk => h (hk.trans heq)]
    · rename_i hne
      rw [lookup_entry, lookup_entry, ih]
      by_cases hk : other = k
      · rw [if_pos hk, if_pos hk, if_neg fun hn => hne (hk.symm.trans hn)]
      · rw [if_neg hk, if_neg hk]

/-- **A key reads back as last set**, and setting it changes no other. -/
theorem get?_set (m : KeyMap α) (key : String) (value : α) (other : String) :
    (m.set key value).get? other = if other = key then some value else m.get? other :=
  lookup_put key value other m.entries

@[simp] theorem get?_empty (key : String) : (empty : KeyMap α).get? key = none := rfl

theorem lookup_eq_none_of_not_mem {key : String} {entries : List (String × α)}
    (h : key ∉ entries.map Prod.fst) : entries.lookup key = none := by
  induction entries with
  | nil => rfl
  | cons e rest ih =>
    obtain ⟨k, v⟩ := e
    rw [List.map_cons, List.mem_cons, not_or] at h
    rw [lookup_entry, if_neg h.1, ih h.2]

theorem lookup_filter (p : String × α → Bool) (key : String) {entries : List (String × α)}
    (h : (entries.map Prod.fst).Nodup) :
    (entries.filter p).lookup key = (entries.lookup key).filter fun v => p (key, v) := by
  induction entries with
  | nil => rfl
  | cons e rest ih =>
    obtain ⟨k, v⟩ := e
    obtain ⟨hk, hr⟩ := List.nodup_cons.1 h
    rw [lookup_entry]
    by_cases hkey : key = k
    · subst hkey
      rw [if_pos rfl]
      cases hp : p (key, v) with
      | true => simp [Option.filter, hp]
      | false =>
        have hno : key ∉ (rest.filter p).map Prod.fst := fun hm =>
          hk ((List.filter_sublist.map Prod.fst).subset hm)
        simp [Option.filter, hp, lookup_eq_none_of_not_mem hno]
    · rw [if_neg hkey, ← ih hr]
      cases hp : p (k, v) with
      | true => simp [hp, lookup_entry, hkey]
      | false => simp [hp]

/-- **Filtering keeps what passes.** -/
theorem get?_filter (m : KeyMap α) (p : String × α → Bool) (key : String) :
    (m.filter p).get? key = (m.get? key).filter fun v => p (key, v) :=
  lookup_filter p key m.nodup

theorem lookup_eq_some_iff {key : String} {value : α} {entries : List (String × α)}
    (h : (entries.map Prod.fst).Nodup) : entries.lookup key = some value ↔ (key, value) ∈ entries := by
  induction entries with
  | nil => simp
  | cons e rest ih =>
    obtain ⟨k, v⟩ := e
    obtain ⟨hk, hr⟩ := List.nodup_cons.1 h
    rw [lookup_entry, List.mem_cons, Prod.mk.injEq]
    by_cases hkey : key = k
    · subst hkey
      have hno : (key, value) ∉ rest := fun hm => hk (List.mem_map.2 ⟨_, hm, rfl⟩)
      simp [hno, eq_comm]
    · simp [hkey, ih hr]

/-- **A key has the value of its entry.** -/
theorem get?_eq_some_iff (m : KeyMap α) {key : String} {value : α} :
    m.get? key = some value ↔ (key, value) ∈ m.entries :=
  lookup_eq_some_iff m.nodup

theorem mem_keys_iff (m : KeyMap α) {key : String} : key ∈ m.keys ↔ (m.get? key).isSome := by
  rw [Option.isSome_iff_exists, keys, List.mem_map]
  constructor
  · rintro ⟨⟨_, value⟩, hmem, rfl⟩
    exact ⟨value, m.get?_eq_some_iff.2 hmem⟩
  · rintro ⟨value, hvalue⟩
    exact ⟨(key, value), m.get?_eq_some_iff.1 hvalue, rfl⟩

theorem get?_erase (m : KeyMap α) (key other : String) :
    (m.erase key).get? other = if other = key then none else m.get? other := by
  rw [erase, get?_filter]
  by_cases h : other = key
  · subst h; cases m.get? other <;> simp
  · cases m.get? other <;> simp [h]

end KeyMap

end CallGuard
