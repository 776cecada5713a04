import CallGuard.KeyMap

/-!
# Labels

A finite map from texts to texts, kept sorted by name. Sorting makes equal maps
equal values and fixes the order in which labels are shown: by code points, which
is the byte order of UTF-8.

* `Labels.get?_insert`: a label reads back as last written, other labels stay.
* `Labels.ofList_entries`: labels are made again from their own list.
-/

namespace CallGuard

/-- A map from label names to values, listed with names ascending, so that none comes twice. -/
structure Labels where
  entries : List (String × String)
  sorted : entries.Pairwise (fun a b => a.1 < b.1)
deriving DecidableEq

namespace Labels

/-- No labels. -/
def empty : Labels := ⟨[], .nil⟩

instance : Inhabited Labels := ⟨empty⟩

theorem ext {a b : Labels} (h : a.entries = b.entries) : a = b := by
  cases a; cases b; simp_all

/-- True if there is no label. -/
def isEmpty (l : Labels) : Bool := l.entries.isEmpty

/-- The value of a label. -/
def get? (l : Labels) (name : String) : Option String := l.entries.lookup name

/-- A label put at its place in a sorted list, instead of one of the same name. -/
def place (name value : String) : List (String × String) → List (String × String)
  | [] => [(name, value)]
  | e :: rest =>
    if name < e.1 then (name, value) :: e :: rest
    else if name = e.1 then (name, value) :: rest
    else e :: place name value rest

theorem mem_place {name value : String} {x : String × String} :
    ∀ {entries : List (String × String)}, x ∈ place name value entries →
      x = (name, value) ∨ x ∈ entries
  | [], h => by simpa [place] using h
  | e :: rest, h => by
    unfold place at h
    split at h
    · simpa using h
    · split at h
      · rcases List.mem_cons.1 h with h | h
        · exact .inl h
        · exact .inr (List.mem_cons_of_mem _ h)
      · rcases List.mem_cons.1 h with h | h
        · exact .inr (h ▸ List.mem_cons_self ..)
        · exact (mem_place h).imp id (List.mem_cons_of_mem _)

theorem lt_of_not_lt_of_ne {a b : String} (h : ¬a < b) (hne : ¬a = b) : b < a := by
  refine Decidable.byContradiction fun h' => hne ?_
  exact String.le_antisymm (String.not_lt.1 h') (String.not_lt.1 h)

theorem sorted_place (name value : String) {entries : List (String × String)}
    (h : entries.Pairwise (fun a b => a.1 < b.1)) :
    (place name value entries).Pairwise (fun a b => a.1 < b.1) := by
  induction entries with
  | nil => simp [place]
  | cons e rest ih =>
    obtain ⟨he, hr⟩ := List.pairwise_cons.1 h
    unfold place
    split
    · rename_i hlt
      refine List.pairwise_cons.2 ⟨fun x hx => ?_, h⟩
      rcases List.mem_cons.1 hx with rfl | hx
      · exact hlt
      · exact String.lt_trans hlt (he x hx)
    · rename_i hnl
      split
      · rename_i heq
        exact List.pairwise_cons.2 ⟨fun x hx => heq ▸ he x hx, hr⟩
      · rename_i hne
        refine List.pairwise_cons.2 ⟨fun x hx => ?_, ih hr⟩
        rcases mem_place hx with rfl | hx
        · exact lt_of_not_lt_of_ne hnl hne
        · exact he x hx

/-- A label set to a value. -/
def insert (l : Labels) (name value : String) : Labels :=
  ⟨place name value l.entries, sorted_place name value l.sorted⟩

/-- Labels from a list; the last value of a name stays. -/
def ofList (entries : List (String × String)) : Labels :=
  entries.foldl (fun l e => l.insert e.1 e.2) empty

theorem lookup_place (name value other : String) (entries : List (String × String)) :
    (place name value entries).lookup other =
      if other = name then some value else entries.lookup other := by
  induction entries with
  | nil => exact KeyMap.lookup_entry other name value []
  | cons e rest ih =>
    obtain ⟨k, v⟩ := e
    unfold place
    split
    · exact KeyMap.lookup_entry other name value _
    · split
      · rename_i heq
        rw [KeyMap.lookup_entry, KeyMap.lookup_entry]
        by_cases h : other = name
        · simp [h]
        · rw [if_neg h, if_neg h, if_neg fun hk => h (hk.trans heq.symm)]
      · rename_i hne
        rw [KeyMap.lookup_entry, KeyMap.lookup_entry, ih]
        by_cases hk : other = k
        · rw [if_pos hk, if_pos hk, if_neg fun hn => hne (hn.symm.trans hk)]
        · rw [if_neg hk, if_neg hk]

/-- **A label reads back as last written**, and writing it changes no other. -/
theorem get?_insert (l : Labels) (name value other : String) :
    (l.insert name value).get? other = if other = name then some value else l.get? other :=
  lookup_place name value other l.entries

@[simp] theorem get?_empty (name : String) : empty.get? name = none := rfl

theorem place_last (name value : String) {entries : List (String × String)}
    (h : ∀ e ∈ entries, e.1 < name) : place name value entries = entries ++ [(name, value)] := by
  induction entries with
  | nil => rfl
  | cons e rest ih =>
    have he : e.1 < name := h e (List.mem_cons_self ..)
    have hnl : ¬name < e.1 := String.lt_asymm he
    have hne : ¬name = e.1 := fun heq => String.lt_irrefl name (heq ▸ he)
    rw [place, if_neg hnl, if_neg hne, ih fun x hx => h x (List.mem_cons_of_mem _ hx), List.cons_append]

/-- Labels that come in order are put one behind the other. -/
theorem entries_foldl_insert (l : Labels) {rest : List (String × String)}
    (h : (l.entries ++ rest).Pairwise (fun a b => a.1 < b.1)) :
    (rest.foldl (fun l e => l.insert e.1 e.2) l).entries = l.entries ++ rest := by
  induction rest generalizing l with
  | nil => exact (List.append_nil _).symm
  | cons e rest ih =>
    have hlast : ∀ x ∈ l.entries, x.1 < e.1 :=
      fun x hx => (List.pairwise_append.1 h).2.2 x hx e (List.mem_cons_self ..)
    have hentries : (l.insert e.1 e.2).entries = l.entries ++ [e] := place_last e.1 e.2 hlast
    have happend : l.entries ++ [e] ++ rest = l.entries ++ e :: rest := List.append_cons .. |>.symm
    have hsorted : ((l.insert e.1 e.2).entries ++ rest).Pairwise (fun a b => a.1 < b.1) := by
      rw [hentries, happend]
      exact h
    rw [List.foldl_cons, ih _ hsorted, hentries, happend]

/-- **Labels are made again** from their own list. -/
theorem ofList_entries (l : Labels) : ofList l.entries = l := by
  apply ext
  exact entries_foldl_insert empty l.sorted

end Labels

end CallGuard
