import CallGuard.Pipeline.Codec
import Mathlib.Data.List.Perm.Basic

/-!
# Edited documents

A document as someone else may write it: at any depth, members come in another order, some are left
out and members of other names are added. What is left out is given by the names on the way to it.

* `Json.Edited`: a document is an edit of another.
* `Json.Edited.found`: what is found under the name of a member.
* `Json.Edited.record?_eq`, `Json.Edited.optional_eq`, `Json.Edited.required_eq`: how a record reads it.
* `Json.Edited.erase`: an edit of an object is one of the object without a name.
-/

namespace CallGuard.Json

/-- **What is left out** of a document, by the names on the way to it. -/
abbrev Omission := List String → Bool

/-- What is left out of the member of a name. -/
def Omission.under (o : Omission) (name : String) : Omission := fun path => o (name :: path)

/-- The value of a field, or the default if the field is left out. -/
def Omission.pick {α : Type} (o : Omission) (name : String) (default value : α) : α :=
  if o [name] then default else value

/-- **A document is an edit of another**, with what is left out. What is no object stays. An object keeps what is
not left out, edited in turn, and gets members of other names, in any order. -/
inductive Edited : Omission → Json → Json → Prop
  | value {o : Omission} {j : Json} (h : ∀ fields, j ≠ .obj fields) : Edited o j j
  | object {o : Omission} {fields added members : List (String × Json)} (after : String → Json)
      (hafter : ∀ m ∈ fields, o [m.1] = false → Edited (o.under m.1) m.2 (after m.1))
      (hadded : ∀ m ∈ added, m.1 ∉ fields.map Prod.fst)
      (hmembers : members.Perm
        ((fields.filter fun m => !o [m.1]).map (fun m => (m.1, after m.1)) ++ added)) :
      Edited o (.obj fields) (.obj members)

/-- The names of the members of an object. -/
def names : Json → List String
  | .obj members => members.map Prod.fst
  | _ => []

/-- True if everything that is found under the names of a path is readable. -/
def isReadableAt : List String → Json → Bool
  | [], j => j.isReadable
  | name :: path, .obj members => members.all fun m => m.1 != name || m.2.isReadableAt path
  | _ :: _, _ => true

theorem isReadableAt_member {name : String} {path : List String} {members : List (String × Json)} {j : Json}
    (h : isReadableAt (name :: path) (.obj members) = true) (hmem : (name, j) ∈ members) :
    j.isReadableAt path = true := by
  unfold isReadableAt at h
  have hj := List.all_eq_true.1 h _ hmem
  simpa using hj

/-! ## The members of a name -/

theorem filter_name {l : List (String × Json)} (hnodup : (l.map Prod.fst).Nodup) {name : String} {j : Json}
    (hmem : (name, j) ∈ l) : (l.filter fun m => m.1 == name) = [(name, j)] := by
  induction l with
  | nil => cases hmem
  | cons m rest ih =>
    obtain ⟨hfirst, hrest⟩ := List.nodup_cons.1 hnodup
    rcases List.mem_cons.1 hmem with rfl | hmem
    · have hnone : (rest.filter fun m => m.1 == name) = [] := by
        rw [List.filter_eq_nil_iff]
        intro m hm heq
        exact hfirst (List.mem_map.2 ⟨m, hm, eq_of_beq heq⟩)
      rw [List.filter_cons_of_pos (by simp), hnone]
    · have hne : m.1 ≠ name := by
        rintro rfl
        exact hfirst (List.mem_map.2 ⟨_, hmem, rfl⟩)
      rw [List.filter_cons_of_neg (by simpa using hne), ih hrest hmem]

theorem lookup_eq_head? (l : List (String × Json)) (name : String) :
    l.lookup name = (l.filter fun m => m.1 == name).head?.map Prod.snd := by
  induction l with
  | nil => rfl
  | cons m rest ih =>
    obtain ⟨first, j⟩ := m
    rw [KeyMap.lookup_entry]
    by_cases h : name = first
    · subst h
      simp
    · rw [if_neg h, ih, List.filter_cons_of_neg (by simpa using Ne.symm h)]

namespace Edited

variable {o : Omission} {fields members : List (String × Json)} {name : String} {j j' : Json}

theorem eq_of_value (h : Edited o j j') (hvalue : ∀ fields, j ≠ .obj fields) : j' = j := by
  cases h with
  | value _ => rfl
  | object _ _ _ _ => exact absurd rfl (hvalue _)

theorem exists_members (h : Edited o (.obj fields) j) : ∃ members, j = .obj members := by
  cases h with
  | value hvalue => exact absurd rfl (hvalue fields)
  | object _ _ _ _ => exact ⟨_, rfl⟩

/-- An edit that reverses the members, found there by their names. -/
theorem of_reverse (added : List (String × Json))
    (hafter : ∀ m ∈ fields, o [m.1] = false → Edited (o.under m.1) m.2 ((members.lookup m.1).getD .null))
    (hadded : ∀ m ∈ added, m.1 ∉ fields.map Prod.fst)
    (hmembers : members.reverse =
      (fields.filter fun m => !o [m.1]).map (fun m => (m.1, (members.lookup m.1).getD .null)) ++ added) :
    Edited o (.obj fields) (.obj members) :=
  .object (fun name => (members.lookup name).getD .null) hafter hadded (List.reverse_perm'.1 (.of_eq hmembers))

/-- **What is found under the name of a member**: nothing if it is left out, else the member after its edit,
once. -/
theorem found (h : Edited o (.obj fields) (.obj members)) (hnodup : (fields.map Prod.fst).Nodup)
    (hmem : (name, j) ∈ fields) :
    (o [name] = true ∧ (members.filter fun m => m.1 == name) = []) ∨
      (o [name] = false ∧ ∃ j', (members.filter fun m => m.1 == name) = [(name, j')] ∧
        Edited (o.under name) j j') := by
  cases h with
  | value hvalue => exact absurd rfl (hvalue fields)
  | object after hafter hadded hmembers =>
    rename_i added
    have hother : (added.filter fun m => m.1 == name) = [] := by
      rw [List.filter_eq_nil_iff]
      intro m hm heq
      exact hadded m hm (List.mem_map.2 ⟨_, hmem, (eq_of_beq heq).symm⟩)
    have hnamed := hmembers.filter fun m => m.1 == name
    -- only the member of that name is left, so that it alone decides
    rw [List.filter_append, hother, List.append_nil, List.filter_map] at hnamed
    change (members.filter fun m => m.1 == name).Perm
      (((fields.filter fun m => !o [m.1]).filter fun m => m.1 == name).map fun m => (m.1, after m.1)) at hnamed
    rw [List.filter_comm, filter_name hnodup hmem] at hnamed
    cases hout : o [name] with
    | true =>
      rw [List.filter_cons_of_neg (by simp [hout])] at hnamed
      exact .inl ⟨rfl, hnamed.eq_nil⟩
    | false =>
      rw [List.filter_cons_of_pos (by simp [hout])] at hnamed
      exact .inr ⟨rfl, after name, hnamed.eq_singleton, hafter _ hmem hout⟩

/-- **An edit of an object is one of the object without a name**, if that is taken from both. -/
theorem erase (h : Edited o (.obj fields) (.obj members)) (name : String) :
    Edited o (.obj (fields.filter fun m => m.1 != name)) (.obj (members.filter fun m => m.1 != name)) := by
  cases h with
  | value hvalue => exact absurd rfl (hvalue fields)
  | object after hafter hadded hmembers =>
    rename_i added
    refine @Edited.object _ _ (added.filter fun m => m.1 != name) _ after ?_ ?_ ?_
    · intro m hm hkept
      exact hafter m (List.mem_of_mem_filter hm) hkept
    · intro m hm hfield
      have hsub := (List.filter_sublist (p := fun m => m.1 != name) (l := fields)).map Prod.fst
      exact hadded m (List.mem_of_mem_filter hm) (hsub.subset hfield)
    · have hrest := hmembers.filter fun m => m.1 != name
      rw [List.filter_append, List.filter_map] at hrest
      rw [List.filter_comm]
      exact hrest

/-! ## Reading a record -/

/-- **The fields of a record are found**, whatever comes with them. -/
theorem record?_eq (h : Edited o (.obj fields) (.obj members)) (hnodup : (fields.map Prod.fst).Nodup) :
    record? (fields.map Prod.fst) (.obj members) = some members := by
  refine if_pos (List.all_eq_true.2 fun name hname => ?_)
  obtain ⟨⟨_, j⟩, hmem, rfl⟩ := List.mem_map.1 hname
  apply decide_eq_true
  obtain ⟨-, hnone⟩ | ⟨-, j', hone, -⟩ := h.found hnodup hmem
  · rw [hnone]
    exact Nat.zero_le 1
  · rw [hone]
    exact Nat.le_refl 1

theorem lookup_eq (h : Edited o (.obj fields) (.obj members)) (hnodup : (fields.map Prod.fst).Nodup)
    (hmem : (name, j) ∈ fields) :
    (o [name] = true ∧ members.lookup name = none) ∨
      (o [name] = false ∧ ∃ j', members.lookup name = some j' ∧ (name, j') ∈ members ∧
        Edited (o.under name) j j') := by
  rw [lookup_eq_head?]
  obtain ⟨hout, hnone⟩ | ⟨hin, j', hone, hedit⟩ := h.found hnodup hmem
  · rw [hnone]
    exact .inl ⟨hout, rfl⟩
  · have hmem' : (name, j') ∈ members.filter fun m => m.1 == name := by
      rw [hone]
      exact List.mem_singleton_self _
    rw [hone]
    exact .inr ⟨hin, j', rfl, List.mem_of_mem_filter hmem', hedit⟩

variable {α : Type} {read : Json → Option α} {d a : α} {x : Option α}

/-- **A field that may be missing** is read from the member after its edit, or has its default. -/
theorem optional_eq (h : Edited o (.obj fields) (.obj members)) (hnodup : (fields.map Prod.fst).Nodup)
    (hmem : (name, j) ∈ fields)
    (hread : ∀ j', (name, j') ∈ members → Edited (o.under name) j j' → read j' = x) :
    Record.optional members name d read = if o [name] then some d else x := by
  unfold Record.optional
  obtain ⟨hout, hnone⟩ | ⟨hin, j', hone, hmem', hedit⟩ := h.lookup_eq hnodup hmem
  · rw [hnone, if_pos hout]
  · rw [hone, if_neg (by simp [hin])]
    exact hread j' hmem' hedit

/-- A field that is read or not, as the edit inside it decides. -/
theorem optional_broken {broken : Bool} (h : Edited o (.obj fields) (.obj members))
    (hnodup : (fields.map Prod.fst).Nodup) (hmem : (name, j) ∈ fields)
    (hread : ∀ j', (name, j') ∈ members → Edited (o.under name) j j' →
      read j' = if broken then none else some a) :
    Record.optional members name d read =
      if !o [name] && broken then none else some (o.pick name d a) := by
  rw [h.optional_eq hnodup hmem hread]
  unfold Omission.pick
  cases o [name] <;> rfl

theorem optional_some (h : Edited o (.obj fields) (.obj members)) (hnodup : (fields.map Prod.fst).Nodup)
    (hmem : (name, j) ∈ fields) (hread : ∀ j', Edited (o.under name) j j' → read j' = some a) :
    Record.optional members name d read = some (o.pick name d a) := by
  rw [h.optional_eq hnodup hmem fun j' _ hedit => hread j' hedit]
  exact (apply_ite some _ _ _).symm

theorem optional_value (h : Edited o (.obj fields) (.obj members)) (hnodup : (fields.map Prod.fst).Nodup)
    (hmem : (name, j) ∈ fields) (hvalue : ∀ fields, j ≠ .obj fields) (hread : read j = some a) :
    Record.optional members name d read = some (o.pick name d a) := by
  refine h.optional_some hnodup hmem fun j' hedit => ?_
  rw [hedit.eq_of_value hvalue, hread]

/-- **A field that has to be there** makes the record unreadable if it is left out. -/
theorem required_eq (h : Edited o (.obj fields) (.obj members)) (hnodup : (fields.map Prod.fst).Nodup)
    (hmem : (name, j) ∈ fields) (hvalue : ∀ fields, j ≠ .obj fields) :
    Record.required members name read = if o [name] then none else read j := by
  unfold Record.required
  obtain ⟨hout, hnone⟩ | ⟨hin, j', hone, -, hedit⟩ := h.lookup_eq hnodup hmem
  · rw [hnone, if_pos hout]
    rfl
  · rw [hone, if_neg (by simp [hin]), hedit.eq_of_value hvalue]
    rfl

end Edited

end CallGuard.Json
