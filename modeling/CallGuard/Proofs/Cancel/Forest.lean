import CallGuard.Cancel.Scopes

/-!
# The forest of scopes

A scope keeps the parent that it was derived from, for good. What a cancellation
changes is said by paths: it reaches a scope if the way down from the cancelled one
leads through held scopes only.

* `Scopes.Path`: a way down the forest, with a condition on the scopes it enters.
* `Scopes.getElem?_spread`: one pass over the scopes cancels just those that are reached.
* `Scopes.Sound`: parents come first, and no held scope is behind its cancelled parent.
* `Scopes.Sound.isSome_reason?_cancel`: **a cancellation reaches just the scopes below it
  through held ones.**
* `Scopes.Move`: what can happen to scopes, and what each of these moves keeps.
-/

namespace CallGuard.Scopes

/-- The scope that a scope was derived from. -/
def parent? (s : Scopes) (id : ScopeId) : Option ScopeId := (s.list[id]?).bind Scope.parent

/-- True while something refers to a scope. -/
def isHeld (s : Scopes) (id : ScopeId) : Bool := (s.list[id]?).any Scope.held

/-- **A way down the forest** from `top` to a scope. Every scope that it enters satisfies `via`. -/
inductive Path (s : Scopes) (via : ScopeId → Prop) (top : ScopeId) : ScopeId → Prop
  | top : Path s via top top
  | down {id parent : ScopeId} : s.parent? id = some parent → via id → Path s via top parent →
      Path s via top id

variable {s t : Scopes} {via via' : ScopeId → Prop} {top id parent : ScopeId} {reason : CancelReason}

theorem Path.mono (h : s.Path via top id) (hvia : ∀ id, via id → via' id) : s.Path via' top id := by
  induction h with
  | top => exact .top
  | down hparent hid _ ih => exact .down hparent (hvia _ hid) ih

theorem Path.congr (h : s.Path via top id) (hparent : ∀ id, t.parent? id = s.parent? id) :
    t.Path via top id := by
  induction h with
  | top => exact .top
  | down hp hid _ ih => exact .down ((hparent _).trans hp) hid ih

theorem lt_of_reason? (h : s.reason? id = some reason) : id < s.list.length := by
  refine Nat.lt_of_not_le fun hle => ?_
  rw [reason?, List.getElem?_eq_none hle] at h
  cases h

theorem lt_of_parent? (h : s.parent? id = some parent) : id < s.list.length := by
  refine Nat.lt_of_not_le fun hle => ?_
  rw [parent?, List.getElem?_eq_none hle] at h
  cases h

theorem lt_of_isHeld (h : s.isHeld id) : id < s.list.length := by
  refine Nat.lt_of_not_le fun hle => ?_
  rw [isHeld, List.getElem?_eq_none hle] at h
  cases h

/-! ## Derivation and release -/

section Add

variable (s) (source : Option ScopeId)

theorem getElem?_add_of_lt (h : id < s.list.length) : (s.add source).2.list[id]? = s.list[id]? :=
  List.getElem?_append_left h

theorem getElem?_add_self :
    (s.add source).2.list[s.list.length]? = some ⟨source, source.bind s.reason?, true⟩ := by
  simp [add]

theorem length_add : (s.add source).2.list.length = s.list.length + 1 := by
  simp [add]

end Add

theorem getElem?_releaseFrom (isHeld : ScopeId → Bool) (list : List Scope) :
    ∀ i j, (releaseFrom isHeld i list)[j]? =
      (list[j]?).map fun scope : Scope => { scope with held := scope.held && isHeld (i + j) } := by
  induction list with
  | nil => intros; rfl
  | cons scope rest ih =>
    intro i j
    cases j with
    | zero => rfl
    | succ j =>
      rw [releaseFrom, List.getElem?_cons_succ, List.getElem?_cons_succ, ih, Nat.add_right_comm, Nat.add_assoc]

theorem length_releaseFrom (isHeld : ScopeId → Bool) (list : List Scope) :
    ∀ i, (releaseFrom isHeld i list).length = list.length := by
  induction list with
  | nil => intro; rfl
  | cons scope rest ih => exact fun i => congrArg (· + 1) (ih (i + 1))

theorem length_release (s : Scopes) (isHeld : ScopeId → Bool) :
    (s.release isHeld).list.length = s.list.length := length_releaseFrom _ _ _

theorem getElem?_release (s : Scopes) (isHeld : ScopeId → Bool) (id : ScopeId) :
    (s.release isHeld).list[id]? =
      (s.list[id]?).map fun scope : Scope => { scope with held := scope.held && isHeld id } := by
  rw [release, getElem?_releaseFrom, Nat.zero_add]

theorem parent?_release (s : Scopes) (isHeld : ScopeId → Bool) (id : ScopeId) :
    (s.release isHeld).parent? id = s.parent? id := by
  rw [parent?, parent?, getElem?_release]
  cases s.list[id]? <;> rfl

theorem reason?_release (s : Scopes) (isHeld : ScopeId → Bool) (id : ScopeId) :
    (s.release isHeld).reason? id = s.reason? id := by
  rw [reason?, reason?, getElem?_release]
  cases s.list[id]? <;> rfl

theorem isHeld_release (s : Scopes) (isHeld : ScopeId → Bool) (id : ScopeId) :
    (s.release isHeld).isHeld id = (s.isHeld id && isHeld id) := by
  rw [Scopes.isHeld, Scopes.isHeld, getElem?_release]
  cases s.list[id]? <;> rfl

/-! ## Cancellation -/

/-- Parents have smaller numbers. -/
def Ordered (s : Scopes) : Prop := ∀ id parent, s.parent? id = some parent → parent < id

/-- **What a cancellation newly cancels**: the way down leads through held scopes that are not cancelled. -/
def Spreads (s : Scopes) (top id : ScopeId) : Prop :=
  s.reason? top = none ∧ s.Path (fun id => s.isHeld id ∧ s.reason? id = none) top id

/-- One step of the way: a scope is newly cancelled for its own sake or for that of its parent. -/
theorem spreads_iff :
    s.Spreads top id ↔ s.reason? id = none ∧
      (id = top ∨ s.isHeld id ∧ ∃ parent, s.parent? id = some parent ∧ s.Spreads top parent) := by
  constructor
  · rintro ⟨htop, hpath⟩
    cases hpath with
    | top => exact ⟨htop, .inl rfl⟩
    | down hparent hid hpath => exact ⟨hid.2, .inr ⟨hid.1, _, hparent, htop, hpath⟩⟩
  · rintro ⟨hid, rfl | ⟨hheld, parent, hparent, htop, hpath⟩⟩
    · exact ⟨hid, .top⟩
    · exact ⟨htop, .down hparent ⟨hheld, hid⟩ hpath⟩

/-- **One pass over the scopes** cancels just those to which the cancellation spreads, since a parent is
passed before its children. -/
theorem getElem?_spread (ho : s.Ordered) (top : ScopeId) (reason : CancelReason) (list : List Scope) :
    ∀ reached i, (∀ j : Nat, list[j]? = s.list[i + j]?) →
      (∀ id, id ∈ reached ↔ id < i ∧ s.Spreads top id) → ∀ j : Nat,
        (s.Spreads top (i + j) → (spread top reason reached i list)[j]? =
          (list[j]?).map fun scope : Scope => { scope with reason := some reason }) ∧
        (¬s.Spreads top (i + j) → (spread top reason reached i list)[j]? = list[j]?) := by
  -- the invariant of the pass: `reached` holds just those before place `i` that the cancellation spreads to
  induction list with
  | nil => exact fun _ _ _ _ _ => ⟨fun _ => rfl, fun _ => rfl⟩
  | cons first rest ih =>
    intro reached i hlist hreached j
    have hfirst : s.list[i]? = some first := (hlist 0).symm
    -- what the pass tests is one step of the way
    have htest : ((i == top || (first.held && first.parent.any reached.contains)) &&
        first.reason.isNone) = true ↔ s.Spreads top i := by
      rw [spreads_iff]
      simp only [reason?, isHeld, parent?, hfirst, Option.bind_some, Option.any_some, Bool.and_eq_true,
        Bool.or_eq_true, beq_iff_eq, Option.isNone_iff_eq_none, Option.any_eq_true]
      rw [and_comm]
      refine and_congr_right fun _ => or_congr_right (and_congr_right fun _ => exists_congr fun p => ?_)
      refine and_congr_right fun hp => ?_
      -- a parent comes before place `i`, where `reached` is complete
      have hlt : p < i := ho i p (by rw [parent?, hfirst]; exact hp)
      rw [List.contains_iff_mem, hreached]
      exact and_iff_right hlt
    have hrest : ∀ k : Nat, rest[k]? = s.list[i + 1 + k]? := by
      intro k
      rw [Nat.add_right_comm, Nat.add_assoc, ← hlist, List.getElem?_cons_succ]
    have hmore : ∀ id, id < i + 1 ∧ s.Spreads top id ↔
        (id < i ∧ s.Spreads top id) ∨ id = i ∧ s.Spreads top i := by
      intro id
      rw [Nat.lt_succ_iff_lt_or_eq, or_and_right]
      exact or_congr_right (and_congr_right fun heq => by rw [heq])
    by_cases hspreads : s.Spreads top i
    · have hstep : spread top reason reached i (first :: rest) =
          { first with reason := some reason } :: spread top reason (i :: reached) (i + 1) rest :=
        if_pos (htest.2 hspreads)
      rw [hstep]
      cases j with
      | zero => exact ⟨fun _ => rfl, fun hno => absurd hspreads hno⟩
      | succ j =>
        have ih := ih (i :: reached) (i + 1) hrest (fun id => by
          rw [List.mem_cons, hreached, hmore, or_comm, and_iff_left hspreads]) j
        rw [Nat.add_right_comm] at ih
        exact ih
    · have hstep : spread top reason reached i (first :: rest) =
          first :: spread top reason reached (i + 1) rest := if_neg (mt htest.1 hspreads)
      rw [hstep]
      cases j with
      | zero => exact ⟨fun hyes => absurd hyes hspreads, fun _ => rfl⟩
      | succ j =>
        have ih := ih reached (i + 1) hrest (fun id => by
          rw [hreached, hmore, or_iff_left fun h => hspreads h.2]) j
        rw [Nat.add_right_comm] at ih
        exact ih

section Cancel

variable (ho : s.Ordered) (top : ScopeId) (reason : CancelReason) (id : ScopeId)
include ho

/-- A cancellation changes the reasons of the scopes to which it spreads, and nothing else. -/
theorem getElem?_cancel :
    (s.Spreads top id → (s.cancel top reason).list[id]? =
      (s.list[id]?).map fun scope : Scope => { scope with reason := some reason }) ∧
    (¬s.Spreads top id → (s.cancel top reason).list[id]? = s.list[id]?) := by
  have hlist : ∀ j : Nat, s.list[j]? = s.list[0 + j]? := fun j => by rw [Nat.zero_add]
  have hpass := getElem?_spread ho top reason s.list [] 0 hlist (by simp) id
  rw [Nat.zero_add] at hpass
  exact hpass

theorem parent?_cancel : (s.cancel top reason).parent? id = s.parent? id := by
  obtain ⟨hyes, hno⟩ := getElem?_cancel ho top reason id
  rw [parent?, parent?]
  by_cases hspreads : s.Spreads top id
  · rw [hyes hspreads]
    cases s.list[id]? <;> rfl
  · rw [hno hspreads]

theorem isHeld_cancel : (s.cancel top reason).isHeld id = s.isHeld id := by
  obtain ⟨hyes, hno⟩ := getElem?_cancel ho top reason id
  rw [isHeld, isHeld]
  by_cases hspreads : s.Spreads top id
  · rw [hyes hspreads]
    cases s.list[id]? <;> rfl
  · rw [hno hspreads]

theorem reason?_cancel_of_spreads (hyes : s.Spreads top id) (hlt : id < s.list.length) :
    (s.cancel top reason).reason? id = some reason := by
  rw [reason?, (getElem?_cancel ho top reason id).1 hyes, List.getElem?_eq_getElem hlt]
  rfl

theorem reason?_cancel_of_not_spreads (hno : ¬s.Spreads top id) :
    (s.cancel top reason).reason? id = s.reason? id := by
  rw [reason?, reason?, (getElem?_cancel ho top reason id).2 hno]

/-- The first reason of a scope stays. -/
theorem reason?_cancel_of_some {why : CancelReason} (h : s.reason? id = some why) :
    (s.cancel top reason).reason? id = some why := by
  rw [reason?_cancel_of_not_spreads ho top reason id, h]
  intro hyes
  rw [(spreads_iff.1 hyes).1] at h
  cases h

end Cancel

/-! ## Sound forests -/

/-- **A forest is sound** if parents come before their children, and no held scope is behind its parent:
it is cancelled if the parent is. -/
structure Sound (s : Scopes) : Prop where
  ordered : s.Ordered
  inherits : ∀ id parent, s.parent? id = some parent → s.isHeld id → (s.reason? parent).isSome →
    (s.reason? id).isSome

theorem Sound.cancel (hs : s.Sound) (top : ScopeId) (reason : CancelReason) :
    (s.cancel top reason).Sound := by
  obtain ⟨ho, hinherits⟩ := hs
  refine ⟨fun id parent hparent => ?_, fun id parent hparent hheld hcancelled => ?_⟩
  · rw [parent?_cancel ho] at hparent
    exact ho id parent hparent
  · rw [parent?_cancel ho] at hparent
    rw [isHeld_cancel ho] at hheld
    cases hid : s.reason? id with
    | some why => rw [reason?_cancel_of_some ho top reason id hid]; rfl
    | none =>
      by_cases hspreads : s.Spreads top parent
      · -- the parent is newly cancelled, and so is the scope
        have hspreads : s.Spreads top id := spreads_iff.2 ⟨hid, .inr ⟨hheld, parent, hparent, hspreads⟩⟩
        rw [reason?_cancel_of_spreads ho top reason id hspreads (lt_of_parent? hparent)]
        rfl
      · rw [reason?_cancel_of_not_spreads ho top reason parent hspreads] at hcancelled
        have hsome := hinherits id parent hparent hheld hcancelled
        rw [hid] at hsome
        cases hsome

theorem Sound.release (hs : s.Sound) (isHeld : ScopeId → Bool) : (s.release isHeld).Sound := by
  refine ⟨fun id parent hparent => ?_, fun id parent hparent hheld hcancelled => ?_⟩
  · rw [parent?_release] at hparent
    exact hs.ordered id parent hparent
  · rw [parent?_release] at hparent
    rw [isHeld_release, Bool.and_eq_true] at hheld
    rw [reason?_release] at hcancelled ⊢
    exact hs.inherits id parent hparent hheld.1 hcancelled

/-- **In a sound forest** all scopes below a cancelled one through held ones are cancelled. -/
theorem Sound.isSome_reason?_of_path (hs : s.Sound) (htop : (s.reason? top).isSome)
    (hpath : s.Path (fun id => s.isHeld id) top id) : (s.reason? id).isSome := by
  induction hpath with
  | top => exact htop
  | down hparent hheld _ ih => exact hs.inherits _ _ hparent hheld ih

/-- **A cancellation reaches just the scopes below it through held ones.** -/
theorem Sound.isSome_reason?_cancel (hs : s.Sound) (htop : top < s.list.length) (reason : CancelReason)
    (id : ScopeId) :
    ((s.cancel top reason).reason? id).isSome ↔
      (s.reason? id).isSome ∨ s.Path (fun id => s.isHeld id) top id := by
  have ho := hs.ordered
  constructor
  · intro hcancelled
    by_cases hspreads : s.Spreads top id
    · exact .inr (hspreads.2.mono fun _ h => h.1)
    · rw [reason?_cancel_of_not_spreads ho top reason id hspreads] at hcancelled
      exact .inl hcancelled
  · rintro (hcancelled | hpath)
    · obtain ⟨why, hwhy⟩ := Option.isSome_iff_exists.1 hcancelled
      rw [reason?_cancel_of_some ho top reason id hwhy]
      rfl
    · -- the way down may lead through scopes that were cancelled before: soundness carries it past them
      refine (hs.cancel top reason).isSome_reason?_of_path ?_ ((hpath.congr (parent?_cancel ho top reason)).mono
        fun id h => by rw [isHeld_cancel ho]; exact h)
      cases hid : s.reason? top with
      | some why => rw [reason?_cancel_of_some ho top reason top hid]; rfl
      | none => rw [reason?_cancel_of_spreads ho top reason top ⟨hid, .top⟩ htop]; rfl

/-! ## Moves -/

section Add

variable {source : Option ScopeId}

theorem parent?_add_of_lt (source : Option ScopeId) (h : id < s.list.length) :
    (s.add source).2.parent? id = s.parent? id := by
  rw [parent?, parent?, getElem?_add_of_lt s source h]

theorem reason?_add_of_lt (source : Option ScopeId) (h : id < s.list.length) :
    (s.add source).2.reason? id = s.reason? id := by
  rw [reason?, reason?, getElem?_add_of_lt s source h]

theorem isHeld_add_of_lt (source : Option ScopeId) (h : id < s.list.length) :
    (s.add source).2.isHeld id = s.isHeld id := by
  rw [isHeld, isHeld, getElem?_add_of_lt s source h]

/-- The only new scope is the derived one, which takes over the reason of its parent. -/
theorem parent?_add_of_le (hle : s.list.length ≤ id) (hparent : (s.add source).2.parent? id = some parent) :
    id = s.list.length ∧ source = some parent ∧ (s.add source).2.reason? id = s.reason? parent := by
  have hlt := lt_of_parent? hparent
  rw [length_add] at hlt
  obtain rfl : id = s.list.length := Nat.le_antisymm (Nat.le_of_lt_succ hlt) hle
  rw [parent?, getElem?_add_self] at hparent
  obtain rfl : source = some parent := hparent
  exact ⟨rfl, rfl, s.reason?_add (some parent)⟩

theorem Sound.add (hs : s.Sound) (hsource : ∀ parent, source = some parent → parent < s.list.length) :
    (s.add source).2.Sound := by
  refine ⟨fun id parent hparent => ?_, fun id parent hparent hheld hcancelled => ?_⟩
  · rcases Nat.lt_or_ge id s.list.length with hlt | hle
    · rw [parent?_add_of_lt source hlt] at hparent
      exact hs.ordered id parent hparent
    · obtain ⟨rfl, rfl, -⟩ := parent?_add_of_le hle hparent
      exact hsource parent rfl
  · rcases Nat.lt_or_ge id s.list.length with hlt | hle
    · rw [parent?_add_of_lt source hlt] at hparent
      rw [isHeld_add_of_lt source hlt] at hheld
      rw [reason?_add_of_lt source (Nat.lt_trans (hs.ordered id parent hparent) hlt)] at hcancelled
      rw [reason?_add_of_lt source hlt]
      exact hs.inherits id parent hparent hheld hcancelled
    · obtain ⟨rfl, rfl, hreason⟩ := parent?_add_of_le hle hparent
      rw [reason?_add_of_lt _ (hsource parent rfl)] at hcancelled
      rw [hreason]
      exact hcancelled

end Add

/-- **What can happen to scopes**: one is cancelled, some are let go, or one is derived first. -/
inductive Move : Scopes → Scopes → Prop
  | stay (s : Scopes) : Move s s
  | cancel (s : Scopes) (top : ScopeId) (reason : CancelReason) : Move s (s.cancel top reason)
  | release (s : Scopes) (isHeld : ScopeId → Bool) : Move s (s.release isHeld)
  | derive (s : Scopes) (source : Option ScopeId) (isHeld : ScopeId → Bool)
      (hsource : ∀ parent, source = some parent → parent < s.list.length) :
      Move s ((s.add source).2.release isHeld)

/-- **What a move keeps**: scopes with their parents and reasons. What it adds is derived and takes over
the reason of its parent. -/
structure Extends (s t : Scopes) : Prop where
  length_le : s.list.length ≤ t.list.length
  parent : ∀ id, id < s.list.length → t.parent? id = s.parent? id
  reason : ∀ id why, s.reason? id = some why → t.reason? id = some why
  derived : ∀ id parent, s.list.length ≤ id → t.parent? id = some parent →
    parent < s.list.length ∧ t.reason? id = s.reason? parent

theorem Move.extends (h : Move s t) (hs : s.Sound) : s.Extends t := by
  have hold : ∀ {id parent : ScopeId} {P : Prop}, s.list.length ≤ id → s.parent? id = some parent → P :=
    fun hle hparent => absurd (lt_of_parent? hparent) (Nat.not_lt.2 hle)
  cases h with
  | stay => exact ⟨Nat.le_refl _, fun _ _ => rfl, fun _ _ h => h, fun _ _ hle h => hold hle h⟩
  | cancel top reason =>
    refine ⟨Nat.le_of_eq (s.length_cancel top reason).symm, fun id _ => parent?_cancel hs.ordered top reason id,
      fun id _ h => reason?_cancel_of_some hs.ordered top reason id h, fun id parent hle h => ?_⟩
    rw [parent?_cancel hs.ordered] at h
    exact hold hle h
  | release isHeld =>
    refine ⟨Nat.le_of_eq (length_release s isHeld).symm, fun id _ => parent?_release s isHeld id,
      fun id _ h => (reason?_release s isHeld id).trans h, fun id parent hle h => ?_⟩
    rw [parent?_release] at h
    exact hold hle h
  | derive source isHeld hsource =>
    refine ⟨?_, fun id hlt => ?_, fun id why h => ?_, fun id parent hle h => ?_⟩
    · rw [length_release, length_add]
      exact Nat.le_succ _
    · rw [parent?_release, parent?_add_of_lt source hlt]
    · rw [reason?_release, reason?_add_of_lt source (lt_of_reason? h), h]
    · rw [parent?_release] at h
      obtain ⟨-, hparent, hreason⟩ := parent?_add_of_le hle h
      exact ⟨hsource parent hparent, (reason?_release _ _ _).trans hreason⟩

end CallGuard.Scopes
