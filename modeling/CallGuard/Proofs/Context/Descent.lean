import CallGuard.Proofs.Cancel.Reach
import Mathlib.Order.Bounds.Basic

/-!
# What a context reports

Contexts are derived from one another, and each derivation sets one thing: a scope with its
handle, a deadline or a value. What was set on the way from a context without anything down
to a given one is its **descent**. While no handle is given up, a context reports what its
descent says, whatever is derived and cancelled beside it.

Runs are lists of actions, the latest first.

* `Session.descent`: what was set on the way to a context.
* `Session.fits`: an action that lets contexts grow and gives up no handle.
* `Session.Climbs`: the scopes above a context are those of the handles in its descent.
* `Session.spreads_iff_mem`: a cancellation spreads to the scopes that have its handle in their descent.
* `Session.step_grown`: an action keeps scopes, contexts and their descents in step.
* `Session.reports_run`: **a context reports the first cancellation by a handle of its descent, or else its
  earliest deadline, and the last value of a key.**
-/

namespace CallGuard.Session

/-! ## Descent -/

/-- What a derivation sets: a scope that a handle cancels, a deadline or a value. -/
inductive Setting where
  | scope (handle : String)
  | deadline (time : Instant)
  | value (key value : String)
deriving DecidableEq

namespace Setting

def handle? : Setting → Option String
  | scope handle => some handle
  | _ => none

def deadline? : Setting → Option Instant
  | deadline time => some time
  | _ => none

def value? (key : String) : Setting → Option String
  | value other text => if key = other then some text else none
  | _ => none

/-- The handles of the scopes that were set. -/
def handles (settings : List Setting) : List String := settings.filterMap handle?

/-- The deadlines that were set. -/
def deadlines (settings : List Setting) : List Instant := settings.filterMap deadline?

/-- The value that was set last for a key. -/
def lastValue (key : String) (settings : List Setting) : Option String := settings.findSome? (value? key)

end Setting

/-- The milliseconds that have passed in a run. -/
def clock : List Action → Nat
  | [] => 0
  | .advance ms :: past => clock past + ms
  | _ :: past => clock past

/-- **What an action derives** after so many milliseconds: from which context, under which name, and what it
sets. A deadline after the last instant cannot be set. -/
def derives? (now : Nat) : Action → Option (String × String × Setting)
  | .withCancel source name handle => some (source, name, .scope handle)
  | .withValue source name key value => some (source, name, .value key value)
  | .withTimeout source name timeout =>
    (Instant.ofNanos? ((nanosPerMilli * now : Nat) + timeout.nanos)).map fun time => (source, name, .deadline time)
  | .withDeadline source name deadline =>
    (Instant.origin.add? deadline).map fun time => (source, name, .deadline time)
  | _ => none

/-- **The descent of a context** after a run: what was set on the way to it, the latest first. -/
def descent : List Action → String → Option (List Setting)
  | [], _ => none
  | .background other :: past, name => if name = other then some [] else descent past name
  | a :: past, name =>
    match derives? (clock past) a with
    | none => descent past name
    | some (source, other, setting) =>
      match descent past source with
      | none => descent past name
      | some settings => if name = other then some (setting :: settings) else descent past name

/-- The handles that a run has made. -/
def issued : List Action → List String
  | [] => []
  | .withCancel _ _ handle :: past => handle :: issued past
  | _ :: past => issued past

/-- The reason that an action gives to the scopes of handles. -/
def cancels? (handles : List String) : Action → Option CancelReason
  | .cancel handle reason => if handle ∈ handles then some reason else none
  | _ => none

/-- **The first cancellation** by one of the handles. -/
def firstCancel (handles : List String) (past : List Action) : Option CancelReason :=
  past.reverse.findSome? (cancels? handles)

/-- **An action that lets contexts grow**: it derives from a context that is there or cancels by a handle
that was made, and a handle that it makes is new. -/
def fits (past : List Action) : Action → Bool
  | .background _ | .advance _ => true
  | .withCancel source _ handle => (descent past source).isSome && !(issued past).contains handle
  | .withValue source _ _ _ | .withTimeout source _ _ | .withDeadline source _ _ => (descent past source).isSome
  | .cancel handle _ => (issued past).contains handle
  | _ => false

/-- A run of such actions. -/
def grows : List Action → Bool
  | [] => true
  | a :: past => fits past a && grows past

/-- The name that an action gives to a context. -/
def name? : Action → Option String
  | .background name | .withCancel _ name _ | .withValue _ name _ _ | .withTimeout _ name _
  | .withDeadline _ name _ => some name
  | _ => none

variable {s t : Session} {past : List Action} {a : Action} {name handle source other : String} {c d : Context}
  {id top : ScopeId} {scope : Option ScopeId} {path : List String} {setting : Setting} {settings : List Setting}
  {reason : CancelReason}

theorem firstCancel_cons (path : List String) (a : Action) (past : List Action) :
    firstCancel path (a :: past) = (firstCancel path past).or (cancels? path a) := by
  rw [firstCancel, List.reverse_cons, List.findSome?_append, List.findSome?_singleton]
  rfl

/-- Without a cancellation for more handles there is none for fewer. -/
theorem firstCancel_tail (h : firstCancel (handle :: path) past = none) : firstCancel path past = none := by
  rw [firstCancel, List.findSome?_eq_none_iff] at h ⊢
  intro a ha
  have hnone := h a ha
  cases a with
  | cancel other reason =>
    simp only [cancels?, List.mem_cons, ite_eq_right_iff, reduceCtorEq, imp_false, not_or] at hnone ⊢
    exact hnone.2
  | _ => rfl

/-- A handle that was not made has cancelled nothing. -/
theorem firstCancel_of_not_mem (h : grows past) (hnew : handle ∉ issued past) :
    firstCancel (handle :: path) past = firstCancel path past := by
  induction past with
  | nil => rfl
  | cons a past ih =>
    obtain ⟨hfits, h⟩ := Bool.and_eq_true_iff.1 h
    have hmade : handle ∉ issued past := by
      cases a with
      | withCancel source name other => exact fun hmem => hnew (List.mem_cons_of_mem _ hmem)
      | _ => exact hnew
    have hsame : cancels? (handle :: path) a = cancels? path a := by
      cases a with
      | cancel other reason =>
        have hother : other ∈ issued past := List.contains_iff_mem.1 hfits
        have hne : other ≠ handle := fun heq => hmade (heq ▸ hother)
        simp only [cancels?, List.mem_cons, hne, false_or]
      | _ => rfl
    rw [firstCancel_cons, firstCancel_cons, ih h hmade, hsame]

theorem descent_derives (h : derives? (clock past) a = some (source, other, setting))
    (hsource : descent past source = some settings) (name : String) :
    descent (a :: past) name = if name = other then some (setting :: settings) else descent past name := by
  cases a with
  | background => cases h
  | _ => rw [descent, h] <;> simp [hsource]

theorem descent_of_none (h : derives? (clock past) a = none) (hname : ∀ name, a ≠ .background name)
    (name : String) : descent (a :: past) name = descent past name := by
  cases a with
  | background other => exact absurd rfl (hname other)
  | _ => rw [descent, h]; simp

/-! ## What a context carries -/

/-- **A context carries what was set**: the earliest deadline, and the last value of every key. -/
structure Carries (c : Context) (settings : List Setting) : Prop where
  least : ∀ d, c.deadline = some d → IsLeast {d | d ∈ Setting.deadlines settings} d
  free : c.deadline = none → Setting.deadlines settings = []
  value : ∀ key, c.value key = Setting.lastValue key settings

theorem carries_background : Carries .background [] := by
  refine ⟨fun d h => ?_, fun _ => rfl, fun _ => rfl⟩
  cases h

theorem Carries.withScope (h : Carries c settings) (id : ScopeId) (handle : String) :
    Carries (c.withScope id) (.scope handle :: settings) :=
  ⟨h.least, h.free, h.value⟩

theorem Carries.withValue (h : Carries c settings) (key value : String) :
    Carries (c.withValue key value) (.value key value :: settings) := by
  refine ⟨h.least, h.free, fun other => ?_⟩
  rw [Context.value_withValue, h.value]
  by_cases hkey : other = key <;> simp [Setting.lastValue, Setting.value?, hkey]

theorem Carries.withDeadline (h : Carries c settings) (time : Instant) :
    Carries (c.withDeadline time) (.deadline time :: settings) := by
  have hset : Setting.deadlines (.deadline time :: settings) = time :: Setting.deadlines settings := rfl
  unfold Context.withDeadline
  cases hd : c.deadline with
  | none =>
    refine ⟨fun d hdeadline => ?_, nofun, h.value⟩
    cases hdeadline
    rw [hset, h.free hd]
    exact ⟨List.mem_cons_self, fun e he => Int.le_of_eq (by rw [List.mem_singleton.1 he])⟩
  | some existing =>
    obtain ⟨hmem, hleast⟩ := h.least existing hd
    refine ⟨fun d hdeadline => ?_, nofun, h.value⟩
    cases hdeadline
    rw [hset]
    split
    · rename_i hlt
      refine ⟨List.mem_cons_of_mem _ hmem, fun e he => ?_⟩
      rcases List.mem_cons.1 he with rfl | he
      · exact Int.le_of_lt hlt
      · exact hleast he
    · rename_i hge
      refine ⟨List.mem_cons_self, fun e he => ?_⟩
      rcases List.mem_cons.1 he with rfl | he
      · exact Int.le_refl _
      · exact Int.le_trans (Int.not_lt.1 hge) (hleast he)

/-! ## Scopes and handles -/

/-- **The way up** from a scope leads through the scopes of handles, to one without a parent. -/
def Climbs (s : Session) : Option ScopeId → List String → Prop
  | scope, [] => scope = none
  | scope, handle :: path =>
    ∃ id, scope = some id ∧ s.handles.get? handle = some id ∧ Climbs s (s.scopes.parent? id) path

/-- The way up is the same where handles and parents are. -/
theorem climbs_congr {P : ScopeId → Prop} (hparent : ∀ id, P id → t.scopes.parent? id = s.scopes.parent? id)
    (hhandles : ∀ id, P id → ∀ handle, t.handles.get? handle = some id ↔ s.handles.get? handle = some id)
    (hup : ∀ id parent, P id → s.scopes.parent? id = some parent → P parent) :
    (∀ id, scope = some id → P id) → (t.Climbs scope path ↔ s.Climbs scope path) := by
  induction path generalizing scope with
  | nil => exact fun _ => Iff.rfl
  | cons handle path ih =>
    intro hscope
    refine exists_congr fun id => and_congr_right fun hid => ?_
    have hin := hscope id hid
    rw [hhandles id hin, hparent id hin]
    exact and_congr_right fun _ => ih fun parent hp => hup id parent hin hp

theorem climbs_iff (hparent : ∀ id, t.scopes.parent? id = s.scopes.parent? id) (hhandles : t.handles = s.handles) :
    t.Climbs scope path ↔ s.Climbs scope path :=
  climbs_congr (P := fun _ => True) (fun id _ => hparent id) (fun _ _ _ => by rw [hhandles])
    (fun _ _ _ _ => trivial) fun _ _ => trivial

/-- **Session and run are in step**: the clock is, the handles are those that were made, each for a scope of
its own, the contexts are those that have a descent, and a scope is cancelled for the first reason given. -/
structure Grown (s : Session) (past : List Action) : Prop where
  now : s.timeline.now = clock past
  handles : ∀ handle, (s.handles.get? handle).isSome ↔ handle ∈ issued past
  apart : ∀ handle other id, s.handles.get? handle = some id → s.handles.get? other = some id → handle = other
  contexts : ∀ name, Option.Rel (fun c settings => s.Climbs c.scope (Setting.handles settings) ∧ Carries c settings)
    (s.contexts.get? name) (descent past name)
  reason : ∀ scope path, s.Climbs scope path → scope.bind s.scopes.reason? = firstCancel path past

theorem grown_start : Grown start [] where
  now := rfl
  handles handle := by simp [start, issued]
  apart handle other id h := by cases h
  contexts name := .none
  reason scope path h := by
    cases path with
    | nil => rw [show scope = none from h]; rfl
    | cons handle path =>
      obtain ⟨id, -, hid, -⟩ := h
      cases hid

theorem holds_handle (h : s.handles.get? handle = some id) : s.holds id :=
  (holds_iff s id).2 (.inr (.inr ⟨handle, h⟩))

/-- A way up starts at a scope that is there. -/
theorem lt_of_climbs (hs : s.Sound) (h : s.Climbs (some id) path) : id < s.scopes.list.length := by
  cases path with
  | nil => cases h
  | cons own path =>
    obtain ⟨_, heq, hown, -⟩ := h
    cases heq
    exact hs.lt_of_holds (holds_handle hown)

/-- **A cancellation spreads** to the scopes that have its handle on their way up, where none was cancelled. -/
theorem spreads_iff_mem (hs : s.Sound) (hg : s.Grown past) (htop : s.handles.get? handle = some top)
    (hclimbs : s.Climbs (some id) path) (hopen : firstCancel path past = none) :
    s.scopes.Spreads top id ↔ handle ∈ path := by
  induction path generalizing id with
  | nil => cases hclimbs
  | cons own path ih =>
    have hreason : s.scopes.reason? id = none := (hg.reason _ _ hclimbs).trans hopen
    obtain ⟨_, heq, hown, hpath⟩ := hclimbs
    cases heq
    have hheld : s.scopes.isHeld id := (hs.held id).trans (holds_handle hown)
    have hself : id = top ↔ handle = own := by
      constructor
      · rintro rfl
        exact hg.apart handle own id htop hown
      · rintro rfl
        exact Option.some.inj (hown.symm.trans htop)
    have habove :
        (∃ parent, s.scopes.parent? id = some parent ∧ s.scopes.Spreads top parent) ↔ handle ∈ path := by
      cases hparent : s.scopes.parent? id with
      | none =>
        rw [hparent] at hpath
        cases path with
        | nil => simp
        | cons other path =>
          obtain ⟨_, hno, -⟩ := hpath
          cases hno
      | some parent =>
        rw [hparent] at hpath
        rw [← ih hpath (firstCancel_tail hopen)]
        simp
    rw [Scopes.spreads_iff, hself, habove, List.mem_cons]
    exact ⟨fun h => h.2.imp_right And.right, fun h => ⟨hreason, h.imp_right fun hmem => ⟨hheld, hmem⟩⟩⟩

/-! ## What the actions do -/

/-- A context under a name, with what it carries. -/
theorem Grown.setContext (hg : s.Grown past) (hclock : clock (a :: past) = clock past)
    (hissued : issued (a :: past) = issued past) (hcancels : ∀ path, cancels? path a = none)
    (hscope : s.Climbs d.scope (Setting.handles settings)) (hcarries : Carries d settings)
    (hdescent : ∀ name, descent (a :: past) name = if name = other then some settings else descent past name) :
    (s.setContext other d).Grown (a :: past) := by
  have hclimbs : ∀ scope path, (s.setContext other d).Climbs scope path ↔ s.Climbs scope path := fun scope path =>
    climbs_iff (fun id => Scopes.parent?_release _ _ id) rfl
  refine ⟨hg.now.trans hclock.symm, fun handle => ?_, hg.apart, fun name => ?_, fun scope path h => ?_⟩
  · rw [hissued]
    exact hg.handles handle
  · rw [hdescent]
    simp only [hclimbs]
    show Option.Rel _ ((s.contexts.set other d).get? name) _
    rw [KeyMap.get?_set]
    split
    · exact .some ⟨hscope, hcarries⟩
    · exact hg.contexts name
  · have hreason : (s.setContext other d).scopes.reason? = s.scopes.reason? :=
      funext fun id => Scopes.reason?_release _ _ id
    rw [hreason, firstCancel_cons, hcancels, Option.or_none]
    exact hg.reason scope path ((hclimbs scope path).1 h)

theorem Grown.setDeadline (hg : s.Grown past) (hclock : clock (a :: past) = clock past)
    (hissued : issued (a :: past) = issued past) (hcancels : ∀ path, cancels? path a = none)
    (hscope : s.Climbs c.scope (Setting.handles settings)) (hcarries : Carries c settings)
    (hsource : descent past source = some settings) {time : Instant}
    (hderives : derives? (clock past) a = some (source, name, .deadline time)) :
    (s.setContext name (c.withDeadline time)).Grown (a :: past) := by
  refine hg.setContext hclock hissued hcancels ?_ (hcarries.withDeadline time) (descent_derives hderives hsource)
  rw [scope_withDeadline]
  exact hscope

section Cancelable

variable (s c name handle)

/-! A new scope is below that of its context, and the older ones stay what they were. -/

theorem handles_setCancelable (other : String) : (s.setCancelable c name handle).handles.get? other =
    if other = handle then some s.scopes.list.length else s.handles.get? other :=
  KeyMap.get?_set _ _ _ other

theorem parent?_setCancelable_of_lt (hid : id < s.scopes.list.length) :
    (s.setCancelable c name handle).scopes.parent? id = s.scopes.parent? id :=
  (Scopes.parent?_release _ _ id).trans (Scopes.parent?_add_of_lt c.scope hid)

theorem reason?_setCancelable_of_lt (hid : id < s.scopes.list.length) :
    (s.setCancelable c name handle).scopes.reason? id = s.scopes.reason? id :=
  (Scopes.reason?_release _ _ id).trans (Scopes.reason?_add_of_lt c.scope hid)

theorem parent?_setCancelable : (s.setCancelable c name handle).scopes.parent? s.scopes.list.length = c.scope := by
  refine (Scopes.parent?_release _ _ _).trans ?_
  show ((s.scopes.add c.scope).2.list[s.scopes.list.length]?).bind Scope.parent = c.scope
  rw [Scopes.getElem?_add_self]
  rfl

theorem reason?_setCancelable : (s.setCancelable c name handle).scopes.reason? s.scopes.list.length =
    c.scope.bind s.scopes.reason? :=
  (Scopes.reason?_release _ _ _).trans (s.scopes.reason?_add c.scope)

variable {s c handle}

/-- A way up starts at the new scope or at one that was there. -/
theorem lt_or_eq_of_climbs (hs : s.Sound) (h : (s.setCancelable c name handle).Climbs (some id) path) :
    id < s.scopes.list.length ∨ id = s.scopes.list.length := by
  cases path with
  | nil => cases h
  | cons own path =>
    obtain ⟨_, heq, hown, -⟩ := h
    cases heq
    rw [handles_setCancelable] at hown
    split at hown
    · exact .inr (Option.some.inj hown).symm
    · exact .inl (hs.lt_of_holds (holds_handle hown))

variable (hs : s.Sound) (hunused : s.handles.get? handle = none)
include hs hunused

theorem climbs_setCancelable (hscope : ∀ id, scope = some id → id < s.scopes.list.length) :
    (s.setCancelable c name handle).Climbs scope path ↔ s.Climbs scope path := by
  refine climbs_congr (fun id hid => parent?_setCancelable_of_lt s name handle c hid) (fun id hid other => ?_)
    (fun id parent hid hp => Nat.lt_trans (hs.scopes.ordered id parent hp) hid) hscope
  rw [handles_setCancelable]
  split
  · rename_i heq
    rw [heq, hunused]
    exact ⟨fun h => absurd (Option.some.inj h) (Nat.ne_of_gt hid), nofun⟩
  · exact Iff.rfl

/-- The way up from the new scope begins with its handle and goes on as that of the context. -/
theorem climbs_setCancelable_new (hc : ∀ id, c.scope = some id → id < s.scopes.list.length) :
    (s.setCancelable c name handle).Climbs (some s.scopes.list.length) path ↔
      ∃ above, path = handle :: above ∧ s.Climbs c.scope above := by
  constructor
  · intro h
    cases path with
    | nil => cases h
    | cons own above =>
      obtain ⟨id, hid, hown, habove⟩ := h
      cases hid
      rw [handles_setCancelable] at hown
      split at hown
      · rename_i heq
        rw [parent?_setCancelable, climbs_setCancelable name hs hunused hc] at habove
        exact ⟨above, by rw [heq], habove⟩
      · exact absurd (hs.lt_of_holds (holds_handle hown)) (Nat.lt_irrefl _)
  · rintro ⟨above, rfl, habove⟩
    refine ⟨_, rfl, ?_, ?_⟩
    · rw [handles_setCancelable, if_pos rfl]
    · rw [parent?_setCancelable]
      exact (climbs_setCancelable name hs hunused hc).2 habove

end Cancelable

/-- **A new scope with its handle**, below that of a context. -/
theorem Grown.setCancelable (hs : s.Sound) (hg : s.Grown past) (hgrows : grows past)
    (hc : s.contexts.get? source = some c) (hscope : s.Climbs c.scope (Setting.handles settings))
    (hcarries : Carries c settings) (hsource : descent past source = some settings) (hnew : handle ∉ issued past) :
    (s.setCancelable c name handle).Grown (.withCancel source name handle :: past) := by
  have hunused : s.handles.get? handle = none := by
    rw [← Option.not_isSome_iff_eq_none, hg.handles]
    exact hnew
  have hused : ∀ {other id}, s.handles.get? other = some id → s.scopes.list.length ≠ id := by
    intro other id h
    exact Nat.ne_of_gt (hs.lt_of_holds (holds_handle h))
  have hold : ∀ {name d}, s.contexts.get? name = some d →
      ∀ id, d.scope = some id → id < s.scopes.list.length := by
    intro name d hd id hid
    exact hs.lt_of_holds (holds_context hd id hid)
  refine ⟨hg.now, fun other => ?_, fun one other id h h' => ?_, fun other => ?_, fun scope path h => ?_⟩
  · rw [handles_setCancelable, issued, List.mem_cons, ← hg.handles]
    split <;> simp [*]
  · rw [handles_setCancelable] at h h'
    split at h <;> split at h'
    · rename_i h1 h2
      rw [h1, h2]
    · exact absurd (Option.some.inj h) (hused h')
    · exact absurd (Option.some.inj h') (hused h)
    · exact hg.apart one other id h h'
  · rw [descent_derives rfl hsource]
    show Option.Rel _ ((s.contexts.set name (c.withScope s.scopes.list.length)).get? other) _
    rw [KeyMap.get?_set]
    split
    · have hclimbs := (climbs_setCancelable_new name hs hunused (hold hc)).2 ⟨_, rfl, hscope⟩
      exact .some ⟨hclimbs, hcarries.withScope _ handle⟩
    · have hrel := hg.contexts other
      generalize descent past other = found at hrel ⊢
      cases hd : s.contexts.get? other with
      | none =>
        rw [hd] at hrel
        cases hrel
        exact .none
      | some d =>
        rw [hd] at hrel
        cases hrel with
        | some h => exact .some ⟨(climbs_setCancelable name hs hunused (hold hd)).2 h.1, h.2⟩
  · have hcancels : cancels? path (.withCancel source name handle) = none := rfl
    rw [firstCancel_cons, hcancels, Option.or_none]
    cases scope with
    | none =>
      rw [climbs_setCancelable name hs hunused (by simp)] at h
      exact hg.reason none path h
    | some id =>
      rcases lt_or_eq_of_climbs name hs h with hid | rfl
      · rw [climbs_setCancelable name hs hunused fun other heq => Option.some.inj heq ▸ hid] at h
        exact (reason?_setCancelable_of_lt s name handle c hid).trans (hg.reason _ _ h)
      · rw [climbs_setCancelable_new name hs hunused (hold hc)] at h
        obtain ⟨above, rfl, habove⟩ := h
        rw [firstCancel_of_not_mem hgrows hnew, ← hg.reason _ _ habove]
        exact reason?_setCancelable s name handle c

/-- **A cancellation by a handle** cancels the open scopes that have it on their way up. -/
theorem Grown.cancel (hs : s.Sound) (hg : s.Grown past) (htop : s.handles.get? handle = some top)
    (reason : CancelReason) : (s.step (.cancel handle reason)).2.Grown (.cancel handle reason :: past) := by
  have hstep : (s.step (.cancel handle reason)).2 = { s with timeline := s.timeline.cancel top reason } := by
    simp only [step, withScope, htop]
  have hscopes := scopes_cancel htop reason
  have ho := hs.scopes.ordered
  have hclimbs : ∀ scope path, (s.step (.cancel handle reason)).2.Climbs scope path ↔ s.Climbs scope path :=
    fun scope path => climbs_iff (fun id => by rw [hscopes, Scopes.parent?_cancel ho]) (by rw [hstep])
  refine ⟨?_, ?_, ?_, fun name => ?_, fun scope path h => ?_⟩
  · rw [hstep]
    exact hg.now
  · rw [hstep]
    exact hg.handles
  · rw [hstep]
    exact hg.apart
  · simp only [hclimbs]
    rw [descent_of_none rfl (by intro _ h; cases h), hstep]
    exact hg.contexts name
  · have hbefore := hg.reason scope path ((hclimbs scope path).1 h)
    rw [hclimbs] at h
    rw [firstCancel_cons, ← hbefore]
    cases scope with
    | none =>
      cases path with
      | nil => rfl
      | cons own path =>
        obtain ⟨_, hno, -⟩ := h
        cases hno
    | some id =>
      show (s.step (.cancel handle reason)).2.scopes.reason? id = (s.scopes.reason? id).or _
      rw [hscopes]
      cases hwhy : s.scopes.reason? id with
      | some why => exact Scopes.reason?_cancel_of_some ho top reason id hwhy
      | none =>
        have hspreads := spreads_iff_mem hs hg htop h (hbefore.symm.trans hwhy)
        rw [Option.none_or, cancels?]
        split
        · rename_i hmem
          exact Scopes.reason?_cancel_of_spreads ho top reason id (hspreads.2 hmem) (lt_of_climbs hs h)
        · rename_i hmem
          exact (Scopes.reason?_cancel_of_not_spreads ho top reason id (mt hspreads.1 hmem)).trans hwhy

/-- A context that is there has a descent. -/
theorem Grown.exists_of_descent (hg : s.Grown past) (h : (descent past source).isSome) :
    ∃ c settings, s.contexts.get? source = some c ∧ descent past source = some settings ∧
      s.Climbs c.scope (Setting.handles settings) ∧ Carries c settings := by
  have hrel := hg.contexts source
  obtain ⟨settings, hsettings⟩ := Option.isSome_iff_exists.1 h
  rw [hsettings] at hrel
  cases hc : s.contexts.get? source with
  | none =>
    rw [hc] at hrel
    cases hrel
  | some c =>
    rw [hc] at hrel
    cases hrel with
    | some h => exact ⟨c, settings, rfl, hsettings, h⟩

/-- Time may pass while nothing is derived. -/
theorem Grown.pass (hg : s.Grown past) (now : Nat) (hclock : now = clock (a :: past))
    (hissued : issued (a :: past) = issued past) (hcancels : ∀ path, cancels? path a = none)
    (hdescent : ∀ name, descent (a :: past) name = descent past name) :
    Grown { s with timeline := { s.timeline with now } } (a :: past) := by
  have hclimbs : ∀ scope path,
      Climbs { s with timeline := { s.timeline with now } } scope path ↔ s.Climbs scope path := by
    intro scope path
    exact climbs_iff (fun _ => rfl) rfl
  refine ⟨hclock, fun handle => ?_, hg.apart, fun name => ?_, fun scope path h => ?_⟩
  · rw [hissued]
    exact hg.handles handle
  · simp only [hclimbs]
    rw [hdescent]
    exact hg.contexts name
  · rw [firstCancel_cons, hcancels, Option.or_none]
    exact hg.reason scope path ((hclimbs scope path).1 h)

/-- **An action keeps session and run in step.** -/
theorem step_grown (hs : s.Sound) (hg : s.Grown past) (hgrows : grows past) (hfits : fits past a) :
    (s.step a).2.Grown (a :: past) := by
  cases a with
  | background other =>
    refine hg.setContext rfl rfl (fun _ => rfl) ?_ carries_background fun _ => rfl
    rfl
  | withCancel source name handle =>
    obtain ⟨hsome, hnew⟩ := Bool.and_eq_true_iff.1 hfits
    have hnew : handle ∉ issued past := by simpa using hnew
    obtain ⟨c, settings, hc, hsource, hscope, hcarries⟩ := hg.exists_of_descent hsome
    simp only [step, withContext, hc]
    exact hg.setCancelable hs hgrows hc hscope hcarries hsource hnew
  | withValue source name key value =>
    obtain ⟨c, settings, hc, hsource, hscope, hcarries⟩ := hg.exists_of_descent hfits
    simp only [step, withContext, hc]
    refine hg.setContext rfl rfl (fun _ => rfl) ?_ (hcarries.withValue key value) (descent_derives rfl hsource)
    exact hscope
  | withTimeout source name timeout =>
    obtain ⟨c, settings, hc, hsource, hscope, hcarries⟩ := hg.exists_of_descent hfits
    have hnanos : (s.timeline.nanos : Int) = (nanosPerMilli * clock past : Nat) := by rw [Timeline.nanos, hg.now]
    simp only [step, withContext, hc, Timeline.withTimeout, hnanos]
    cases htime : Instant.ofNanos? ((nanosPerMilli * clock past : Nat) + timeout.nanos) with
    | none => exact hg.pass _ hg.now rfl (fun _ => rfl) (descent_of_none (by rw [derives?, htime]; rfl) (by simp))
    | some time =>
      exact hg.setDeadline rfl rfl (fun _ => rfl) hscope hcarries hsource (by rw [derives?, htime]; rfl)
  | withDeadline source name deadline =>
    obtain ⟨c, settings, hc, hsource, hscope, hcarries⟩ := hg.exists_of_descent hfits
    simp only [step, withContext, hc, Instant.add]
    cases htime : Instant.origin.add? deadline with
    | none => exact hg.pass _ hg.now rfl (fun _ => rfl) (descent_of_none (by rw [derives?, htime]; rfl) (by simp))
    | some time =>
      exact hg.setDeadline rfl rfl (fun _ => rfl) hscope hcarries hsource (by rw [derives?, htime]; rfl)
  | cancel handle reason =>
    have hmade : handle ∈ issued past := List.contains_iff_mem.1 hfits
    obtain ⟨top, htop⟩ := Option.isSome_iff_exists.1 ((hg.handles handle).2 hmade)
    exact hg.cancel hs htop reason
  | advance ms =>
    exact hg.pass _ (congrArg (· + ms) hg.now) rfl (fun _ => rfl) (descent_of_none rfl (by simp))
  | _ => cases hfits

theorem run_reverse_cons (a : Action) (past : List Action) :
    start.run (a :: past).reverse = ((start.run past.reverse).step a).2 := by
  simp [run, List.foldl_append]

/-- **A run keeps them in step.** -/
theorem run_grown (h : grows past) : (start.run past.reverse).Grown past := by
  induction past with
  | nil => exact grown_start
  | cons a past ih =>
    obtain ⟨hfits, hgrows⟩ := Bool.and_eq_true_iff.1 h
    rw [run_reverse_cons]
    exact step_grown (run_sound sound_start past.reverse) (ih hgrows) hgrows hfits

/-! ## What a context reports -/

/-- **A context reports its descent.** At any time it is over for the reason of the first cancellation by a handle
of its descent. If there was none, it is over for its deadline once the earliest of those that were set is reached,
and else it is not. A cancellation by any other handle changes nothing. A key has the value that was set last.
Actions for other names leave the context as it is. -/
structure Reports (s : Session) (past : List Action) (name : String) (c : Context) (settings : List Setting) :
    Prop where
  err_iff : ∀ (now : Int) reason, c.err s.scopes now = some reason ↔
    firstCancel (Setting.handles settings) past = some reason ∨
      firstCancel (Setting.handles settings) past = none ∧ reason = .deadlineExceeded ∧
        ∃ deadline, IsLeast {d | d ∈ Setting.deadlines settings} deadline ∧ deadline.nanos ≤ now
  spared : ∀ handle reason, handle ∉ Setting.handles settings → ∀ now,
    c.err (s.step (.cancel handle reason)).2.scopes now = c.err s.scopes now
  value : ∀ key, c.value key = Setting.lastValue key settings
  stays : ∀ a, fits past a → name? a ≠ some name → (s.step a).2.contexts.get? name = some c

theorem Grown.cancelled? (hg : s.Grown past) (h : s.Climbs c.scope path) :
    c.cancelled? s.scopes = firstCancel path past := hg.reason c.scope path h

theorem Grown.err_iff (hg : s.Grown past) (hscope : s.Climbs c.scope (Setting.handles settings))
    (hcarries : Carries c settings) (now : Int) (reason : CancelReason) :
    c.err s.scopes now = some reason ↔
      firstCancel (Setting.handles settings) past = some reason ∨
        firstCancel (Setting.handles settings) past = none ∧ reason = .deadlineExceeded ∧
          ∃ deadline, IsLeast {d | d ∈ Setting.deadlines settings} deadline ∧ deadline.nanos ≤ now := by
  unfold Context.err
  rw [hg.cancelled? hscope]
  cases firstCancel (Setting.handles settings) past with
  | some first => simp
  | none =>
    cases hd : c.deadline with
    | none =>
      have hnone :
          ¬∃ deadline, IsLeast {d | d ∈ Setting.deadlines settings} deadline ∧ deadline.nanos ≤ now := by
        rintro ⟨deadline, ⟨hmem, -⟩, -⟩
        rw [hcarries.free hd] at hmem
        cases hmem
      simp [hnone]
    | some deadline =>
      have hleast := hcarries.least deadline hd
      have hover :
          (∃ deadline, IsLeast {d | d ∈ Setting.deadlines settings} deadline ∧ deadline.nanos ≤ now) ↔
            deadline.nanos ≤ now := by
        constructor
        · rintro ⟨other, hother, hle⟩
          exact Int.le_trans (hleast.2 hother.1) hle
        · exact fun hle => ⟨deadline, hleast, hle⟩
      rw [hover]
      by_cases hle : deadline.nanos ≤ now
      · simp [hle, eq_comm]
      · simp [hle]

/-- A cancellation by a handle that is not in the descent of a context does not concern it. -/
theorem Grown.spared (hs : s.Sound) (hg : s.Grown past) (hscope : s.Climbs c.scope path) (h : handle ∉ path)
    (reason : CancelReason) (now : Int) :
    c.err (s.step (.cancel handle reason)).2.scopes now = c.err s.scopes now := by
  cases htop : s.handles.get? handle with
  | none =>
    have hstep : (s.step (.cancel handle reason)).2 = s := by simp only [step, withScope, htop]
    rw [hstep]
  | some top =>
    have hscope' : (s.step (.cancel handle reason)).2.Climbs c.scope path := by
      refine (climbs_iff (fun id => ?_) ?_).2 hscope
      · rw [scopes_cancel htop, Scopes.parent?_cancel hs.scopes.ordered]
      · simp only [step, withScope, htop]
    have hafter := (hg.cancel hs htop reason).cancelled? hscope'
    rw [firstCancel_cons, cancels?, if_neg h, Option.or_none, ← hg.cancelled? hscope] at hafter
    unfold Context.err
    rw [hafter]

/-- Actions for other names leave a context as it is. -/
theorem contexts_step (h : fits past a) (hname : name? a ≠ some name) :
    (s.step a).2.contexts.get? name = s.contexts.get? name := by
  have hset : ∀ other d, some other ≠ some name → (s.contexts.set other d).get? name = s.contexts.get? name := by
    intro other d hother
    rw [KeyMap.get?_set, if_neg]
    exact fun heq => hother (congrArg some heq.symm)
  cases a with
  | background other => exact hset other _ hname
  | withCancel source other handle =>
    simp only [step, withContext]
    split
    · exact hset other _ hname
    · rfl
  | withValue source other key value =>
    simp only [step, withContext]
    split
    · exact hset other _ hname
    · rfl
  | withTimeout source other timeout =>
    simp only [step, withContext]
    split
    · split
      · exact hset other _ hname
      · rfl
    · rfl
  | withDeadline source other deadline =>
    simp only [step, withContext]
    split
    · split
      · exact hset other _ hname
      · rfl
    · rfl
  | cancel handle reason =>
    simp only [step, withScope]
    split <;> rfl
  | advance ms => rfl
  | _ => cases h

/-- **Every context reports its descent**, after any run in which contexts grow. -/
theorem reports_run (past : List Action) (name : String) (c : Context) (h : grows past)
    (hc : (start.run past.reverse).contexts.get? name = some c) :
    ∃ settings, descent past name = some settings ∧ Reports (start.run past.reverse) past name c settings := by
  have hs : (start.run past.reverse).Sound := run_sound sound_start past.reverse
  have hg := run_grown h
  have hrel := hg.contexts name
  rw [hc] at hrel
  generalize hdescent : descent past name = found at hrel
  cases hrel with
  | @some _ settings hfound =>
    obtain ⟨hscope, hcarries⟩ := hfound
    refine ⟨settings, rfl, hg.err_iff hscope hcarries, fun handle reason hout => hg.spared hs hscope hout reason,
      hcarries.value, fun a hfits hname => ?_⟩
    rw [contexts_step hfits hname, hc]

/-- A call that is cancelled after its parent, and one below it that is derived after both, with an earlier
deadline and another value. The parent's sibling goes on. -/
def family : List Action :=
  [.withTimeout "call" "late" (.ofMillis 5), .cancel "call" .superseded, .cancel "parent" .userRequested,
    .advance 20, .withCancel "parent" "call" "call", .withValue "root" "sibling" "path" "/b",
    .withCancel "timed" "parent" "parent", .withTimeout "root" "timed" (.ofMillis 100),
    .withValue "top" "root" "path" "/a", .background "top"]

/-- The latest context of the family. -/
def late : Context :=
  ⟨some 1, some ⟨25000000, by decide⟩, Labels.empty.insert "path" "/a"⟩

theorem reports_family :
    (∃ settings, descent family "late" = some settings ∧
      Reports (start.run family.reverse) family "late" late settings) ∧
      (start.run family.reverse).err "late" = some .userRequested ∧
      (start.run family.reverse).err "sibling" = none :=
  ⟨reports_run family "late" late (by decide) (by decide), by decide, by decide⟩

end CallGuard.Session
