import CallGuard.Context.Session
import CallGuard.Proofs.Cancel.Forest

/-!
# What a cancellation reaches

In a session a scope is held as long as a name refers to it: the name of a context, of a
token or of a handle. A scope that no name refers to any more is lost to its parent, and
with it all that was derived from it, although those scopes may have names still.

* `Session.Sound`: the scopes are sound, and held just as long as a name refers to them.
* `Session.step_sound`: an action is a move of the scopes and keeps this.
* `Session.Reached`: below a cancelled scope, by scopes that had a name then or were derived later.
* `Session.cancel_reaches`: **what is reached is over from then on, and nothing else is cancelled.**
* `Session.cancel_loses`: a context below the cancelled one is not always reached.
-/

namespace CallGuard.Session

variable {s t : Session} {name handle : String} {id top : ScopeId} {c : Context}

/-- The cancellation scopes of a session. -/
abbrev scopes (s : Session) : Scopes := s.timeline.scopes

/-- **A scope is held by a name**: that of a context, a token or a handle. -/
theorem holds_iff (s : Session) (id : ScopeId) :
    s.holds id = true ↔ (∃ name c, s.contexts.get? name = some c ∧ c.scope = some id) ∨
      (∃ name, s.tokens.get? name = some id) ∨ ∃ name, s.handles.get? name = some id := by
  simp only [holds, Bool.or_eq_true, List.any_eq_true, beq_iff_eq, KeyMap.get?_eq_some_iff, Prod.exists,
    or_assoc]
  refine or_congr Iff.rfl (or_congr ?_ ?_)
  · exact ⟨fun ⟨k, v, hm, hv⟩ => ⟨k, hv ▸ hm⟩, fun ⟨k, hm⟩ => ⟨k, id, hm, rfl⟩⟩
  · exact ⟨fun ⟨k, v, hm, hv⟩ => ⟨k, hv ▸ hm⟩, fun ⟨k, hm⟩ => ⟨k, id, hm, rfl⟩⟩

/-- **A session is sound** if its scopes are, and a scope is held just as long as a name refers to it. -/
structure Sound (s : Session) : Prop where
  scopes : s.scopes.Sound
  held : ∀ id, s.scopes.isHeld id = s.holds id

theorem Sound.lt_of_holds (hs : s.Sound) (h : s.holds id) : id < s.scopes.list.length :=
  Scopes.lt_of_isHeld ((hs.held id).trans h)

/-- Letting go of what has no name makes a session sound, if every name refers to a held scope. -/
theorem sound_settle (hs : s.scopes.Sound) (hheld : ∀ id, s.holds id → s.scopes.isHeld id) :
    s.settle.Sound := by
  refine ⟨hs.release s.holds, fun id => ?_⟩
  show (s.scopes.release s.holds).isHeld id = s.holds id
  rw [Scopes.isHeld_release, Bool.and_eq_right_iff_imp]
  exact hheld id

/-! ## Actions on names -/

/-- A context under a name adds no scope to those that have names. -/
theorem sound_setContext (hs : s.Sound) (hc : ∀ id, c.scope = some id → s.holds id) (name : String) :
    Scopes.Move s.scopes (s.setContext name c).scopes ∧ (s.setContext name c).Sound := by
  refine ⟨.release _ _, sound_settle hs.scopes fun id h => (hs.held id).trans ?_⟩
  rw [holds_iff] at h
  rcases h with ⟨other, d, hd, hid⟩ | h
  · rw [KeyMap.get?_set] at hd
    split at hd
    · cases hd
      exact hc id hid
    · exact (holds_iff s id).2 (.inl ⟨other, d, hd, hid⟩)
  · exact (holds_iff s id).2 (.inr h)

theorem sound_dropName (hs : s.Sound) (name : String) :
    Scopes.Move s.scopes (s.dropName name).2.scopes ∧ (s.dropName name).2.Sound := by
  refine ⟨.release _ _, sound_settle hs.scopes fun id h => (hs.held id).trans ?_⟩
  rw [holds_iff] at h ⊢
  simp only [KeyMap.get?_erase] at h
  rcases h with ⟨other, d, hd, hid⟩ | ⟨other, h⟩ | ⟨other, h⟩
  · split at hd
    · cases hd
    · exact .inl ⟨other, d, hd, hid⟩
  · split at h
    · cases h
    · exact .inr (.inl ⟨other, h⟩)
  · split at h
    · cases h
    · exact .inr (.inr ⟨other, h⟩)

/-- A derived scope is held from the start, and the older ones as before. -/
theorem isHeld_derived (hs : s.Sound) (source : Option ScopeId)
    (h : s.holds id ∨ id = s.scopes.list.length) : (s.scopes.add source).2.isHeld id := by
  rcases h with h | rfl
  · rw [Scopes.isHeld_add_of_lt source (hs.lt_of_holds h), hs.held, h]
  · rw [Scopes.isHeld, Scopes.getElem?_add_self]
    rfl

theorem sound_setPair (hs : s.Sound) {source : Option ScopeId}
    (hsource : ∀ id, source = some id → s.holds id) (token handle : String) :
    Scopes.Move s.scopes (s.setPair source token handle).scopes ∧ (s.setPair source token handle).Sound := by
  have hlt : ∀ id, source = some id → id < s.scopes.list.length := fun id h => hs.lt_of_holds (hsource id h)
  refine ⟨.derive _ _ _ hlt, sound_settle (hs.scopes.add hlt) fun id h => isHeld_derived hs source ?_⟩
  rw [holds_iff] at h ⊢
  simp only [KeyMap.get?_set] at h
  rcases h with h | ⟨other, h⟩ | ⟨other, h⟩
  · exact .inl (.inl h)
  · split at h
    · exact .inr (Option.some.inj h).symm
    · exact .inl (.inr (.inl ⟨other, h⟩))
  · split at h
    · exact .inr (Option.some.inj h).symm
    · exact .inl (.inr (.inr ⟨other, h⟩))

theorem sound_setCancelable (hs : s.Sound) (hc : ∀ id, c.scope = some id → s.holds id)
    (name handle : String) :
    Scopes.Move s.scopes (s.setCancelable c name handle).scopes ∧ (s.setCancelable c name handle).Sound := by
  have hlt : ∀ id, c.scope = some id → id < s.scopes.list.length := fun id h => hs.lt_of_holds (hc id h)
  refine ⟨.derive _ _ _ hlt, sound_settle (hs.scopes.add hlt) fun id h => isHeld_derived hs c.scope ?_⟩
  rw [holds_iff] at h ⊢
  simp only [KeyMap.get?_set] at h
  rcases h with ⟨other, d, hd, hid⟩ | h | ⟨other, h⟩
  · split at hd
    · cases hd
      exact .inr (Option.some.inj hid).symm
    · exact .inl (.inl ⟨other, d, hd, hid⟩)
  · exact .inl (.inr (.inl h))
  · split at h
    · exact .inr (Option.some.inj h).symm
    · exact .inl (.inr (.inr ⟨other, h⟩))

/-! ## Actions -/

/-- A context's scope is held. -/
theorem holds_context (h : s.contexts.get? name = some c) (id : ScopeId) (hid : c.scope = some id) :
    s.holds id :=
  (holds_iff s id).2 (.inl ⟨name, c, h, hid⟩)

theorem scope_withDeadline (c : Context) (deadline : Instant) : (c.withDeadline deadline).scope = c.scope := by
  unfold Context.withDeadline
  split <;> rfl

theorem scope_withTimeout {t : Timeline} {timeout : Span} {derived : Context}
    (h : t.withTimeout c timeout = .ok derived) : derived.scope = c.scope := by
  unfold Timeline.withTimeout at h
  split at h
  · cases h
    exact scope_withDeadline c _
  · cases h

/-- What waiting does to the scopes: an alarm on the way may cancel one. -/
theorem scopes_race (t : Timeline) (lot : Lot) (c : Context) (wake : Nat) :
    (t.race lot c wake).2.scopes = t.scopes ∨
      ∃ top reason, (t.race lot c wake).2.scopes = t.scopes.cancel top reason := by
  have hring : ∀ limit, (t.ring limit).scopes = t.scopes ∨
      ∃ top reason, (t.ring limit).scopes = t.scopes.cancel top reason := by
    intro limit
    unfold Timeline.ring
    split
    · split
      · exact .inr ⟨_, _, rfl⟩
      · exact .inl rfl
    · exact .inl rfl
  show (t.pass lot c _).scopes = t.scopes ∨ ∃ top reason, (t.pass lot c _).scopes = t.scopes.cancel top reason
  unfold Timeline.pass
  split
  · exact .inl rfl
  · dsimp only
    split <;> exact hring _

/-- Where no name changes, a scope may be cancelled. -/
theorem sound_timeline (hs : s.Sound) {t : Timeline}
    (ht : t.scopes = s.scopes ∨ ∃ top reason, t.scopes = s.scopes.cancel top reason) :
    Scopes.Move s.scopes t.scopes ∧ ({ s with timeline := t } : Session).Sound := by
  have hheld : ∀ id, ({ s with timeline := t } : Session).holds id = s.holds id := fun _ => rfl
  rcases ht with ht | ⟨top, reason, ht⟩
  · exact ⟨ht ▸ .stay _, by show t.scopes.Sound; rw [ht]; exact hs.scopes,
      fun id => by show t.scopes.isHeld id = _; rw [ht, hheld, hs.held]⟩
  · exact ⟨ht ▸ .cancel _ _ _, by show t.scopes.Sound; rw [ht]; exact hs.scopes.cancel top reason,
      fun id => by
        show t.scopes.isHeld id = _
        rw [ht, hheld, Scopes.isHeld_cancel hs.scopes.ordered, hs.held]⟩

theorem sound_waitFor (hs : s.Sound) (c : Context) (limit : Nat) (plan : Option Plan) :
    Scopes.Move s.scopes (s.waitFor c limit plan).2.scopes ∧ (s.waitFor c limit plan).2.Sound := by
  refine sound_timeline hs (t := { (Timeline.race _ _ c _).2.drawn with alarm := none }) ?_
  exact scopes_race { s.timeline with alarm := s.alarm? plan } _ c _

/-- An action that uses the context of a name does nothing where the name has none. -/
theorem sound_withContext (hs : s.Sound) (name : String) {f : Context → Answer × Session}
    (hf : ∀ c, s.contexts.get? name = some c → Scopes.Move s.scopes (f c).2.scopes ∧ (f c).2.Sound) :
    Scopes.Move s.scopes (s.withContext name f).2.scopes ∧ (s.withContext name f).2.Sound := by
  unfold withContext
  split
  · exact hf _ ‹_›
  · exact ⟨.stay _, hs⟩

theorem sound_withScope (hs : s.Sound) (names : KeyMap ScopeId) (name : String)
    {f : ScopeId → Answer × Session}
    (hf : ∀ id, names.get? name = some id → Scopes.Move s.scopes (f id).2.scopes ∧ (f id).2.Sound) :
    Scopes.Move s.scopes (s.withScope names name f).2.scopes ∧ (s.withScope names name f).2.Sound := by
  unfold withScope
  split
  · exact hf _ ‹_›
  · exact ⟨.stay _, hs⟩

/-- **An action is a move of the scopes**, and keeps a session sound. -/
theorem step_sound (hs : s.Sound) (a : Action) :
    Scopes.Move s.scopes (s.step a).2.scopes ∧ (s.step a).2.Sound := by
  have hstay : Scopes.Move s.scopes s.scopes ∧ s.Sound := ⟨.stay _, hs⟩
  cases a with
  | background name => exact sound_setContext hs (c := .background) (fun _ h => nomatch h) name
  | withCancel source name handle =>
    exact sound_withContext hs source fun c hc => sound_setCancelable hs (holds_context hc) name handle
  | withValue source name key value =>
    exact sound_withContext hs source fun c hc =>
      sound_setContext hs (c := c.withValue key value) (fun id hid => holds_context hc id hid) name
  | withTimeout source name timeout =>
    refine sound_withContext hs source fun c hc => ?_
    split
    · rename_i h
      exact sound_setContext hs (fun id hid => holds_context hc id (scope_withTimeout h ▸ hid)) name
    · exact hstay
  | withDeadline source name deadline =>
    refine sound_withContext hs source fun c hc => ?_
    split
    · exact sound_setContext hs (fun id hid => holds_context hc id (scope_withDeadline c _ ▸ hid)) name
    · exact hstay
  | clone source name =>
    exact sound_withContext hs source fun c hc => sound_setContext hs (holds_context hc) name
  | pair token handle => exact sound_setPair hs (fun _ (h : none = some _) => nomatch h) token handle
  | child source token handle =>
    refine sound_withScope hs s.tokens source fun id hid => sound_setPair hs (fun parent h => ?_) token handle
    cases h
    exact (holds_iff s _).2 (.inr (.inl ⟨source, hid⟩))
  | cancel handle reason =>
    exact sound_withScope hs s.handles handle fun id _ => sound_timeline hs (.inr ⟨id, reason, rfl⟩)
  | drop name => exact sound_dropName hs name
  | value context key => exact sound_withContext hs context fun _ _ => hstay
  | path context => exact sound_withContext hs context fun _ _ => hstay
  | deadline context => exact sound_withContext hs context fun _ _ => hstay
  | showToken token => exact sound_withScope hs s.tokens token fun _ _ => hstay
  | advance ms => exact sound_timeline hs (.inl rfl)
  | done context limit plan => exact sound_withContext hs context fun c _ => sound_waitFor hs c limit plan
  | cancelled token limit plan =>
    exact sound_withScope hs s.tokens token fun _ _ => sound_waitFor hs _ limit plan

theorem sound_start : start.Sound :=
  ⟨⟨fun id _ h => (Nat.not_lt_zero id (Scopes.lt_of_parent? h)).elim,
    fun id _ h => (Nat.not_lt_zero id (Scopes.lt_of_parent? h)).elim⟩, fun _ => rfl⟩

/-- **A run keeps a session sound.** -/
theorem run_sound (hs : s.Sound) (actions : List Action) : (s.run actions).Sound := by
  induction actions generalizing s with
  | nil => exact hs
  | cons a rest ih => exact ih (step_sound hs a).2

/-! ## What is reached -/

/-- **A cancellation in `s` has reached a scope** of a later session if every scope on the way down had
a name in `s`, or was derived later. -/
def Reached (s t : Session) (top : ScopeId) : ScopeId → Prop :=
  t.scopes.Path (fun id => s.holds id ∨ s.scopes.list.length ≤ id) top

/-- The session after a cancellation by a handle. -/
theorem scopes_cancel (h : s.handles.get? handle = some top) (reason : CancelReason) :
    (s.step (.cancel handle reason)).2.scopes = s.scopes.cancel top reason := by
  simp only [step, withScope, h]
  rfl

/-- At once the scopes are reached that are below the cancelled one by held ones. -/
theorem reached_cancel_iff (hs : s.Sound) (h : s.handles.get? handle = some top) (reason : CancelReason)
    (id : ScopeId) :
    Reached s (s.step (.cancel handle reason)).2 top id ↔ s.scopes.Path (fun id => s.scopes.isHeld id) top id := by
  have hparent : ∀ id, (s.step (.cancel handle reason)).2.scopes.parent? id = s.scopes.parent? id := fun id => by
    rw [scopes_cancel h, Scopes.parent?_cancel hs.scopes.ordered]
  constructor
  · intro hpath
    replace hpath := hpath.congr fun id => (hparent id).symm
    induction hpath with
    | top => exact .top
    | down hp hid _ ih =>
      have hlt := Scopes.lt_of_parent? hp
      refine .down hp ((hs.held _).trans (hid.resolve_right (Nat.not_le.2 hlt))) ih
  · intro hpath
    exact (hpath.mono fun id hid => .inl ((hs.held id).symm.trans hid)).congr hparent

/-- **One action later** all that is reached is still cancelled, a derived scope because its parent is. -/
theorem step_reached (ht : t.Sound) (hle : s.scopes.list.length ≤ t.scopes.list.length)
    (htop : top < s.scopes.list.length) (a : Action)
    (h : ∀ id, Reached s t top id → (t.scopes.reason? id).isSome) :
    ∀ id, Reached s (t.step a).2 top id → ((t.step a).2.scopes.reason? id).isSome := by
  obtain ⟨hmove, hsound⟩ := step_sound ht a
  have hext := hmove.extends ht.scopes
  -- the way down to an older scope is what it was
  have hold : ∀ id, Reached s (t.step a).2 top id → id < t.scopes.list.length → Reached s t top id := by
    intro id hpath
    induction hpath with
    | top => exact fun _ => .top
    | down hparent hid _ ih =>
      intro hlt
      rw [hext.parent _ hlt] at hparent
      exact .down hparent hid (ih (Nat.lt_trans (ht.scopes.ordered _ _ hparent) hlt))
  intro id hpath
  rcases Nat.lt_or_ge id t.scopes.list.length with hlt | hge
  · obtain ⟨why, hwhy⟩ := Option.isSome_iff_exists.1 (h id (hold id hpath hlt))
    rw [hext.reason id why hwhy]
    rfl
  · -- this action derived the scope, and its parent is older
    cases hpath with
    | top => exact absurd (Nat.lt_of_lt_of_le htop hle) (Nat.not_lt.2 hge)
    | down hparent _ hpath =>
      obtain ⟨hlt, hreason⟩ := hext.derived id _ hge hparent
      rw [hreason]
      exact h _ (hold _ hpath hlt)

theorem run_reached (ht : t.Sound) (hle : s.scopes.list.length ≤ t.scopes.list.length)
    (htop : top < s.scopes.list.length) (later : List Action)
    (h : ∀ id, Reached s t top id → (t.scopes.reason? id).isSome) :
    ∀ id, Reached s (t.run later) top id → ((t.run later).scopes.reason? id).isSome := by
  induction later generalizing t with
  | nil => exact h
  | cons a rest ih =>
    obtain ⟨hmove, hsound⟩ := step_sound ht a
    exact ih hsound (Nat.le_trans hle (hmove.extends ht.scopes).length_le) (step_reached ht hle htop a h)

/-- A context of a cancelled scope is over. -/
theorem isSome_err (h : s.contexts.get? name = some c) (hid : c.scope = some id)
    (hreason : (s.scopes.reason? id).isSome) : (s.err name).isSome := by
  obtain ⟨why, hwhy⟩ := Option.isSome_iff_exists.1 hreason
  have hcancelled : c.cancelled? s.timeline.scopes = some why := by
    rw [Context.cancelled?, hid]
    exact hwhy
  simp [err, h, Timeline.err, Context.err, hcancelled]

/-- **What a cancellation reaches is over from then on**: every context below the cancelled one, if the
scopes on the way down had names when it was cancelled or were derived later. **Nothing else is cancelled
by it.** -/
theorem cancel_reaches (before later : List Action) (handle : String) (reason : CancelReason) (top : ScopeId)
    (hhandle : (start.run before).handles.get? handle = some top) :
    let s := start.run before
    let cancelled := (s.step (.cancel handle reason)).2
    let t := cancelled.run later
    (∀ name c id, t.contexts.get? name = some c → c.scope = some id → Reached s t top id →
      (t.err name).isSome) ∧
    ∀ name c id, s.contexts.get? name = some c → c.scope = some id →
      ((cancelled.timeline.cancelled? c).isSome ↔
        (s.timeline.cancelled? c).isSome ∨ Reached s cancelled top id) := by
  intro s cancelled t
  have hs : s.Sound := run_sound sound_start before
  have htop : top < s.scopes.list.length := hs.lt_of_holds ((holds_iff s top).2 (.inr (.inr ⟨handle, hhandle⟩)))
  have hcancelled := fun id => hs.scopes.isSome_reason?_cancel htop reason id
  refine ⟨fun name c id hc hid hreached => isSome_err hc hid ?_, fun name c id hc hid => ?_⟩
  · -- right after the cancellation what is reached is cancelled, and it stays so in the run
    refine run_reached (step_sound hs _).2 ?_ htop later (fun id h => ?_) id hreached
    · exact Nat.le_of_eq (by rw [scopes_cancel hhandle, Scopes.length_cancel])
    · rw [scopes_cancel hhandle, hcancelled, ← reached_cancel_iff hs hhandle reason]
      exact .inr h
  · have hwhy : ∀ u : Session, u.timeline.cancelled? c = u.scopes.reason? id := fun u => by
      rw [Timeline.cancelled?, Context.cancelled?, hid]
      rfl
    rw [hwhy, hwhy, scopes_cancel hhandle, hcancelled, reached_cancel_iff hs hhandle reason]

/-- A context, one below it, and one below that. The one in between is dropped, but not its handle. -/
def lineage : List Action :=
  [.background "root", .withCancel "root" "a" "ha", .withCancel "a" "b" "hb", .withCancel "b" "c" "hc",
    .drop "b"]

theorem cancel_reaches_lineage :
    (start.run lineage).handles.get? "ha" = some 0 ∧
      (((((start.run lineage).step (.cancel "ha" .serverShutdown)).2.run
        [.drop "ha", .drop "hb", .withCancel "c" "d" "hd"]).err "d").isSome) := by
  have hhandle : (start.run lineage).handles.get? "ha" = some 0 := by decide
  refine ⟨hhandle, (cancel_reaches lineage [.drop "ha", .drop "hb", .withCancel "c" "d" "hd"] "ha"
    .serverShutdown 0 hhandle).1 "d" ⟨some 3, none, .empty⟩ 3 (by decide) rfl ?_⟩
  -- `b` had its handle then, `c` its context and handle, and `d` came later
  exact .down (show _ = some 2 by decide) (by decide) (.down (show _ = some 1 by decide) (by decide)
    (.down (show _ = some 0 by decide) (by decide) .top))

/-- **A context below the cancelled one is not always reached**: it is lost if one in between is dropped
together with its handle. -/
theorem cancel_loses :
    ¬∀ (before later : List Action) (handle : String) (reason : CancelReason) (top : ScopeId),
      (start.run before).handles.get? handle = some top →
      let t := ((start.run before).step (.cancel handle reason)).2.run later
      ∀ name c id, t.contexts.get? name = some c → c.scope = some id →
        t.scopes.Path (fun _ => True) top id → (t.err name).isSome := by
  intro h
  have hover := h (lineage ++ [.drop "hb"]) [] "ha" .serverShutdown 0 (by decide) "c" ⟨some 2, none, .empty⟩ 2
    (by decide) rfl (.down (show _ = some 1 by decide) trivial (.down (show _ = some 0 by decide) trivial .top))
  exact absurd hover (by decide)

end CallGuard.Session
