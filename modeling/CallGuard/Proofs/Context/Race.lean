import CallGuard.Context.Timeline

/-!
# Races against the end of a context

A wait races the end of a context, and then it is asked once more whether the context is
over. What a wait comes to is said instant by instant, in whole milliseconds: which alarms
have gone off by then, and whether the context is over. However ties come out, a wait ends
with the context exactly if there is such an instant, and it stops at the first one.

* `Timeline.tickOf_le_iff`: a deadline has passed when its timer goes off.
* `Timeline.during`: the timeline at an instant of a wait.
* `Timeline.EndsIn`: the first instant of a wait at which a context is over.
* `Timeline.verdict`: the reason that a wait ends with, from the race or from the question after it.
* `Timeline.pass_covers`: a race stops at the first such instant, or with its timer.
* `Timeline.verdict_of_endsIn`: **a wait ends when the context does**, for the reason it ends for.
* `Timeline.exists_endsIn_of_verdict`: nothing else ends it before its timer goes off.
* `Timeline.Lasts`: a context that nothing planned ends; a race against it is a sleep.
* `Timeline.now_sleep`: how long a sleep is.
-/

namespace CallGuard

theorem Scopes.reason_spread (target : ScopeId) (reason why : CancelReason) (list : List Scope) :
    ∀ (reached : List ScopeId) (i j : Nat), (list[j]?).bind Scope.reason = some why →
      ((spread target reason reached i list)[j]?).bind Scope.reason = some why := by
  induction list with
  | nil => intro _ _ _ h; exact h
  | cons scope rest ih =>
    intro reached i j h
    simp only [spread]
    cases j with
    | succ j => split <;> exact ih _ _ j h
    | zero =>
      have hreason : scope.reason = some why := h
      simp [hreason]

/-- **A cancelled scope stays cancelled**, for the reason it has. -/
theorem Context.cancelled?_cancel {c : Context} {scopes : Scopes} {why : CancelReason}
    (h : c.cancelled? scopes = some why) (top : ScopeId) (reason : CancelReason) :
    c.cancelled? (scopes.cancel top reason) = some why := by
  obtain ⟨id, hid, hreason⟩ := Option.bind_eq_some_iff.1 h
  exact Option.bind_eq_some_iff.2 ⟨id, hid, Scopes.reason_spread top reason why scopes.list [] 0 id hreason⟩

namespace Timeline

variable {t later : Timeline} {lot : Lot} {c : Context} {wake m k : Nat} {reason : CancelReason}

/-! ## When a context is over -/

/-- **A context is over** if its scope is cancelled or its deadline has passed. -/
theorem isSome_err_iff :
    (t.err c).isSome ↔ (t.cancelled? c).isSome ∨
      ∃ deadline, c.deadline = some deadline ∧ deadline.nanos ≤ t.nanos := by
  unfold err Context.err cancelled?
  cases c.cancelled? t.scopes with
  | some r => simp
  | none =>
    cases c.deadline with
    | none => simp
    | some deadline =>
      by_cases h : deadline.nanos ≤ t.nanos <;> simp [h]

theorem err_eq_none_iff :
    t.err c = none ↔ t.cancelled? c = none ∧
      ∀ deadline, c.deadline = some deadline → (t.nanos : Int) < deadline.nanos := by
  rw [← Option.not_isSome_iff_eq_none, isSome_err_iff, not_or, Option.not_isSome_iff_eq_none, not_exists]
  refine and_congr Iff.rfl (forall_congr' fun deadline => ?_)
  rw [not_and, Int.not_le]

/-- **A deadline's timer goes off when it has passed**, if not at the last tick. -/
theorem tickOf_le_iff (deadline : Instant) (m : Nat) :
    tickOf deadline ≤ m ↔ lastTick ≤ m ∨ deadline.nanos ≤ (nanosPerMilli * m : Nat) := by
  rw [tickOf, tick, nanosPerMilli]
  omega

/-- **The reason for a context to be over**: the one recorded in its scope, or its deadline, the timer for which
has gone off. -/
def Explains (t : Timeline) (c : Context) (reason : CancelReason) : Prop :=
  t.cancelled? c = some reason ∨
    reason = .deadlineExceeded ∧ ∃ deadline, c.deadline = some deadline ∧ tickOf deadline ≤ t.now

theorem expired?_eq_some_iff : t.expired? c = some reason ↔
    reason = .deadlineExceeded ∧ ∃ deadline, c.deadline = some deadline ∧ tickOf deadline ≤ t.now := by
  unfold expired?
  cases c.deadline with
  | none => simp
  | some deadline => by_cases h : tickOf deadline ≤ t.now <;> simp [h, eq_comm]

/-- **Whoever waits for the end of a context** is given a reason for it. -/
theorem explains_of_ended? (h : t.ended? lot c = some reason) : t.Explains c reason := by
  have hor : t.cancelled? c = some reason ∨ t.expired? c = some reason := by
    unfold ended? at h
    split at h
    · exact (Option.or_eq_some_iff.1 h).symm.imp And.right id
    · exact (Option.or_eq_some_iff.1 h).imp id And.right
  exact hor.imp id expired?_eq_some_iff.1

/-- So is whoever asks whether it is over. -/
theorem explains_of_err (h : t.err c = some reason) : t.Explains c reason := by
  unfold err Context.err at h
  cases hc : t.cancelled? c with
  | some why =>
    rw [show c.cancelled? t.scopes = some why from hc] at h
    cases h
    exact .inl hc
  | none =>
    rw [show c.cancelled? t.scopes = none from hc] at h
    cases hd : c.deadline with
    | none => simp [hd] at h
    | some deadline =>
      simp only [hd] at h
      split at h
      · cases h
        exact .inr ⟨rfl, deadline, hd, (tickOf_le_iff _ _).2 (.inr ‹_›)⟩
      · cases h

/-- Before the last tick, a context that has ended for some reason is over. -/
theorem isSome_err_of_explains (hnow : t.now < lastTick) (h : t.Explains c reason) : (t.err c).isSome := by
  rw [isSome_err_iff]
  rcases h with h | ⟨-, deadline, hd, hle⟩
  · exact .inl (Option.isSome_iff_exists.2 ⟨reason, h⟩)
  · exact .inr ⟨deadline, hd, ((tickOf_le_iff _ _).1 hle).resolve_left (Nat.not_le.2 hnow)⟩

/-- The tick of a deadline that has not passed is still to come, if the last tick is. -/
theorem now_lt_tickOf (hopen : t.err c = none) (hnow : t.now < lastTick) {deadline : Instant}
    (hd : c.deadline = some deadline) : t.now < tickOf deadline := by
  have hlt := (err_eq_none_iff.1 hopen).2 deadline hd
  rw [← Nat.not_le, tickOf_le_iff, not_or, Int.not_le]
  exact ⟨Nat.not_le.2 hnow, hlt⟩

/-! ## What a wait comes to -/

/-- The last millisecond whose alarms have gone off at an instant of a wait. Of an alarm that is due just when the
wait is over, the lot decides. -/
def alarmsAt (lot : Lot) (wake m : Nat) : Nat := if m = wake then lot.alarmsBy m else m

/-- The timeline when time has come to an instant and alarms due by a limit have gone off. -/
def reached (t : Timeline) (limit m : Nat) : Timeline := { t.ring limit with now := m }

/-- The timeline at an instant of a wait until `wake`. Where there is nothing to wait for, time stands
still. -/
def during (t : Timeline) (lot : Lot) (wake m : Nat) : Timeline :=
  if t.now < wake then t.reached (alarmsAt lot wake m) m else t

/-- **A context ends in a wait** at the first instant of the wait at which it is over. -/
structure EndsIn (t : Timeline) (lot : Lot) (c : Context) (wake m : Nat) : Prop where
  begun : t.now ≤ m
  within : m ≤ max t.now wake
  ended : ((t.during lot wake m).err c).isSome
  first : ∀ k, t.now ≤ k → k < m → (t.during lot wake k).err c = none

/-- **Where a context is over at some instant of a wait, it ends at a first one.** -/
theorem exists_endsIn (hbegun : t.now ≤ m) (hwithin : m ≤ max t.now wake)
    (hover : ((t.during lot wake m).err c).isSome) : ∃ k, t.EndsIn lot c wake k := by
  induction m using Nat.strongRecOn with
  | ind m ih =>
    by_cases h : ∃ k, t.now ≤ k ∧ k < m ∧ ((t.during lot wake k).err c).isSome
    · obtain ⟨k, hk, hlt, hk'⟩ := h
      exact ih k hlt hk (Nat.le_trans (Nat.le_of_lt hlt) hwithin) hk'
    · refine ⟨m, hbegun, hwithin, hover, fun k hk hlt => ?_⟩
      rw [← Option.not_isSome_iff_eq_none]
      exact fun hk' => h ⟨k, hk, hlt, hk'⟩

theorem alarmsBy_le (lot : Lot) (m : Nat) : lot.alarmsBy m ≤ m := by
  unfold Lot.alarmsBy
  split <;> omega

theorem le_alarmsBy (lot : Lot) (h : k < m) : k ≤ lot.alarmsBy m := by
  unfold Lot.alarmsBy
  split <;> omega

theorem ring_of_due {a : Alarm} (ha : t.alarm = some a) (h : a.due ≤ m) :
    t.ring m = { t with now := max t.now a.due, scopes := t.scopes.cancel a.scope a.reason, alarm := none } := by
  simp only [ring, ha, if_pos h]

theorem ring_of_not_due {a : Alarm} (ha : t.alarm = some a) (h : ¬a.due ≤ m) : t.ring m = t := by
  simp only [ring, ha, if_neg h]

theorem due_of_cancelled (hopen : t.cancelled? c = none) (h : ((t.ring m).cancelled? c).isSome) :
    ∃ a, t.alarm = some a ∧ a.due ≤ m := by
  unfold ring at h
  split at h
  · rename_i a ha
    split at h
    · exact ⟨a, ha, ‹_›⟩
    · rw [hopen] at h
      cases h
  · rw [hopen] at h
    cases h

/-- Alarms that have gone off stay so. -/
theorem cancelled_of_le (hopen : t.cancelled? c = none) (hle : k ≤ m)
    (h : ((t.ring k).cancelled? c).isSome) : ((t.ring m).cancelled? c).isSome := by
  obtain ⟨a, ha, hdue⟩ := due_of_cancelled hopen h
  rw [ring_of_due ha hdue] at h
  rw [ring_of_due ha (Nat.le_trans hdue hle)]
  exact h

theorem cancelled?_ring {why : CancelReason} (h : t.cancelled? c = some why) (m : Nat) :
    (t.ring m).cancelled? c = some why := by
  unfold ring
  split
  · split
    · exact Context.cancelled?_cancel h _ _
    · exact h
  · exact h

/-- A context that is over when a wait begins is over at its first instant. -/
theorem isSome_err_during (h : (t.err c).isSome) (lot : Lot) (wake : Nat) :
    ((t.during lot wake t.now).err c).isSome := by
  unfold during
  split
  · rw [isSome_err_iff] at h ⊢
    rcases h with h | h
    · obtain ⟨why, hwhy⟩ := Option.isSome_iff_exists.1 h
      exact .inl (Option.isSome_iff_exists.2 ⟨why, cancelled?_ring hwhy _⟩)
    · exact .inr h
  · exact h

/-! ## How far a race goes -/

theorem stop_le (c : Context) (wake : Nat) : stop c wake ≤ wake := by
  unfold stop
  cases c.deadline with
  | none => exact Nat.le_refl _
  | some deadline => exact Nat.min_le_left _ _

theorem stop_le_tickOf {deadline : Instant} (hd : c.deadline = some deadline) (wake : Nat) :
    stop c wake ≤ tickOf deadline := by
  rw [stop, hd]
  exact Nat.min_le_right _ _

theorem exists_of_stop_lt (h : stop c wake < wake) :
    ∃ deadline, c.deadline = some deadline ∧ stop c wake = tickOf deadline := by
  unfold stop at h ⊢
  cases hd : c.deadline with
  | none => simp [hd] at h
  | some deadline =>
    simp only [hd, Option.map_some, Option.getD_some] at h ⊢
    exact ⟨deadline, rfl, by omega⟩

theorem lt_stop (hopen : t.err c = none) (hnow : t.now < lastTick) (hwait : t.now < wake) :
    t.now < stop c wake := by
  unfold stop
  cases hd : c.deadline with
  | none => exact hwait
  | some deadline => exact Nat.lt_min.2 ⟨hwait, now_lt_tickOf hopen hnow hd⟩

theorem pass_of_isSome_err (h : (t.err c).isSome) (lot : Lot) (wake : Nat) :
    t.pass lot c (stop c wake) = t := by
  rcases isSome_err_iff.1 h with h | ⟨deadline, hd, hle⟩
  · exact if_pos (.inl h)
  · have hdue : tickOf deadline ≤ t.now := (tickOf_le_iff _ _).2 (.inr hle)
    exact if_pos (.inr (Nat.le_trans (stop_le_tickOf hd wake) hdue))

theorem pass_of_not_lt (hwait : ¬t.now < wake) : t.pass lot c (stop c wake) = t :=
  if_pos (.inr (Nat.le_trans (stop_le c wake) (Nat.not_lt.1 hwait)))

/-- **How far a race goes** that takes time: to an instant of the wait before which the context is not over. It is
over at that instant, or the timer goes off then. -/
structure Covers (t : Timeline) (lot : Lot) (c : Context) (wake : Nat) (later : Timeline) : Prop where
  begun : t.now ≤ later.now
  within : later.now ≤ wake
  before : ∀ k, t.now ≤ k → k < later.now → (t.during lot wake k).err c = none
  agrees : (later.err c).isSome ↔ ((t.during lot wake later.now).err c).isSome
  full : later.err c = none → later.now = wake

/-- A context is not over at an instant before a race stops, if no alarm has cancelled it. -/
theorem err_during_of_lt (hwait : t.now < wake) (hk : k < stop c wake) (hcancelled : (t.ring k).cancelled? c = none) :
    (t.during lot wake k).err c = none := by
  have hne : k ≠ wake := Nat.ne_of_lt (Nat.lt_of_lt_of_le hk (stop_le c wake))
  rw [during, if_pos hwait, alarmsAt, if_neg hne, err_eq_none_iff]
  refine ⟨hcancelled, fun deadline hd => ?_⟩
  have hlate := Nat.lt_of_lt_of_le hk (stop_le_tickOf hd wake)
  exact Int.not_le.1 fun hle => Nat.not_le.2 hlate ((tickOf_le_iff deadline k).2 (.inr hle))

/-- Where a race stops before its timer goes off, the deadline of the context has passed. -/
theorem isSome_err_reached (hlt : stop c wake < wake) (hwake : wake ≤ lastTick) (limit : Nat) :
    ((t.reached limit (stop c wake)).err c).isSome := by
  obtain ⟨deadline, hd, htick⟩ := exists_of_stop_lt hlt
  refine isSome_err_iff.2 (.inr ⟨deadline, hd, ?_⟩)
  exact ((tickOf_le_iff deadline _).1 (Nat.le_of_eq htick.symm)).resolve_left (by omega)

/-- A race comes to the time of an alarm that cancels its context on the way. -/
theorem covers_ring (hc : t.cancelled? c = none) (hstop : t.now < stop c wake)
    (hrung : ((t.ring (lot.alarmsBy (stop c wake))).cancelled? c).isSome) :
    t.Covers lot c wake (t.ring (lot.alarmsBy (stop c wake))) := by
  have hle := stop_le c wake
  have hwait := Nat.lt_of_lt_of_le hstop hle
  have hover : ((t.ring (lot.alarmsBy (stop c wake))).err c).isSome := isSome_err_iff.2 (.inl hrung)
  obtain ⟨a, ha, hdue⟩ := due_of_cancelled hc hrung
  have hby := alarmsBy_le lot (stop c wake)
  have htime : (t.ring (lot.alarmsBy (stop c wake))).now = max t.now a.due := by rw [ring_of_due ha hdue]
  have hsoon : max t.now a.due ≤ stop c wake := by omega
  refine ⟨?_, ?_, fun k hk hlt => ?_, iff_of_true hover ?_, fun hnone => ?_⟩
  · exact htime ▸ Nat.le_max_left _ _
  · exact htime ▸ Nat.le_trans hsoon hle
  · rw [htime] at hlt
    refine err_during_of_lt hwait (by omega) ?_
    rw [ring_of_not_due ha (by omega)]
    exact hc
  · have hgone : a.due ≤ alarmsAt lot wake (max t.now a.due) := by
      unfold alarmsAt
      split
      · -- the alarm is due when the timer goes off, and comes before it
        rwa [show max t.now a.due = stop c wake by omega]
      · exact Nat.le_max_right _ _
    rw [htime, during, if_pos hwait, isSome_err_iff]
    rw [ring_of_due ha hdue] at hrung
    exact .inl (by rwa [reached, ring_of_due ha hgone])
  · rw [hnone] at hover
    cases hover

/-- A race goes on until it stops if no alarm cancels its context on the way. -/
theorem covers_reached (hc : t.cancelled? c = none) (hstop : t.now < stop c wake) (hwake : wake ≤ lastTick)
    (hrung : ¬((t.ring (lot.alarmsBy (stop c wake))).cancelled? c).isSome) :
    t.Covers lot c wake (t.reached (lot.alarmsBy (stop c wake)) (stop c wake)) := by
  have hle := stop_le c wake
  have hwait := Nat.lt_of_lt_of_le hstop hle
  refine ⟨Nat.le_of_lt hstop, hle, fun k hk hlt => ?_, ?_, fun hnone => ?_⟩
  · refine err_during_of_lt hwait hlt (Option.not_isSome_iff_eq_none.1 fun hcancelled => ?_)
    exact hrung (cancelled_of_le hc (le_alarmsBy lot hlt) hcancelled)
  · show _ ↔ ((t.during lot wake (stop c wake)).err c).isSome
    rw [during, if_pos hwait]
    rcases Nat.lt_or_eq_of_le hle with hlt | heq
    · exact iff_of_true (isSome_err_reached hlt hwake _) (isSome_err_reached hlt hwake _)
    · rw [alarmsAt, if_pos heq]
  · refine Nat.le_antisymm hle (Nat.le_of_not_lt fun hlt => ?_)
    have hover := isSome_err_reached (t := t) hlt hwake (lot.alarmsBy (stop c wake))
    rw [hnone] at hover
    cases hover

theorem pass_covers (lot : Lot) (hopen : t.err c = none) (hwait : t.now < wake) (hwake : wake ≤ lastTick) :
    t.Covers lot c wake (t.pass lot c (stop c wake)) := by
  have hc := (err_eq_none_iff.1 hopen).1
  have hstop := lt_stop hopen (Nat.lt_of_lt_of_le hwait hwake) hwait
  have hgo : ¬((t.cancelled? c).isSome ∨ stop c wake ≤ t.now) := by
    rw [hc]
    simpa using hstop
  rw [pass, if_neg hgo]
  dsimp only
  split
  · exact covers_ring hc hstop ‹_›
  · exact covers_reached hc hstop hwake ‹_›

/-! ## What a wait ends with -/

/-- **The verdict of a wait**: why the context has ended, if the race says so, or else if it is over after the
race. -/
def verdict (t : Timeline) (lot : Lot) (c : Context) (wake : Nat) : Option CancelReason :=
  (t.race lot c wake).1.or ((t.race lot c wake).2.err c)

theorem explains_of_verdict (h : t.verdict lot c wake = some reason) :
    (t.race lot c wake).2.Explains c reason := by
  rcases Option.or_eq_some_iff.1 h with h | ⟨-, h⟩
  · unfold race at h
    dsimp only at h
    split at h
    · cases h
    · exact explains_of_ended? h
  · exact explains_of_err h

theorem isSome_verdict (h : ((t.race lot c wake).2.err c).isSome) : (t.verdict lot c wake).isSome := by
  rw [verdict, Option.isSome_or, h, Bool.or_true]

/-- A context that ends in a wait is over at one instant only. -/
theorem EndsIn.eq (h : t.EndsIn lot c wake m) (hbegun : t.now ≤ k) (hbefore : ∀ i, t.now ≤ i → i < k →
    (t.during lot wake i).err c = none) (hk : ((t.during lot wake k).err c).isSome) : k = m := by
  refine Nat.le_antisymm (Nat.le_of_not_lt fun hlt => ?_) (Nat.le_of_not_lt fun hlt => ?_)
  · have hsome := h.ended
    rw [hbefore m h.begun hlt] at hsome
    cases hsome
  · rw [h.first k hbegun hlt] at hk
    cases hk

/-- **A race is over when its context ends** in the wait. -/
theorem pass_of_endsIn (hwake : wake ≤ lastTick) (h : t.EndsIn lot c wake m) :
    (t.pass lot c (stop c wake)).now = m ∧ ((t.pass lot c (stop c wake)).err c).isSome := by
  by_cases hover : (t.err c).isSome
  · -- it is over before the wait begins
    rw [pass_of_isSome_err hover]
    exact ⟨h.eq (Nat.le_refl _) (fun i hi hlt => absurd hi (Nat.not_le.2 hlt)) (isSome_err_during hover lot wake), hover⟩
  rw [Option.not_isSome_iff_eq_none] at hover
  have hwait : t.now < wake := by
    refine Nat.lt_of_not_le fun hle => ?_
    have hend := h.ended
    rw [during, if_neg (Nat.not_lt.2 hle), hover] at hend
    cases hend
  have hcovers := pass_covers lot hover hwait hwake
  generalize t.pass lot c (stop c wake) = later at hcovers ⊢
  have hsome : (later.err c).isSome := by
    rw [← Option.ne_none_iff_isSome]
    intro hnone
    -- the race would go as far as the wait, and the context end at its last instant
    have hfull := hcovers.full hnone
    have hwithin := h.within
    rcases Nat.lt_or_ge m later.now with hlt | hge
    · have hend := h.ended
      rw [hcovers.before m h.begun hlt] at hend
      cases hend
    · have hm : later.now = m := by omega
      have hend := hcovers.agrees.2 (hm ▸ h.ended)
      rw [hnone] at hend
      cases hend
  exact ⟨h.eq hcovers.begun hcovers.before (hcovers.agrees.1 hsome), hsome⟩

/-- **A wait ends when the context does**, and for a reason that it ends for. -/
theorem verdict_of_endsIn (hwake : wake ≤ lastTick) (h : t.EndsIn lot c wake m) :
    ∃ reason, t.verdict lot c wake = some reason ∧ (t.race lot c wake).2.now = m ∧
      (t.race lot c wake).2.Explains c reason := by
  obtain ⟨hnow, hover⟩ := pass_of_endsIn hwake h
  obtain ⟨reason, hreason⟩ := Option.isSome_iff_exists.1 (isSome_verdict hover)
  exact ⟨reason, hreason, hnow, explains_of_verdict hreason⟩

/-- **Only the end of its context ends a wait** before its timer goes off, unless that is on the last tick. -/
theorem exists_endsIn_of_verdict (hlast : max t.now wake < lastTick) (h : t.verdict lot c wake = some reason) :
    ∃ m, t.EndsIn lot c wake m := by
  by_cases hover : (t.err c).isSome
  · exact exists_endsIn (Nat.le_refl _) (Nat.le_max_left _ _) (isSome_err_during hover lot wake)
  rw [Option.not_isSome_iff_eq_none] at hover
  have hnow : t.now < lastTick := Nat.lt_of_le_of_lt (Nat.le_max_left _ _) hlast
  have hwhy : (t.pass lot c (stop c wake)).Explains c reason := explains_of_verdict h
  by_cases hwait : t.now < wake
  · have hcovers := pass_covers lot hover hwait (by omega)
    have hbefore : (t.pass lot c (stop c wake)).now < lastTick := by
      have := hcovers.within
      omega
    exact exists_endsIn hcovers.begun (Nat.le_trans hcovers.within (Nat.le_max_right _ _))
      (hcovers.agrees.1 (isSome_err_of_explains hbefore hwhy))
  · rw [pass_of_not_lt hwait] at hwhy
    have hsome := isSome_err_of_explains hnow hwhy
    rw [hover] at hsome
    cases hsome

/-! ## Contexts that last -/

/-- **A context lasts** if nothing that is planned ends it: it has no deadline, its scope is not cancelled,
and no alarm cancels it. -/
structure Lasts (t : Timeline) (c : Context) : Prop where
  deadline : c.deadline = none
  scope : t.cancelled? c = none
  alarm : ∀ a, t.alarm = some a → c.cancelled? (t.scopes.cancel a.scope a.reason) = none

theorem lasts_of_free (t : Timeline) (hscope : c.scope = none) (hdeadline : c.deadline = none) : t.Lasts c := by
  have hfree : ∀ scopes, c.cancelled? scopes = none := fun scopes => by rw [Context.cancelled?, hscope]; rfl
  exact ⟨hdeadline, hfree _, fun _ _ => hfree _⟩

theorem Lasts.ring (h : t.Lasts c) (m : Nat) : (t.ring m).Lasts c := by
  cases ha : t.alarm with
  | none => rwa [Timeline.ring, ha]
  | some a =>
    by_cases hdue : a.due ≤ m
    · rw [ring_of_due ha hdue]
      exact ⟨h.deadline, h.alarm a ha, nofun⟩
    · rwa [ring_of_not_due ha hdue]

theorem Lasts.pass (h : t.Lasts c) (lot : Lot) (wake : Nat) :
    t.pass lot c (stop c wake) = t.sleepUntil lot wake := by
  have hstop : stop c wake = wake := by rw [stop, h.deadline]; rfl
  unfold Timeline.pass sleepUntil
  simp only [hstop, h.scope, (h.ring _).scope, Option.isSome_none, Bool.false_eq_true, false_or, if_false]

theorem Lasts.sleepUntil (h : t.Lasts c) (lot : Lot) (wake : Nat) : (t.sleepUntil lot wake).Lasts c := by
  unfold Timeline.sleepUntil
  split
  · exact h
  · exact ⟨h.deadline, (h.ring _).scope, (h.ring _).alarm⟩

theorem Lasts.sleep (h : t.Lasts c) (s : Span) : (t.sleep s).Lasts c :=
  have hlater := h.sleepUntil t.lot (t.wakeAfter s)
  ⟨hlater.deadline, hlater.scope, hlater.alarm⟩

theorem Lasts.ended? (h : t.Lasts c) (lot : Lot) : t.ended? lot c = none := by
  unfold Timeline.ended? expired?
  simp [h.scope, h.deadline]

/-- **A race against the end of a context that lasts** is won by the timer. -/
theorem Lasts.raceFor (h : t.Lasts c) (s : Span) : t.raceFor c s = (none, t.sleep s) := by
  rw [Timeline.raceFor, Timeline.sleep, race, h.pass, (h.sleepUntil _ _).ended?, ite_self]

/-- **How long a sleep is**: as long as its span, rounded up to whole milliseconds, if no timer is cut. -/
theorem now_sleep {s : Span} (hs : s ≤ t.timers.longest)
    (hlast : t.now + ((nanosPerMilli - 1) + s.nanos) / nanosPerMilli ≤ lastTick) :
    (t.sleep s).now = t.now + ((nanosPerMilli - 1) + s.nanos) / nanosPerMilli := by
  have hwake : t.wakeAfter s = t.now + ((nanosPerMilli - 1) + s.nanos) / nanosPerMilli := by
    have hreach : t.nanos + s.nanos ≤ nanosPerMilli * lastTick := by
      rw [nanos]
      rw [nanosPerMilli] at hlast ⊢
      omega
    rw [wakeAfter_eq hs hreach, tick_eq hreach, nanos, Nat.add_left_comm]
    exact Nat.mul_add_div (by decide) _ _
  show (t.sleepUntil t.lot (t.wakeAfter s)).now = _
  rw [sleepUntil, hwake]
  split
  · exact Nat.le_antisymm (Nat.le_add_right _ _) ‹_›
  · rfl

end Timeline

end CallGuard
