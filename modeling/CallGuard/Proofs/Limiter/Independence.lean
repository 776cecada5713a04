import CallGuard.Proofs.Limiter.Run

/-!
# Keys by themselves

A rule may not care about all of an entry, but only about a **view** of it. If an entry that
is forgotten or denied a request looks the same afterwards, then nothing but its own
admissions shows in what is decided about a key: other keys, the sweeps that their requests
bring about, and denied requests may come or not.

* `Thins`: a run without some requests for other keys, and without some denied ones.
* `Rule.Views`: what a view of entries has to satisfy.
* `Rule.Views.shown_thin`: a key looks the same after both runs.
* `Rule.Views.decision_thin`: **requests that are left out change no decision about the key.**
-/

namespace CallGuard

/-- **A run with fewer requests**: those left out were for other keys than `key`, or denied. -/
inductive Thins (decision : List Query → Query → Except TimeError Decision) (key : String) :
    List Query → List Query → Prop
  | nil : Thins decision key [] []
  | keep {past fewer : List Query} (q : Query) :
      Thins decision key past fewer → Thins decision key (q :: past) (q :: fewer)
  | leave {past fewer : List Query} (q : Query) :
      (q.key = key → admits (decision past q) = false) →
      Thins decision key past fewer → Thins decision key (q :: past) fewer

variable {decision : List Query → Query → Except TimeError Decision} {key : String} {past fewer : List Query}

theorem Thins.sublist (h : Thins decision key past fewer) : List.Sublist fewer past := by
  induction h with
  | nil => exact .slnil
  | keep q _ ih => exact ih.cons_cons q
  | leave q _ _ ih => exact ih.cons q

theorem thins_own (decision : List Query → Query → Except TimeError Decision) (key : String)
    (past : List Query) : Thins decision key past (past.filter (·.key = key)) := by
  induction past with
  | nil => exact .nil
  | cons q past ih =>
    by_cases hkey : q.key = key
    · rw [List.filter_cons_of_pos (by simpa using hkey)]
      exact .keep q ih
    · rw [List.filter_cons_of_neg (by simpa using hkey)]
      exact .leave q (fun h => absurd h hkey) ih

namespace Rule

variable {α V : Type}

/-- **A view of entries** that decides all requests, and to which forgetting an entry or denying it a request does
nothing: a new entry looks the same whenever it was made, and what a sweep may drop looks new. Entries are `sound`
at a time, and times are `good`. -/
structure Views (r : Rule α) (threshold : Span) (good : Instant → Prop) (sound : Instant → Stamped α → Prop)
    (view : Instant → Stamped α → V) : Prop where
  fresh : ∀ {now}, good now → sound now ⟨r.fresh now, now⟩
  later : ∀ {now later e}, now ≤ later → sound now e → sound later e
  judged : ∀ {now e}, good now → sound now e → sound now (r.judge now e).2
  renew : ∀ {now later}, good now → good later → now ≤ later →
    view later ⟨r.fresh now, now⟩ = view later ⟨r.fresh later, later⟩
  idle : ∀ {now e}, good now → sound now e → threshold < now.since e.lastUse →
    view now e = view now ⟨r.fresh now, now⟩
  decides : ∀ {now e e'}, view now e = view now e' → (r.judge now e).1 = (r.judge now e').1
  leaves : ∀ {now later e e'}, sound now e → sound now e' → now ≤ later → view now e = view now e' →
    view later (r.judge now e).2 = view later (r.judge now e').2
  denied : ∀ {now later e}, sound now e → now ≤ later → admits (r.judge now e).1 = false →
    view later (r.judge now e).2 = view later e

/-- What a key looks like at a time. -/
def shown (r : Rule α) (view : Instant → Stamped α → V) (entry : Option (Stamped α)) (now : Instant) : V :=
  view now (entry.getD ⟨r.fresh now, now⟩)

variable {r : Rule α} {s s' : Store α} {good : Instant → Prop} {sound : Instant → Stamped α → Prop}
  {view : Instant → Stamped α → V} {now later : Instant}

theorem Views.tracks {threshold : Span} (h : r.Views threshold good sound view) :
    r.Tracks threshold (fun now _ => good now) fun entry _ now => ∀ e, entry = some e → sound now e where
  fresh _ e he := by cases he
  later hle hsound e he := h.later hle (hsound e he)
  drop _ _ e he := by cases he
  judge {now entry admitted e} heq hgood _ hsound e' he' := by
    cases he'
    refine h.judged hgood ?_
    cases entry with
    | none => exact heq ▸ h.fresh hgood
    | some found => exact heq ▸ hsound found rfl

theorem along_time (hgood : ∀ q ∈ past, good q.time) : r.Along s (fun now _ => good now) past :=
  along_of fun q hq _ => hgood q hq

section Views

variable (h : r.Views s.threshold good sound view) (hs : s.entries = .empty)
include h hs

theorem Views.sound_after (ho : Ordered past) (hgood : ∀ q ∈ past, good q.time)
    (hpast : ∀ q ∈ past, q.time ≤ now) {e : Stamped α} (he : (r.after s past).get? key = some e) :
    sound now e :=
  h.tracks.after hs key ho (along_time hgood) now hpast e he

theorem Views.sound_worked {q : Query} (ho : Ordered (q :: past)) (hgood : ∀ p ∈ q :: past, good p.time) :
    sound q.time (r.worked s past q) := by
  have hpast : ∀ p ∈ past, good p.time := fun p hp => hgood p (List.mem_cons_of_mem _ hp)
  have hseen := h.tracks.seen hs q.key ho.tail (along_time hpast) ho.le
  unfold worked
  cases hfound : r.seen s past q.key q.time with
  | none => exact h.fresh (hgood q List.mem_cons_self)
  | some e => exact hseen e hfound

/-- **A sweep does not show.** -/
theorem Views.shown_seen (key : String) (ho : Ordered past) (hgood : ∀ q ∈ past, good q.time)
    (hpast : ∀ q ∈ past, q.time ≤ now) (hle : now ≤ later) (hlater : good later) :
    r.shown view (r.seen s past key now) later = r.shown view ((r.after s past).get? key) later := by
  rcases seen_cases (r := r) (s := s) past key now with hsame | ⟨hnone, -, e, he, hidle⟩
  · rw [hsame]
  · have hsound : sound later e := h.later hle (h.sound_after hs ho hgood hpast he)
    have hstill : s.threshold < later.since e.lastUse := by
      rw [Instant.le_iff] at hle
      rw [Span.lt_iff, Instant.since_nanos] at hidle ⊢
      omega
    rw [hnone, he]
    exact (h.idle hlater hsound hstill).symm

/-- What a request works on looks like what was kept. -/
theorem Views.view_worked {q : Query} (ho : Ordered (q :: past)) (hgood : ∀ p ∈ q :: past, good p.time)
    (hle : q.time ≤ later) (hlater : good later) :
    view later (r.worked s past q) = r.shown view ((r.after s past).get? q.key) later := by
  have hq : good q.time := hgood q List.mem_cons_self
  have hpast : ∀ p ∈ past, good p.time := fun p hp => hgood p (List.mem_cons_of_mem _ hp)
  rw [← h.shown_seen hs q.key ho.tail hpast ho.le hle hlater]
  unfold worked shown
  cases r.seen s past q.key q.time with
  | none => exact h.renew hq hlater hle
  | some e => rfl

/-- **A request does not show in other keys.** -/
theorem Views.shown_other {q : Query} (hkey : key ≠ q.key) (ho : Ordered (q :: past))
    (hgood : ∀ p ∈ q :: past, good p.time) (hle : q.time ≤ later) (hlater : good later) :
    r.shown view ((r.after s (q :: past)).get? key) later =
      r.shown view ((r.after s past).get? key) later := by
  have hpast : ∀ p ∈ past, good p.time := fun p hp => hgood p (List.mem_cons_of_mem _ hp)
  rw [get?_after_cons, if_neg hkey]
  exact h.shown_seen hs key ho.tail hpast ho.le hle hlater

/-- **A denied request does not show.** -/
theorem Views.shown_denied {q : Query} (hdenied : admits (r.decision s past q) = false)
    (ho : Ordered (q :: past)) (hgood : ∀ p ∈ q :: past, good p.time) (hle : q.time ≤ later)
    (hlater : good later) :
    r.shown view ((r.after s (q :: past)).get? q.key) later =
      r.shown view ((r.after s past).get? q.key) later := by
  have hsound := h.sound_worked hs ho hgood
  rw [← h.view_worked hs ho hgood hle hlater, get?_after_cons, if_pos rfl]
  exact h.denied hsound hle hdenied

/-- **A key looks the same after both runs.** -/
theorem Views.shown_thin (h' : r.Views s'.threshold good sound view) (hs' : s'.entries = .empty)
    (hthin : Thins (r.decision s) key past fewer) (ho : Ordered past) (hgood : ∀ q ∈ past, good q.time) :
    ∀ now, (∀ q ∈ past, q.time ≤ now) → good now →
      r.shown view ((r.after s' fewer).get? key) now = r.shown view ((r.after s past).get? key) now := by
  induction hthin with
  | nil =>
    intro now _ _
    show r.shown view (s'.entries.get? key) now = r.shown view (s.entries.get? key) now
    rw [hs, hs']
  | @keep past fewer q hthin ih =>
    intro now hnow hgoodnow
    have hgood' : ∀ p ∈ past, good p.time := fun p hp => hgood p (List.mem_cons_of_mem _ hp)
    have hq : good q.time := hgood q List.mem_cons_self
    have hle : q.time ≤ now := hnow q List.mem_cons_self
    have ih := ih ho.tail hgood'
    have hsub : List.Sublist (q :: fewer) (q :: past) := hthin.sublist.cons_cons q
    have hofewer : Ordered (q :: fewer) := List.Pairwise.sublist hsub ho
    have hgoodfewer : ∀ p ∈ q :: fewer, good p.time := fun p hp => hgood p (hsub.subset hp)
    by_cases hkey : key = q.key
    · subst hkey
      -- both requests work on entries that look the same, and so do the entries that they leave
      have hsame : view q.time (r.worked s' fewer q) = view q.time (r.worked s past q) := by
        rw [h'.view_worked hs' hofewer hgoodfewer (Int.le_refl _) hq,
          h.view_worked hs ho hgood (Int.le_refl _) hq]
        exact ih q.time ho.le hq
      have hsound := h.sound_worked hs ho hgood
      have hsound' := h'.sound_worked hs' hofewer hgoodfewer
      rw [get?_after_cons, get?_after_cons, if_pos rfl, if_pos rfl]
      exact h.leaves hsound' hsound hle hsame
    · rw [h'.shown_other hs' hkey hofewer hgoodfewer hle hgoodnow, h.shown_other hs hkey ho hgood hle hgoodnow]
      exact ih now (fun p hp => hnow p (List.mem_cons_of_mem _ hp)) hgoodnow
  | @leave past fewer q hleft hthin ih =>
    intro now hnow hgoodnow
    have hgood' : ∀ p ∈ past, good p.time := fun p hp => hgood p (List.mem_cons_of_mem _ hp)
    have hle : q.time ≤ now := hnow q List.mem_cons_self
    rw [ih ho.tail hgood' now (fun p hp => hnow p (List.mem_cons_of_mem _ hp)) hgoodnow]
    by_cases hkey : key = q.key
    · subst hkey
      exact (h.shown_denied hs (hleft rfl) ho hgood hle hgoodnow).symm
    · exact (h.shown_other hs hkey ho hgood hle hgoodnow).symm

/-- **Requests that are left out change no decision about the key**, not even with another store, if that
forgets no entry too early either. -/
theorem Views.decision_thin (h' : r.Views s'.threshold good sound view) (hs' : s'.entries = .empty)
    (hthin : Thins (r.decision s) key past fewer) (ho : Ordered (⟨key, now⟩ :: past))
    (hgood : ∀ q ∈ ⟨key, now⟩ :: past, good q.time) :
    r.decision s' fewer ⟨key, now⟩ = r.decision s past ⟨key, now⟩ := by
  have hnow : good now := hgood ⟨key, now⟩ List.mem_cons_self
  have hgood' : ∀ p ∈ past, good p.time := fun p hp => hgood p (List.mem_cons_of_mem _ hp)
  have hsub : List.Sublist (⟨key, now⟩ :: fewer) (⟨key, now⟩ :: past) := hthin.sublist.cons_cons _
  have hofewer : Ordered (⟨key, now⟩ :: fewer) := List.Pairwise.sublist hsub ho
  have hgoodfewer : ∀ p ∈ ⟨key, now⟩ :: fewer, good p.time := fun p hp => hgood p (hsub.subset hp)
  rw [decision_eq, decision_eq]
  refine h.decides ?_
  rw [h'.view_worked hs' hofewer hgoodfewer (Int.le_refl _) hnow,
    h.view_worked hs ho hgood (Int.le_refl _) hnow]
  exact h.shown_thin hs h' hs' hthin ho.tail hgood' now ho.le hnow

end Views

end Rule

end CallGuard
