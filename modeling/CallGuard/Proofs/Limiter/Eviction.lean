import CallGuard.Proofs.Limiter.Sweeps.Bucket
import CallGuard.Proofs.Limiter.Sweeps.CellRate
import CallGuard.Proofs.Limiter.Sweeps.Window

/-!
# Which keys a sweep drops

A request comes with a sweep, if one is due, and the sweep drops keys that were not used
for longer than the threshold. With buckets and windows every request for a key is a
use of it. A cell rate denies a request without a trace in the entry, so that only its
admissions are uses: a key may be dropped although a request for it was denied just now.

* `Limiter.Drops`: a sweep drops a key.
* `Limiter.allow_sweep`, `Limiter.lastUse?_allow`: every request sweeps first, and leaves other keys alone.
* `Limiter.lastUsed`: the latest use of a key in a run.
* `Rule.Uses.lastUse_after`: an entry is stamped with the latest request that counts.
* `Limiter.drops_iff`: **which keys a sweep drops.**
* `Limiter.drops_denied`: not only keys for which there was no request.
-/

namespace CallGuard

/-- The latest request of a run for a key. -/
def lastAsked (key : String) : List Query → Option Instant
  | [] => none
  | q :: past => if q.key = key then some q.time else lastAsked key past

/-- The latest request of a run for a key whose decision counts. -/
def lastCounted (counts : Except TimeError Decision → Bool)
    (decision : List Query → Query → Except TimeError Decision) (key : String) :
    List Query → Option Instant
  | [] => none
  | q :: past =>
    if q.key = key ∧ counts (decision past q) then some q.time else lastCounted counts decision key past

theorem lastCounted_all (decision : List Query → Query → Except TimeError Decision) (key : String)
    (run : List Query) : lastCounted (fun _ => true) decision key run = lastAsked key run := by
  induction run with
  | nil => rfl
  | cons q past ih => simp only [lastCounted, lastAsked, ih, and_true]

theorem lastCounted_admits (decision : List Query → Query → Except TimeError Decision) (key : String)
    (run : List Query) :
    lastCounted admits decision key run = (admittedBy decision key run).head? := by
  induction run with
  | nil => rfl
  | cons q past ih =>
    rw [lastCounted, admittedBy, ih]
    split <;> rfl

namespace Store

variable {α β : Type}

theorem entries_eq_empty {s : Store α} (h : s.size = 0) : s.entries = .empty := by
  obtain ⟨interval, threshold, lastSweep, ⟨entries, nodup⟩⟩ := s
  obtain rfl : entries = [] := List.length_eq_zero_iff.1 h
  rfl

theorem sweep_sweep (s : Store α) (now : Instant) :
    (s.sweep now).2.sweep now = (none, (s.sweep now).2) := by
  rw [sweep, isSweepDue_sweep]
  rfl

/-- **A sweep drops an entry** exactly if it is due and the entry was idle for longer than the threshold. -/
theorem sweep_drops_iff {s : Store α} {key : String} {e : Stamped α} (he : s.get? key = some e)
    (now : Instant) :
    (s.sweep now).2.get? key = none ↔ s.isSweepDue now = true ∧ s.threshold < now.since e.lastUse := by
  rw [get?_sweep, he]
  by_cases hdue : s.isSweepDue now = true
  · rw [if_pos hdue]
    simp only [Option.filter, isLive, hdue, true_and, Span.lt_iff, Span.le_iff]
    by_cases hlive : (now.since e.lastUse).nanos ≤ s.threshold.nanos
    · simp [hlive]
    · simp [hlive, Nat.lt_of_not_le hlive]
  · simp [hdue]

end Store

namespace Rule

variable {α : Type} {r : Rule α} {s : Store α} {counts : Except TimeError Decision → Bool}

/-- **Which requests are uses** of a key: those whose decision counts, and the first one does. -/
structure Uses (r : Rule α) (counts : Except TimeError Decision → Bool) : Prop where
  judge : ∀ now e, (r.judge now e).2.lastUse = if counts (r.judge now e).1 then now else e.lastUse
  fresh : ∀ now, counts (r.judge now ⟨r.fresh now, now⟩).1 = true

/-- **An entry is stamped** with the latest request that counts. -/
theorem Uses.lastUse_after (h : r.Uses counts) (hs : s.entries = .empty) {key : String} (run : List Query)
    {e : Stamped α} (he : (r.after s run).get? key = some e) :
    lastCounted counts (r.decision s) key run = some e.lastUse := by
  refine entry_after (r := r) (P := fun run key e => lastCounted counts (r.decision s) key run = some e.lastUse)
    hs (fun q past hfound => ?_) (fun q past key e hkey _ hpast => ?_) run he
  · rw [lastCounted, decision_eq, h.judge]
    by_cases hcounts : counts (r.judge q.time (r.worked s past q)).1 = true
    · rw [if_pos ⟨rfl, hcounts⟩, if_pos hcounts]
    · rw [if_neg fun hc => hcounts hc.2, if_neg hcounts]
      cases hseen : r.seen s past q.key q.time with
      | none =>
        rw [worked, hseen] at hcounts
        exact absurd (h.fresh q.time) hcounts
      | some e =>
        rw [worked, hseen]
        exact hfound e hseen
  · rw [lastCounted, if_neg fun hc => hkey hc.1.symm]
    exact hpast

theorem Uses.dropped_iff (h : r.Uses counts) (hs : s.entries = .empty) (key : String) (run : List Query)
    (now : Instant) :
    ((r.after s run).get? key).isSome ∧ ¬((((r.after s run).sweep now).2).get? key).isSome ↔
      ((r.after s run).get? key).isSome ∧ (r.after s run).isSweepDue now = true ∧
        ∃ t, lastCounted counts (r.decision s) key run = some t ∧ s.threshold < now.since t := by
  refine and_congr_right fun hsome => ?_
  obtain ⟨e, he⟩ := Option.isSome_iff_exists.1 hsome
  rw [Option.not_isSome_iff_eq_none, Store.sweep_drops_iff he, after_threshold, h.lastUse_after hs run he]
  simp

/-- **A request sweeps first**: after the sweep it is the same request. -/
theorem request_sweep (r : Rule α) (s : Store α) (key : String) (now : Instant) :
    (r.request s key now).result = (r.request (s.sweep now).2 key now).result ∧
      (r.request s key now).store = (r.request (s.sweep now).2 key now).store ∧
      (r.request s key now).sweep.isSome = s.isSweepDue now := by
  refine ⟨?_, ?_, s.isSome_sweep now⟩
  · simp only [request, Store.access, Store.sweep_sweep]
  · simp only [request, Store.access, Store.sweep_sweep]

end Rule

theorem TokenBucket.uses (b : TokenBucket Float) : b.rule.Uses fun _ => true :=
  ⟨b.lastUse_judge, fun _ => rfl⟩

theorem SlidingWindow.uses (w : SlidingWindow) : w.rule.Uses fun _ => true :=
  ⟨w.lastUse_judge, fun _ => rfl⟩

/-- A cell rate stamps what it admits, and admits the first request for a key. -/
theorem CellRate.uses (c : CellRate) : c.rule.Uses admits where
  judge now e := by
    rcases Int.lt_or_le now.nanos e.value.nanos with hearly | hdue
    · rw [(judge_denied hearly).1, (judge_denied hearly).2]
      rfl
    · rw [(judge_admitted hdue).1, (judge_admitted hdue).2]
      rfl
  fresh now := (judge_admitted (e := ⟨c.fresh now, now⟩) (c.fresh_le now)).1

namespace Limiter

/-- When the entry of a key was last used, if there is one. -/
def lastUse? (l : Limiter) (key : String) : Option Instant :=
  match l with
  | tokenBucket _ s => (s.get? key).map Stamped.lastUse
  | slidingWindow _ s => (s.get? key).map Stamped.lastUse
  | cellRate _ s => (s.get? key).map Stamped.lastUse

/-- True of a key that has an entry. -/
def Holds (l : Limiter) (key : String) : Prop := (l.lastUse? key).isSome

/-- The time for which a key may be idle. -/
def threshold : Limiter → Span
  | tokenBucket _ s => s.threshold
  | slidingWindow _ s => s.threshold
  | cellRate _ s => s.threshold

/-- True if a request comes with a sweep. -/
def isSweepDue (l : Limiter) (now : Instant) : Bool :=
  match l with
  | tokenBucket _ s => s.isSweepDue now
  | slidingWindow _ s => s.isSweepDue now
  | cellRate _ s => s.isSweepDue now

/-- The limiter after a sweep, if it is due. -/
def sweep (l : Limiter) (now : Instant) : Limiter :=
  match l with
  | tokenBucket b s => tokenBucket b (s.sweep now).2
  | slidingWindow w s => slidingWindow w (s.sweep now).2
  | cellRate c s => cellRate c (s.sweep now).2

/-- **The sweep that comes with a request drops a key.** -/
def Drops (l : Limiter) (key : String) (now : Instant) : Prop := l.Holds key ∧ ¬(l.sweep now).Holds key

/-- **A request sweeps first**: after the sweep it is the same request. -/
theorem allow_sweep (l : Limiter) (key : String) (now : Instant) :
    (l.allow key now).decision = ((l.sweep now).allow key now).decision ∧
      (l.allow key now).limiter = ((l.sweep now).allow key now).limiter ∧
      (l.allow key now).sweep.isSome = l.isSweepDue now := by
  cases l with
  | tokenBucket b s =>
    obtain ⟨hresult, hstore, hsweep⟩ := b.rule.request_sweep s key now
    exact ⟨hresult, congrArg (tokenBucket b) hstore, hsweep⟩
  | slidingWindow w s =>
    obtain ⟨hresult, hstore, hsweep⟩ := w.rule.request_sweep s key now
    exact ⟨hresult, congrArg (slidingWindow w) hstore, hsweep⟩
  | cellRate c s =>
    obtain ⟨hresult, hstore, hsweep⟩ := c.rule.request_sweep s key now
    exact ⟨hresult, congrArg (cellRate c) hstore, hsweep⟩

/-- What a request leaves of another key is what its sweep leaves. -/
theorem lastUse?_allow (l : Limiter) {key asked : String} (h : key ≠ asked) (now : Instant) :
    (l.allow asked now).limiter.lastUse? key = (l.sweep now).lastUse? key := by
  cases l with
  | tokenBucket b s => exact congrArg (Option.map Stamped.lastUse) (b.rule.request_store s asked now h)
  | slidingWindow w s => exact congrArg (Option.map Stamped.lastUse) (w.rule.request_store s asked now h)
  | cellRate c s => exact congrArg (Option.map Stamped.lastUse) (c.rule.request_store s asked now h)

/-- **The latest use of a key** in a run: the latest request for it, and with a cell rate the latest one
that was admitted. -/
def lastUsed (l : Limiter) (key : String) (run : List Query) : Option Instant :=
  match l with
  | tokenBucket _ _ => lastAsked key run
  | slidingWindow _ _ => lastAsked key run
  | cellRate _ _ => (l.admitted key run).head?

/-- The condition for a key to be dropped, from that for the stores of the three rules. -/
theorem drops_after_iff (l : Limiter) (hnew : l.size = 0) (run : List Query) (key : String) (now : Instant) :
    (l.after run).Drops key now ↔ (l.after run).Holds key ∧ (l.after run).isSweepDue now = true ∧
      ∃ t, l.lastUsed key run = some t ∧ l.threshold < now.since t := by
  cases l with
  | tokenBucket b s =>
    have hdrops := b.uses.dropped_iff (Store.entries_eq_empty hnew) key run now
    rw [lastCounted_all] at hdrops
    rw [lastUsed, after_tokenBucket]
    simpa only [Drops, Holds, lastUse?, sweep, isSweepDue, threshold, Option.isSome_map] using hdrops
  | slidingWindow w s =>
    have hdrops := w.uses.dropped_iff (Store.entries_eq_empty hnew) key run now
    rw [lastCounted_all] at hdrops
    rw [lastUsed, after_slidingWindow]
    simpa only [Drops, Holds, lastUse?, sweep, isSweepDue, threshold, Option.isSome_map] using hdrops
  | cellRate c s =>
    have hdrops := c.uses.dropped_iff (Store.entries_eq_empty hnew) key run now
    rw [lastCounted_admits] at hdrops
    rw [lastUsed, admitted, decision_cellRate, after_cellRate]
    simpa only [Drops, Holds, lastUse?, sweep, isSweepDue, threshold, Option.isSome_map] using hdrops

/-- **Which keys a sweep drops**: those that have an entry and were not used for longer than the threshold, if it
is due. A request comes with the sweep if it is due, goes on where the sweep has left off, and leaves no entry
of another key exactly if the sweep drops it. -/
theorem drops_iff (l : Limiter) (hnew : l.size = 0) (run : List Query) (key : String) (now : Instant) :
    ((l.after run).Drops key now ↔ (l.after run).Holds key ∧ (l.after run).isSweepDue now = true ∧
      ∃ t, l.lastUsed key run = some t ∧ l.threshold < now.since t) ∧
    ∀ asked,
      (((l.after run).allow asked now).sweep.isSome = (l.after run).isSweepDue now ∧
        ((l.after run).allow asked now).decision = (((l.after run).sweep now).allow asked now).decision ∧
        ((l.after run).allow asked now).limiter = (((l.after run).sweep now).allow asked now).limiter) ∧
      (key ≠ asked → ((l.after run).Drops key now ↔
        (l.after run).Holds key ∧ ¬((l.after run).allow asked now).limiter.Holds key)) := by
  refine ⟨drops_after_iff l hnew run key now, fun asked => ?_⟩
  obtain ⟨hdecision, hlimiter, hsweep⟩ := (l.after run).allow_sweep asked now
  refine ⟨⟨hsweep, hdecision, hlimiter⟩, fun hother => ?_⟩
  rw [Drops, Holds, Holds, Holds, lastUse?_allow _ hother]

/-- One request for a key every ten seconds; keys may be idle for three. -/
def sparse : Limiter := .ofCellRate ⟨.ofSeconds 10, 0⟩ .origin .zero (.ofSeconds 3)

/-- A request that is admitted, and one for the same key two seconds later that is denied. -/
def impatient : List Query := [⟨"k", ⟨2000000000, by decide⟩⟩, ⟨"k", .origin⟩]

/-- Another two seconds later. -/
def afterwards : Instant := ⟨4000000000, by decide⟩

theorem drops_iff_impatient : sparse.size = 0 ∧ (sparse.after impatient).Drops "k" afterwards ∧
    sparse.lastUsed "k" impatient = some .origin := by
  have hused : sparse.lastUsed "k" impatient = some .origin := rfl
  have hidle : sparse.threshold < afterwards.since .origin := by decide
  exact ⟨rfl, (drops_iff sparse rfl impatient "k" afterwards).1.2 ⟨rfl, rfl, .origin, hused, hidle⟩, hused⟩

/-- **A key may be dropped although there was a request for it just now.** -/
theorem drops_denied :
    ¬∀ (l : Limiter) (run : List Query) (key : String) (now : Instant), l.size = 0 → Ordered run →
      (∀ q ∈ run, q.time ≤ now) → (l.after run).Drops key now →
      ∃ t, lastAsked key run = some t ∧ l.threshold < now.since t := by
  intro h
  have hdrops : (sparse.after impatient).Drops "k" afterwards := ⟨rfl, Bool.false_ne_true⟩
  obtain ⟨t, ht, hidle⟩ := h sparse impatient "k" afterwards rfl (by decide) (by decide) hdrops
  obtain rfl : (⟨2000000000, by decide⟩ : Instant) = t := Option.some.inj ht
  exact absurd hidle (by decide)

end Limiter

end CallGuard
