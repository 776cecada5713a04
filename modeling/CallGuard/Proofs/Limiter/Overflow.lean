import CallGuard.Proofs.Limiter.Waits

/-!
# Which requests are decided

A time computation of a limiter fails in one place only: the end of the window of the oldest
admission that a full window holds, where that end is no instant. Validation accepts windows of
any length, so there are accepted settings under which a request is not decided. Nothing else
that a limiter computes with leaves its range: the queue of a window is never longer than the
rate, and a sweep never drops more keys than there are.

* `SlidingWindow.queue`: what a request finds in its window.
* `SlidingWindow.length_queue_le`, `SlidingWindow.queue_sublist`: these are admissions of its key,
  and no more of them than the rate.
* `Limiter.computes`: **which requests are decided**, in any run, also of a clock that goes back.
* `Limiter.overflows`: not all requests of accepted settings are.
-/

namespace CallGuard

theorem Instant.exists_add_iff {t : Instant} {s : Span} :
    (∃ u, t.add s = .ok u) ↔ t.nanos + s.nanos ≤ maxNanos := by
  constructor
  · rintro ⟨u, hu⟩
    unfold add at hu
    split at hu
    · rename_i later hsum
      have hlater := add?_eq_some_iff.1 hsum
      have hrange := later.inRange.2
      omega
    · cases hu
  · intro h
    obtain ⟨u, hu, -⟩ := exists_add h
    exact ⟨u, hu⟩

/-- A sweep counts every entry once. -/
theorem Store.evicted_add_live {α : Type} {s : Store α} {now : Instant} {sweep : Sweep}
    (h : (s.sweep now).1 = some sweep) : sweep.evicted + sweep.live = s.size := by
  have hfew : (s.swept now).size ≤ s.size := List.length_filter_le _ _
  unfold Store.sweep at h
  split at h
  · cases h
    dsimp only
    omega
  · cases h

namespace SlidingWindow

variable {w : SlidingWindow} {s : Store (List Instant)} {now : Instant}

/-- **What a request finds in its window**, oldest first. -/
def queue (w : SlidingWindow) (s : Store (List Instant)) (past : List Query) (q : Query) : List Instant :=
  w.current q.time (w.rule.worked s past q).value

theorem decision_queue (w : SlidingWindow) (s : Store (List Instant)) (past : List Query) (q : Query) :
    w.rule.decision s past q = w.answer q.time (w.queue s past q) := by
  rw [Rule.decision_eq]
  show (w.judge q.time (w.rule.worked s past q)).1 = _
  rw [judge_eq]
  rfl

/-- **A queue is never longer than the rate.** -/
theorem length_queue_le (w : SlidingWindow) (hs : s.entries = .empty) (past : List Query) (q : Query) :
    (w.queue s past q).length ≤ w.rate.toNat :=
  Nat.le_trans (List.dropWhile_sublist _).length_le (length_worked_le hs past q)

/-- **What is queued was admitted**, in this order. -/
theorem queue_sublist (w : SlidingWindow) (hs : s.entries = .empty) (past : List Query) (q : Query) :
    (w.queue s past q).Sublist (admittedBy (w.rule.decision s) q.key past).reverse := by
  have hworked := Rule.value_worked (r := w.rule)
    (P := fun past key times => times.Sublist (admittedBy (w.rule.decision s) key past).reverse) hs
    (fun _ _ _ => List.nil_sublist _) ?_ ?_ past q
  · exact (List.dropWhile_sublist _).trans hworked
  · intro q past hpast
    have hqueue : (w.queue s past q).Sublist (admittedBy (w.rule.decision s) q.key past).reverse :=
      (List.dropWhile_sublist _).trans hpast
    have hadmits : admits (w.rule.decision s past q) ↔ (w.queue s past q).length < w.rate.toNat := by
      rw [decision_queue, admits_answer]
    have hleft : (w.rule.judge q.time (w.rule.worked s past q)).2.value =
        if (w.queue s past q).length < w.rate.toNat then w.queue s past q ++ [q.time]
        else w.queue s past q := by
      show (w.judge q.time (w.rule.worked s past q)).2.value = _
      rw [judge_eq]
      exact apply_ite Stamped.value _ _ _
    rw [hleft, admittedBy]
    by_cases hroom : (w.queue s past q).length < w.rate.toNat
    · rw [if_pos hroom, if_pos ⟨rfl, hadmits.2 hroom⟩, List.reverse_cons]
      exact hqueue.append_right _
    · rw [if_neg hroom, if_neg fun h => hroom (hadmits.1 h.2)]
      exact hqueue
  · intro q past key times hkey hpast
    rw [admittedBy, if_neg fun h => hkey h.1.symm]
    exact hpast

/-- **An answer is a decision** unless the window is full and the end of the window of its oldest admission is
no instant. -/
theorem exists_answer_iff {recent : List Instant} :
    (∃ d, w.answer now recent = .ok d) ↔ ¬(w.rate.toNat ≤ recent.length ∧
      ∃ oldest, recent.head? = some oldest ∧ Instant.maxNanos < oldest.nanos + w.window.nanos) := by
  unfold answer
  by_cases hroom : recent.length < w.rate.toNat
  · simp [hroom]
  · rw [if_neg hroom]
    cases recent with
    | nil => simp [wait, bind, Except.bind, pure, Except.pure]
    | cons oldest rest =>
      have hsum := Instant.exists_add_iff (t := oldest) (s := w.window)
      have hfull : w.rate.toNat ≤ (oldest :: rest).length := Nat.le_of_not_lt hroom
      simp only [hfull, true_and, List.head?_cons, Option.some.injEq, exists_eq_left', Int.not_lt, ← hsum]
      unfold wait
      cases hend : oldest.add w.window with
      | ok u => simp [bind, Except.bind, pure, Except.pure, hend]
      | error e => simp [bind, Except.bind, hend]

/-- What remains of the rate after an admission is not cut off at zero. -/
theorem allowed_add_length {recent : List Instant} {m : Nat} (h : w.answer now recent = .ok (.allowed m)) :
    m + (recent.length + 1) = w.rate.toNat := by
  have hroom : recent.length < w.rate.toNat := by
    rw [← admits_answer (w := w) now, h]
    rfl
  rw [answer, if_pos hroom] at h
  cases h
  omega

end SlidingWindow

namespace Limiter

/-- **What a request finds in its window**, oldest first: the other rules have none. -/
def queue (l : Limiter) (past : List Query) (q : Query) : List Instant :=
  match l with
  | tokenBucket _ _ => []
  | slidingWindow w s => w.queue s past q
  | cellRate _ _ => []

/-- The window is full, and the end of the window of its oldest admission is no instant. -/
def Algorithm.Overflows : Algorithm → List Instant → Prop
  | .tokenBucket _ _, _ => False
  | .slidingWindow rate window, queue => rate.toNat ≤ queue.length ∧
    ∃ oldest, queue.head? = some oldest ∧ Instant.maxNanos < oldest.nanos + window.nanos
  | .cellRate _ _, _ => False

/-- **What a limiter computes** for a request after a run. The request is decided, unless its window overflows, so
that it is if the windows of the key's admissions end in the range of the clock. What is in the window was admitted,
in this order. It is no more than the rate, and what remains of the rate is exact. A sweep that comes with the
request counts every key once. -/
structure Config.Computes (c : Config) (start : Instant) (past : List Query) (q : Query) : Prop where
  decided : (∃ d, (c.build start).decision past q = .ok d) ↔
    ¬c.algorithm.Overflows ((c.build start).queue past q)
  inRange : (∀ rate window, c.algorithm = .slidingWindow rate window →
      ∀ t ∈ (c.build start).admitted q.key past, t.nanos + window.nanos ≤ Instant.maxNanos) →
    ∃ d, (c.build start).decision past q = .ok d
  queued : ((c.build start).queue past q).Sublist ((c.build start).admitted q.key past).reverse
  room : ∀ rate window, c.algorithm = .slidingWindow rate window →
    ((c.build start).queue past q).length ≤ rate.toNat ∧
      ∀ m, (c.build start).decision past q = .ok (.allowed m) →
        m + (((c.build start).queue past q).length + 1) = rate.toNat
  swept : ∀ sweep, (((c.build start).after past).allow q.key q.time).sweep = some sweep →
    sweep.evicted + sweep.live = ((c.build start).after past).size

theorem evicted_add_live (l : Limiter) (key : String) (now : Instant) {sweep : Sweep}
    (h : (l.allow key now).sweep = some sweep) : sweep.evicted + sweep.live = l.size := by
  cases l with
  | tokenBucket b s => exact Store.evicted_add_live h
  | slidingWindow w s => exact Store.evicted_add_live h
  | cellRate c s => exact Store.evicted_add_live h

/-- A rule without windows computes what it should, since it decides every request. -/
theorem computes_of_decided {c : Config} {start : Instant} {past : List Query} {q : Query}
    (hrule : ∀ rate window, c.algorithm ≠ .slidingWindow rate window)
    (hqueue : (c.build start).queue past q = [])
    (hdecided : ∃ d, (c.build start).decision past q = .ok d) : c.Computes start past q where
  decided := by
    have hnever : ¬c.algorithm.Overflows ((c.build start).queue past q) := by
      intro hoverflows
      unfold Algorithm.Overflows at hoverflows
      split at hoverflows
      · exact hoverflows
      · rename_i rate window hwindow
        exact hrule rate window hwindow
      · exact hoverflows
    exact iff_of_true hdecided hnever
  inRange _ := hdecided
  queued := by
    rw [hqueue]
    exact List.nil_sublist _
  room rate window hwindow := absurd hwindow (hrule rate window)
  swept _ := evicted_add_live _ _ _

/-- **Which requests are decided**: all but those that find a full window whose oldest admission leaves it
beyond the range of the clock. -/
theorem computes (c : Config) (start : Instant) (past : List Query) (q : Query) :
    c.Computes start past q := by
  obtain ⟨algorithm, interval, threshold⟩ := c
  cases algorithm with
  | tokenBucket rate capacity =>
    have hdecision : (Config.build ⟨.tokenBucket rate capacity, interval, threshold⟩ start).decision =
        (⟨rate, capacity⟩ : TokenBucket Float).rule.decision (.new start interval threshold) :=
      decision_tokenBucket _ _
    refine computes_of_decided nofun rfl ?_
    rw [hdecision]
    exact ⟨_, rfl⟩
  | cellRate rate burst =>
    have hdecision : (Config.build ⟨.cellRate rate burst, interval, threshold⟩ start).decision =
        (CellRate.ofRate rate burst).rule.decision (.new start interval threshold) := decision_cellRate _ _
    refine computes_of_decided nofun rfl ?_
    rw [hdecision]
    exact ⟨_, rfl⟩
  | slidingWindow rate window =>
    set w : SlidingWindow := ⟨rate, window⟩
    set s : Store (List Instant) := .new start interval threshold
    have hdecision : (Config.build ⟨.slidingWindow rate window, interval, threshold⟩ start).decision =
        w.rule.decision s := decision_slidingWindow w s
    have hqueued := w.queue_sublist (s := s) rfl past q
    have hdecided : (∃ d, w.rule.decision s past q = .ok d) ↔ ¬(Algorithm.slidingWindow rate window).Overflows
        (w.queue s past q) := by
      rw [w.decision_queue]
      exact SlidingWindow.exists_answer_iff
    refine ⟨by rw [hdecision]; exact hdecided, ?_, ?_, ?_, fun _ => evicted_add_live _ _ _⟩
    · intro hrange
      rw [hdecision, hdecided]
      rintro ⟨-, oldest, hhead, hlate⟩
      have hadmitted := List.mem_reverse.1 (hqueued.subset (List.mem_of_head? hhead))
      rw [admitted, hdecision] at hrange
      have hsoon := hrange rate window rfl oldest hadmitted
      omega
    · rw [admitted, hdecision]
      exact hqueued
    · intro rate' window' h
      cases h
      refine ⟨w.length_queue_le rfl past q, fun m hm => ?_⟩
      rw [hdecision, w.decision_queue] at hm
      exact SlidingWindow.allowed_add_length hm

/-- One request in the longest window there is. -/
def Config.endless : Config :=
  ⟨.slidingWindow 1 .longest, Store.defaultInterval, Store.defaultThreshold⟩

/-- **Not every request of accepted settings is decided**: the second one in a window that has no end. -/
theorem overflows :
    ¬∀ (c : Config) (start : Instant) (past : List Query) (q : Query), c.validate = .ok () →
      Ordered (q :: past) → ∃ d, (c.build start).decision past q = .ok d := by
  intro h
  obtain ⟨d, hd⟩ := h .endless .origin [⟨"k", .origin⟩] ⟨"k", .origin⟩ rfl (by decide)
  have hfails : (Config.endless.build .origin).decision [⟨"k", .origin⟩] ⟨"k", .origin⟩ =
      .error .overflow := by decide
  rw [hfails] at hd
  cases hd

end Limiter

end CallGuard
