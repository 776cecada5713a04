import CallGuard.Proofs.Limiter.Run

/-!
# Runs with and without sweeps

A limiter that sweeps is compared with one that never does, request by request. What
may happen to a key is that a sweep drops its entry, after which it starts afresh.

* `Patient`: sweeps that drop only what is forgiven.
* `Rule.swept`, `Rule.unswept`: what the two limiters admit of a key.
* `Rule.seen_cases_new`: what a sweep drops was idle long enough, and long enough after the start.
* `Rule.Simulates`: what an entry without sweeps has to do with one that is swept.
* `Rule.Simulates.admitted`: **a run with sweeps admits no more than one without them.**
* `Rule.length_bursts`: what the two admit of requests at two instants with a sweep between them.
* `Rule.lt_of_bursts`: a sweep loosens the limit if the requests of the second instant find too little.
-/

namespace CallGuard

/-- **Sweeps are patient** if every idle time that one can end is forgiven. A sweep comes later than the
interval after the start, and what it drops was idle for longer than the threshold. -/
def Patient (start : Instant) (interval threshold : Span) (good : Instant → Prop) (forgives : Span → Prop) :
    Prop :=
  ∀ idle, threshold < idle → ∀ now, good now → start.nanos + idle.nanos ≤ now.nanos →
    start.nanos + interval.nanos < now.nanos → forgives idle

/-- What a sweep drops was idle for a time that is forgiven. -/
theorem Patient.forgiven {start now use : Instant} {interval threshold : Span} {good : Instant → Prop}
    {forgives : Span → Prop} (hp : Patient start interval threshold good forgives) (hnow : good now)
    (hlate : start.nanos + interval.nanos < now.nanos) (huse : start ≤ use)
    (hidle : threshold < now.since use) : forgives (now.since use) := by
  have hspan := Instant.since_nanos now use
  have hpos : threshold.nanos < (now.since use).nanos := hidle
  rw [Instant.le_iff] at huse
  exact hp _ hidle now hnow (by omega) hlate

namespace Rule

variable {α : Type} (r : Rule α) (start : Instant) (interval threshold : Span)

/-- An entry is used at the time of a request, or stays as it was. -/
def Stamps : Prop :=
  ∀ now e, (r.judge now e).2.lastUse = now ∨ (r.judge now e).2.lastUse = e.lastUse

/-- The admissions of a key by a limiter that sweeps. -/
def swept (key : String) (run : List Query) : List Instant :=
  admittedBy (r.decision (.new start interval threshold)) key run

/-- The admissions of a key by a limiter that never sweeps. -/
def unswept (key : String) (run : List Query) : List Instant :=
  admittedBy (r.decision (.new start .longest threshold)) key run

variable {r start interval threshold} {run : List Query} {key : String} {now : Instant}

theorem start_le_lastSweep (interval threshold : Span) (hstart : ∀ q ∈ run, start ≤ q.time) :
    start ≤ (r.after (.new start interval threshold) run).lastSweep := by
  induction run with
  | nil => exact Int.le_refl _
  | cons q past ih =>
    show start ≤ ((r.after _ past).sweep q.time).2.lastSweep
    rw [Store.sweep_lastSweep]
    split
    · exact hstart q List.mem_cons_self
    · exact ih fun p hp => hstart p (List.mem_cons_of_mem _ hp)

theorem start_le_lastUse (hr : r.Stamps) (hstart : ∀ q ∈ run, start ≤ q.time) {e : Stamped α}
    (he : (r.after (.new start interval threshold) run).get? key = some e) : start ≤ e.lastUse := by
  refine entry_after (r := r) (P := fun run _ e => (∀ q ∈ run, start ≤ q.time) → start ≤ e.lastUse) rfl
    (fun q past hfound hstart => ?_) (fun q past _ e _ _ hpast hstart => ?_) run he hstart
  · have hq := hstart q List.mem_cons_self
    rcases hr q.time (r.worked (.new start interval threshold) past q) with hnow | hsame
    · rw [hnow]
      exact hq
    · rw [hsame, worked]
      cases hseen : r.seen (.new start interval threshold) past q.key q.time with
      | none => exact hq
      | some e => exact hfound e hseen fun p hp => hstart p (List.mem_cons_of_mem _ hp)
  · exact hpast fun p hp => hstart p (List.mem_cons_of_mem _ hp)

/-- **What a sweep drops** was idle for longer than the threshold, and the sweep comes later than the
interval after the start. -/
theorem seen_cases_new (interval threshold : Span) (key : String) (hr : r.Stamps) (hstart : ∀ q ∈ run, start ≤ q.time) :
    r.seen (.new start interval threshold) run key now =
        (r.after (.new start interval threshold) run).get? key ∨
      r.seen (.new start interval threshold) run key now = none ∧
        start.nanos + interval.nanos < now.nanos ∧
        ∃ e, (r.after (.new start interval threshold) run).get? key = some e ∧
          threshold < now.since e.lastUse ∧ start ≤ e.lastUse := by
  rcases seen_cases (r := r) (s := .new start interval threshold) run key now with
    hsame | ⟨hnone, hdue, e, he, hidle⟩
  · exact .inl hsame
  · have hsweep := start_le_lastSweep (r := r) interval threshold hstart
    have hwait : interval < now.since (r.after (.new start interval threshold) run).lastSweep := hdue
    rw [Instant.le_iff] at hsweep
    rw [Span.lt_iff, Instant.since_nanos] at hwait
    exact .inr ⟨hnone, by omega, e, he, hidle, start_le_lastUse hr hstart he⟩

/-! ## Simulation -/

/-- **What an entry without sweeps has to do with one that is swept**, and with how many more requests the limiter
without sweeps has admitted. It holds of a key that is new to both, and goes on to hold when time passes, when a
sweep drops the entry, and when both limiters decide. -/
structure Simulates (r : Rule α) (start : Instant) (interval threshold : Span) (good : Instant → Prop)
    (rel : Instant → Option (Stamped α) → Option (Stamped α) → Nat → Prop) : Prop where
  fresh : ∀ now, rel now none none 0
  later : ∀ {now later kept left more}, now ≤ later → rel now kept left more → rel later kept left more
  drop : ∀ {now kept e more}, good now → start.nanos + interval.nanos < now.nanos → start ≤ e.lastUse →
    threshold < now.since e.lastUse → rel now kept (some e) more → rel now kept none more
  judge : ∀ {now kept left more}, good now → rel now kept left more →
    ∃ more', (admits (r.judge now (kept.getD ⟨r.fresh now, now⟩)).1).toNat + more =
        (admits (r.judge now (left.getD ⟨r.fresh now, now⟩)).1).toNat + more' ∧
      rel now (some (r.judge now (kept.getD ⟨r.fresh now, now⟩)).2)
        (some (r.judge now (left.getD ⟨r.fresh now, now⟩)).2) more'

theorem length_admittedBy_cons {decision : List Query → Query → Except TimeError Decision} (q : Query)
    {past : List Query} :
    (admittedBy decision q.key (q :: past)).length =
      (admits (decision past q)).toNat + (admittedBy decision q.key past).length := by
  rw [admittedBy]
  cases h : admits (decision past q) with
  | true => rw [if_pos ⟨rfl, rfl⟩, List.length_cons, Bool.toNat_true, Nat.add_comm]
  | false => rw [if_neg (by simp), Bool.toNat_false, Nat.zero_add]

/-- A request finds its key as the requests before it left it, after its own sweep. -/
theorem Simulates.seen {good : Instant → Prop}
    {rel : Instant → Option (Stamped α) → Option (Stamped α) → Nat → Prop}
    (h : r.Simulates start interval threshold good rel) (hr : r.Stamps)
    (hstart : ∀ q ∈ run, start ≤ q.time) (hnow : good now) {more : Nat}
    (hrel : rel now ((r.after (.new start .longest threshold) run).get? key)
      ((r.after (.new start interval threshold) run).get? key) more) :
    rel now (r.seen (.new start .longest threshold) run key now)
      (r.seen (.new start interval threshold) run key now) more := by
  rw [seen_longest rfl]
  rcases seen_cases_new interval threshold key hr hstart with hsame | ⟨hnone, hlate, e, he, hidle, huse⟩
  · rw [hsame]
    exact hrel
  · rw [hnone]
    rw [he] at hrel
    exact h.drop hnow hlate huse hidle hrel

/-- **Without sweeps no fewer requests are admitted.** -/
theorem Simulates.admitted {good : Instant → Prop}
    {rel : Instant → Option (Stamped α) → Option (Stamped α) → Nat → Prop}
    (h : r.Simulates start interval threshold good rel) (hr : r.Stamps) (ho : Ordered run)
    (hstart : ∀ q ∈ run, start ≤ q.time) (hgood : ∀ q ∈ run, good q.time) (key : String) :
    ∀ now, (∀ q ∈ run, q.time ≤ now) →
      ∃ more, (r.unswept start threshold key run).length =
          (r.swept start interval threshold key run).length + more ∧
        rel now ((r.after (.new start .longest threshold) run).get? key)
          ((r.after (.new start interval threshold) run).get? key) more := by
  induction run with
  | nil => exact fun now _ => ⟨0, rfl, h.fresh now⟩
  | cons q past ih =>
    intro now hnow
    have hq := hgood q List.mem_cons_self
    have hstart' := fun p hp => hstart p (List.mem_cons_of_mem _ hp)
    obtain ⟨more, hlength, hrel⟩ :=
      ih ho.tail hstart' (fun p hp => hgood p (List.mem_cons_of_mem _ hp)) q.time ho.le
    have hrel := h.seen hr hstart' hq hrel
    rw [get?_after_cons, get?_after_cons]
    by_cases hkey : key = q.key
    · subst hkey
      obtain ⟨more', hcount, hrel'⟩ := h.judge hq hrel
      refine ⟨more', ?_, ?_⟩
      · rw [unswept, swept, length_admittedBy_cons, length_admittedBy_cons]
        rw [unswept, swept] at hlength
        have hcount : (admits (r.decision (.new start .longest threshold) past q)).toNat + more =
          (admits (r.decision (.new start interval threshold) past q)).toNat + more' := hcount
        omega
      · rw [if_pos rfl, if_pos rfl]
        exact h.later (hnow q List.mem_cons_self) hrel'
    · -- another key: only the sweep of the request matters
      refine ⟨more, ?_, ?_⟩
      · rw [unswept, swept, admittedBy, admittedBy, if_neg fun hk => hkey hk.1.symm,
          if_neg fun hk => hkey hk.1.symm]
        exact hlength
      · rw [if_neg hkey, if_neg hkey]
        exact h.later (hnow q List.mem_cons_self) hrel

/-- Two limiters of which neither has admitted more admit the same. -/
theorem Simulates.swept_eq {good : Instant → Prop}
    {rel : Instant → Option (Stamped α) → Option (Stamped α) → Nat → Prop}
    (h : r.Simulates start interval threshold good rel)
    (hnone : ∀ {now kept left more}, rel now kept left more → more = 0) (hr : r.Stamps)
    (ho : Ordered run) (hstart : ∀ q ∈ run, start ≤ q.time) (hgood : ∀ q ∈ run, good q.time)
    (key : String) : r.swept start interval threshold key run = r.unswept start threshold key run := by
  induction run with
  | nil => rfl
  | cons q past ih =>
    have hstart' := fun p hp => hstart p (List.mem_cons_of_mem _ hp)
    have hgood' := fun p hp => hgood p (List.mem_cons_of_mem _ hp)
    have hrest := ih ho.tail hstart' hgood'
    rw [swept, unswept] at hrest ⊢
    by_cases hkey : q.key = key
    · subst hkey
      obtain ⟨more, hlength, hrel⟩ := h.admitted hr ho hstart hgood q.key q.time ho.le_last
      obtain rfl := hnone hrel
      rw [swept, unswept, length_admittedBy_cons, length_admittedBy_cons, hrest] at hlength
      have hinj : ∀ a b : Bool, a.toNat = b.toNat → a = b := by decide
      have hsame : admits (r.decision (.new start .longest threshold) past q) =
          admits (r.decision (.new start interval threshold) past q) := hinj _ _ (by omega)
      rw [admittedBy, admittedBy, hrest, hsame]
    · rw [admittedBy, admittedBy, if_neg fun hk => hkey hk.1, if_neg fun hk => hkey hk.1, hrest]

/-- The threshold means nothing to a limiter that never sweeps. -/
theorem unswept_threshold (r : Rule α) (start : Instant) (threshold threshold' : Span) (run : List Query) :
    (∀ key, (r.after (.new start .longest threshold) run).get? key =
        (r.after (.new start .longest threshold') run).get? key) ∧
      ∀ key, r.unswept start threshold key run = r.unswept start threshold' key run := by
  induction run with
  | nil => exact ⟨fun _ => rfl, fun _ => rfl⟩
  | cons q past ih =>
    obtain ⟨hsame, hrest⟩ := ih
    have hseen : ∀ key, r.seen (.new start .longest threshold) past key q.time =
        r.seen (.new start .longest threshold') past key q.time := by
      intro key
      rw [seen_longest rfl, seen_longest rfl, hsame]
    have hworked : r.worked (.new start .longest threshold) past q =
        r.worked (.new start .longest threshold') past q := by rw [worked, worked, hseen]
    refine ⟨fun key => ?_, fun key => ?_⟩
    · rw [get?_after_cons, get?_after_cons, hworked, hseen]
    · have hrest := hrest key
      rw [unswept, unswept] at hrest ⊢
      rw [admittedBy, admittedBy, hrest, decision_eq, decision_eq, hworked]

/-! ## Requests at one instant -/

/-- The entry of a key after so many requests at one instant. -/
def entryAfter (r : Rule α) (now : Instant) (e : Option (Stamped α)) : Nat → Option (Stamped α)
  | 0 => e
  | n + 1 => some (r.judge now ((entryAfter r now e n).getD ⟨r.fresh now, now⟩)).2

/-- How many of so many requests at one instant are admitted. -/
def admittedAt (r : Rule α) (now : Instant) (e : Option (Stamped α)) : Nat → Nat
  | 0 => 0
  | n + 1 =>
    (admits (r.judge now ((r.entryAfter now e n).getD ⟨r.fresh now, now⟩)).1).toNat + admittedAt r now e n

/-- A request finds what another one of the same time left. -/
theorem seen_after_cons (r : Rule α) (s : Store α) (past : List Query) (q : Query) (key : String) :
    r.seen s (q :: past) key q.time = (r.after s (q :: past)).get? key := by
  have hdue : (r.after s (q :: past)).isSweepDue q.time = false :=
    Store.isSweepDue_sweep (r.after s past) q.time
  rw [seen, Store.get?_sweep, hdue]
  rfl

/-- **Requests at one instant** depend on what the first of them finds. -/
theorem burst (r : Rule α) (s : Store α) (past : List Query) (key : String) (now : Instant) (n : Nat) :
    (admittedBy (r.decision s) key (List.replicate n ⟨key, now⟩ ++ past)).length =
        r.admittedAt now (r.seen s past key now) n + (admittedBy (r.decision s) key past).length ∧
      r.seen s (List.replicate n ⟨key, now⟩ ++ past) key now =
        r.entryAfter now (r.seen s past key now) n := by
  induction n with
  | zero => exact ⟨(Nat.zero_add _).symm, rfl⟩
  | succ n ih =>
    obtain ⟨hlength, hseen⟩ := ih
    rw [List.replicate_succ, List.cons_append]
    refine ⟨?_, ?_⟩
    · rw [length_admittedBy_cons ⟨key, now⟩, hlength, decision_eq, worked, hseen, admittedAt, Nat.add_assoc]
    · rw [seen_after_cons r s _ ⟨key, now⟩, get?_after_cons, if_pos rfl, worked, hseen, entryAfter]

/-- Requests that come before a sweep is due do not move it. -/
theorem lastSweep_replicate {q : Query} (h : q.time.nanos ≤ start.nanos + interval.nanos) (n : Nat) :
    (r.after (.new start interval threshold) (List.replicate n q)).lastSweep = start := by
  induction n with
  | zero => rfl
  | succ n ih =>
    have hdue : (r.after (.new start interval threshold) (List.replicate n q)).isSweepDue q.time = false := by
      rw [Store.isSweepDue, ih, after_interval, decide_eq_false_iff_not, Span.lt_iff, Instant.since_nanos]
      show ¬interval.nanos < _
      omega
    rw [List.replicate_succ]
    show ((r.after _ (List.replicate n q)).sweep q.time).2.lastSweep = start
    rw [Store.sweep_lastSweep, hdue]
    exact ih

/-- An entry that requests at one instant made was used then. -/
theorem lastUse_entryAfter (hr : r.Stamps) {e : Stamped α} {n : Nat}
    (he : r.entryAfter now none n = some e) : e.lastUse = now := by
  induction n generalizing e with
  | zero => cases he
  | succ n ih =>
    obtain rfl := Option.some.inj he
    rcases hr now ((r.entryAfter now none n).getD ⟨r.fresh now, now⟩) with hnow | hsame
    · exact hnow
    · rw [hsame]
      cases hprev : r.entryAfter now none n with
      | none => rfl
      | some e => exact ih hprev

/-- Requests for a key at two instants. -/
def bursts (key : String) (first second : Instant) (n m : Nat) : List Query :=
  List.replicate m ⟨key, second⟩ ++ List.replicate n ⟨key, first⟩

theorem time_of_mem_bursts {first second : Instant} {n m : Nat} {q : Query}
    (hq : q ∈ bursts key first second n m) : q.time = second ∨ q.time = first := by
  rcases List.mem_append.1 hq with hq | hq
  · exact .inl (List.eq_of_mem_replicate hq ▸ rfl)
  · exact .inr (List.eq_of_mem_replicate hq ▸ rfl)

theorem ordered_bursts {first second : Instant} (h : first ≤ second) (key : String) (n m : Nat) :
    Ordered (bursts key first second n m) := by
  have hsame : ∀ {now : Instant} {k : Nat}, ∀ q ∈ List.replicate k (⟨key, now⟩ : Query), q.time = now := by
    intro now k q hq
    rw [List.eq_of_mem_replicate hq]
  have hfirst : Ordered (List.replicate n ⟨key, first⟩ ++ []) :=
    Ordered.append .nil hsame (List.forall_mem_nil _)
  rw [List.append_nil] at hfirst
  refine hfirst.append hsame fun q hq => ?_
  rw [hsame q hq]
  exact h

/-- **The first requests** of a run depend on a new key only. -/
theorem burst_new (r : Rule α) (start : Instant) (interval threshold : Span) (key : String) (now : Instant)
    {n : Nat} (hn : 0 < n) :
    (admittedBy (r.decision (.new start interval threshold)) key (List.replicate n ⟨key, now⟩)).length =
        r.admittedAt now none n ∧
      (r.after (.new start interval threshold) (List.replicate n ⟨key, now⟩)).get? key =
        r.entryAfter now none n := by
  have hnone : r.seen (.new start interval threshold) [] key now = none := by
    rw [seen, Store.get?_sweep]
    split <;> rfl
  have hburst := r.burst (.new start interval threshold) [] key now n
  rw [List.append_nil, hnone] at hburst
  refine ⟨hburst.1, ?_⟩
  obtain ⟨n, rfl⟩ : ∃ k, n = k + 1 := ⟨n - 1, by omega⟩
  rw [List.replicate_succ, seen_after_cons r _ _ ⟨key, now⟩] at hburst
  exact hburst.2

/-- A sweep drops what they left, if it comes after an idle time above the threshold. -/
theorem seen_dropped (hr : r.Stamps) (key : String) {first second : Instant} {idle : Span}
    (hidle : threshold < idle) (hfirst : first.nanos + idle.nanos = second.nanos)
    (hearly : first.nanos ≤ start.nanos + interval.nanos)
    (hlate : start.nanos + interval.nanos < second.nanos) {n : Nat} (hn : 0 < n) :
    r.seen (.new start interval threshold) (List.replicate n ⟨key, first⟩) key second = none := by
  have hdue : (r.after (.new start interval threshold)
      (List.replicate n ⟨key, first⟩)).isSweepDue second := by
    rw [Store.isSweepDue, lastSweep_replicate hearly, after_interval, decide_eq_true_iff, Span.lt_iff,
      Instant.since_nanos]
    show interval.nanos < _
    omega
  rw [seen, Store.get?_sweep, if_pos hdue, (burst_new r start interval threshold key first hn).2]
  cases he : r.entryAfter first none n with
  | none => rfl
  | some e =>
    have hdead : ¬second.since e.lastUse ≤ threshold := by
      rw [lastUse_entryAfter hr he, Span.le_iff, Instant.since_nanos]
      rw [Span.lt_iff] at hidle
      omega
    simpa [Option.filter, Store.isLive, after_threshold, Store.new] using hdead

/-- **A sweep between two instants** lets the requests of the second start afresh; without it they find
what those of the first left. -/
theorem length_bursts (hr : r.Stamps) (key : String) {first second : Instant} {idle : Span}
    (hidle : threshold < idle) (hfirst : first.nanos + idle.nanos = second.nanos)
    (hearly : first.nanos ≤ start.nanos + interval.nanos)
    (hlate : start.nanos + interval.nanos < second.nanos) {n : Nat} (hn : 0 < n) (m : Nat) :
    (r.unswept start threshold key (bursts key first second n m)).length =
        r.admittedAt second (r.entryAfter first none n) m + r.admittedAt first none n ∧
      (r.swept start interval threshold key (bursts key first second n m)).length =
        r.admittedAt second none m + r.admittedAt first none n := by
  have hunswept := burst_new r start .longest threshold key first hn
  have hswept := burst_new r start interval threshold key first hn
  refine ⟨?_, ?_⟩
  · rw [unswept, bursts, (r.burst _ _ key second m).1, seen_longest rfl, hunswept.2, hunswept.1]
  · rw [swept, bursts, (r.burst _ _ key second m).1, seen_dropped hr key hidle hfirst hearly hlate hn,
      hswept.1]

/-- **A sweep between two instants loosens the limit**, where the requests of the second find less than a
new key has. -/
theorem lt_of_bursts (hr : r.Stamps) (key : String) {first second : Instant} {idle : Span}
    (hidle : threshold < idle) (hfirst : first.nanos + idle.nanos = second.nanos)
    (hearly : first.nanos ≤ start.nanos + interval.nanos)
    (hlate : start.nanos + interval.nanos < second.nanos) {n m : Nat} (hn : 0 < n)
    (hless : r.admittedAt second (r.entryAfter first none n) m < r.admittedAt second none m) :
    (r.unswept start threshold key (bursts key first second n m)).length <
      (r.swept start interval threshold key (bursts key first second n m)).length := by
  obtain ⟨hunswept, hswept⟩ := length_bursts hr key hidle hfirst hearly hlate hn m
  rw [hunswept, hswept]
  exact Nat.add_lt_add_right hless _

end Rule

end CallGuard
