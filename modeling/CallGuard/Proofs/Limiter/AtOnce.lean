import CallGuard.Proofs.Limiter.Independence.CellRate

/-!
# Requests at one instant

A new key is ahead of its requests, so a cell rate admits two of them at once, whatever the
burst: the first one moves the arrival time to now, and the second one an interval on. That
needs an instant there. Where the clock ends before, an arrival time stays at now, and every
request of the instant is admitted. Validation accepts rates so small that this is so from the
start of the clock on.

* `Limiter.Guarded`: a limiter admits two requests of a key at once, at most.
* `Limiter.Open`: a limiter admits all requests of a new key at once.
* `CellRate.Twice`: what is kept of a key during an instant; a run keeps it where the next arrival
  time is in range.
* `CellRate.advanced_of_not_inRange`: where it is not, arrival times do not get past now.
* `Limiter.guarded_iff`: **a cell rate limiter is guarded exactly where the next arrival time is in
  range**, and open elsewhere.
* `Limiter.unguarded`: not all accepted settings are guarded.
-/

namespace CallGuard

/-- **A limiter is guarded at a time** if in no run it admits more than two requests for a key then. -/
def Limiter.Guarded (l : Limiter) (now : Instant) : Prop :=
  ∀ run key, Ordered run → (l.admitted key run).count now ≤ 2

/-- **A limiter is open at a time** if it admits every request for a key then, as long as the key is new,
whatever there was before. -/
def Limiter.Open (l : Limiter) (now : Instant) : Prop :=
  ∀ past key n, (∀ q ∈ past, q.key ≠ key) →
    l.admitted key (List.replicate n ⟨key, now⟩ ++ past) = List.replicate n now ++ l.admitted key past

namespace CellRate

variable {c : CellRate} {now time later : Instant} {entry : Option (Stamped Instant)} {e : Stamped Instant}
  {admitted : List Instant} {s : Store Instant} {past : List Query} {key : String}

/-! ## In range -/

/-- **What is kept of a key during an instant**: the arrival time is not before the instant once a request of
it was admitted, and an interval after it once a second one was. -/
structure Twice (c : CellRate) (now : Instant) (entry : Option (Stamped Instant)) (admitted : List Instant)
    (time : Instant) : Prop where
  few : admitted.count now ≤ 2
  early : time < now → admitted.count now = 0
  during : time = now → 0 < admitted.count now → ∃ e, entry = some e ∧ e.lastUse = now ∧
    now.nanos + (admitted.count now - 1 : Nat) * c.interval.nanos ≤ e.value.nanos

theorem twice_nothing (c : CellRate) (now time : Instant) : c.Twice now none [] time :=
  ⟨by simp, by simp, by simp⟩

/-- Before the instant nothing of it is admitted, after it nothing more. -/
theorem Twice.mono (h : c.Twice now entry admitted time) (hle : time ≤ later) :
    c.Twice now entry admitted later := by
  rw [Instant.le_iff] at hle
  refine ⟨h.few, fun hearly => h.early ?_, fun hlater hpos => ?_⟩
  · rw [Instant.lt_iff] at hearly ⊢
    omega
  · subst hlater
    by_cases hsame : time = later
    · exact h.during hsame hpos
    · have hzero : admitted.count later = 0 := by
        apply h.early
        have hne : time.nanos ≠ later.nanos := fun hnanos => hsame (Instant.ext hnanos)
        rw [Instant.lt_iff]
        omega
      omega

theorem Twice.dropped {threshold : Span} (h : c.Twice now (some e) admitted time)
    (hidle : threshold < time.since e.lastUse) : c.Twice now none admitted time := by
  refine ⟨h.few, h.early, fun htime hpos => ?_⟩
  -- a key admitted at the instant is not idle during it
  obtain ⟨kept, hkept, huse, -⟩ := h.during htime hpos
  cases hkept
  rw [huse, htime, Span.lt_iff, Instant.since_nanos] at hidle
  omega

theorem Twice.other (h : c.Twice now entry admitted time) (hne : time ≠ now) (left : Option (Stamped Instant)) :
    c.Twice now left (time :: admitted) time := by
  have hcount : (time :: admitted).count now = admitted.count now := List.count_cons_of_ne hne
  refine ⟨?_, ?_, fun hsame => absurd hsame hne⟩
  · rw [hcount]
    exact h.few
  · rw [hcount]
    exact h.early

/-- **An admission at the instant** is the first one or the second one. -/
theorem Twice.admit (h : c.Twice now entry admitted now) (hpos : 0 < c.interval.nanos) (hnow : c.InRange now)
    (he : e = entry.getD ⟨c.fresh now, now⟩) (hle : e.value ≤ now) :
    c.Twice now (some ⟨c.advanced now e.value, now⟩) (now :: admitted) now := by
  have hcount : (now :: admitted).count now = admitted.count now + 1 := List.count_cons_self
  have hadvanced := advanced_nanos hle hnow
  rw [Instant.le_iff] at hle
  -- after one admission the arrival time is exactly now, and after two there is no third one
  have hahead : admitted.count now = 0 ∨ admitted.count now = 1 ∧ now.nanos ≤ e.value.nanos := by
    rcases Nat.eq_zero_or_pos (admitted.count now) with hnone | hsome
    · exact .inl hnone
    · obtain ⟨kept, rfl, -, hvalue⟩ := h.during rfl hsome
      obtain rfl : e = kept := he
      have hfew := h.few
      obtain hone | htwo : admitted.count now = 1 ∨ admitted.count now = 2 := by omega
      · rw [hone] at hvalue ⊢
        simp at hvalue
        exact .inr ⟨rfl, hvalue⟩
      · rw [htwo] at hvalue
        simp at hvalue
        omega
  refine ⟨?_, fun hearly => absurd hearly (Int.lt_irrefl _), fun _ _ => ⟨_, rfl, rfl, ?_⟩⟩
  · rw [hcount]
    omega
  · rw [hcount]
    dsimp only
    obtain hnone | ⟨hone, hvalue⟩ := hahead
    · rw [hnone]
      simp
      omega
    · rw [hone]
      simp
      omega

/-- **A run keeps track of an instant**, where the next arrival time is in range. -/
theorem tracks_twice {threshold : Span} (hpos : 0 < c.interval.nanos) (hnow : c.InRange now) :
    c.rule.Tracks threshold (fun _ _ => True) (c.Twice now) where
  fresh := c.twice_nothing now
  later hle h := h.mono hle
  drop hidle h := h.dropped hidle
  judge {time entry admitted e} he _ _ h := by
    by_cases hle : e.value ≤ time
    · rw [(judge_admitted hle).1, (judge_admitted hle).2, if_pos rfl]
      by_cases hsame : time = now
      · subst hsame
        exact h.admit hpos hnow he hle
      · exact h.other hsame _
    · have hlt : time < e.value := Int.lt_of_not_ge hle
      rw [(judge_denied hlt).1, (judge_denied hlt).2]
      cases entry with
      | none =>
        subst he
        exact absurd (c.fresh_le time) hle
      | some kept =>
        obtain rfl : e = kept := he
        exact h

/-- **At most two requests of a key are admitted at once**, where the next arrival time is in range. -/
theorem count_admitted_le (hpos : 0 < c.interval.nanos) (hnow : c.InRange now) (hs : s.entries = .empty)
    (key : String) {run : List Query} (ho : Ordered run) :
    (admittedBy (c.rule.decision s) key run).count now ≤ 2 := by
  cases run with
  | nil => simp [admittedBy]
  | cons q past =>
    have htracks : c.rule.Tracks s.threshold (fun _ _ => True) (c.Twice now) := tracks_twice hpos hnow
    exact (htracks.after hs key ho (Rule.along_of fun _ _ _ => trivial) q.time ho.le_last).few

/-! ## Out of range -/

/-- **Where the next arrival time is out of range, arrival times do not get past now**, neither those of new
keys nor now itself. -/
theorem advanced_of_not_inRange (hnow : ¬c.InRange now) :
    c.advanced now (c.fresh now) = now ∧ c.advanced now now = now := by
  have hstay : c.advanced now now = now :=
    Instant.ext (advanced_nanos_of_not_range (Int.le_refl _) hnow)
  refine ⟨?_, hstay⟩
  unfold fresh
  cases hsub : now.sub? (c.interval.scale c.burst.toNat) with
  | none => exact hstay
  | some start =>
    have hstart := Instant.sub?_eq_some_iff.1 hsub
    rw [Span.scale_nanos] at hstart
    rw [Option.getD_some]
    rcases Nat.eq_zero_or_pos c.burst.toNat with hburst | hburst
    · -- a new key that is not ahead starts at now
      rw [hburst] at hstart
      obtain rfl : start = now := Instant.ext (by omega)
      exact hstay
    · -- one that is ahead is so by an interval or more
      have hmore : c.interval.nanos ≤ c.interval.nanos * c.burst.toNat := Nat.le_mul_of_pos_right _ hburst
      have hmost := c.interval.nanos_le
      have hlast := now.inRange.2
      apply Instant.ext
      rw [advanced_nanos_of_range now (by omega)]
      omega

theorem admitted_at (hnow : ¬c.InRange now) {arrival : Instant} (h : arrival = c.fresh now ∨ arrival = now) :
    arrival ≤ now ∧ c.advanced now arrival = now := by
  obtain ⟨hfresh, hstay⟩ := advanced_of_not_inRange hnow
  rcases h with h | h
  · rw [h]
    exact ⟨c.fresh_le now, hfresh⟩
  · rw [h]
    exact ⟨Int.le_refl _, hstay⟩

theorem get?_of_new (hs : s.entries = .empty) (hnew : ∀ q ∈ past, q.key ≠ key) :
    (c.rule.after s past).get? key = none := by
  cases he : (c.rule.after s past).get? key with
  | none => rfl
  | some e =>
    obtain ⟨q, hq, hkey⟩ : ∃ q ∈ past, q.key = key := by
      refine Rule.entry_after (P := fun past key _ => ∃ q ∈ past, q.key = key) hs ?_ ?_ past he
      · intro q past _
        exact ⟨q, List.mem_cons_self, rfl⟩
      · rintro q past key e - - ⟨p, hp, hkey⟩
        exact ⟨p, List.mem_cons_of_mem _ hp, hkey⟩
    exact absurd hkey (hnew q hq)

/-- **A request finds the arrival time of a new key or now**, after any number of requests like it. -/
theorem worked_of_new (hnow : ¬c.InRange now) (hs : s.entries = .empty) (hnew : ∀ q ∈ past, q.key ≠ key)
    (n : Nat) :
    (c.rule.worked s (List.replicate n ⟨key, now⟩ ++ past) ⟨key, now⟩).value = c.fresh now ∨
      (c.rule.worked s (List.replicate n ⟨key, now⟩ ++ past) ⟨key, now⟩).value = now := by
  have hfound : ∀ run, (∀ e, (c.rule.after s run).get? key = some e → e.value = now) →
      (c.rule.worked s run ⟨key, now⟩).value = c.fresh now ∨
        (c.rule.worked s run ⟨key, now⟩).value = now := by
    intro run hkept
    unfold Rule.worked
    rcases Rule.seen_cases (r := c.rule) (s := s) run key now with hsame | ⟨hnone, -⟩
    · rw [hsame]
      cases hentry : (c.rule.after s run).get? key with
      | none => exact .inl rfl
      | some e => exact .inr (hkept e hentry)
    · rw [hnone]
      exact .inl rfl
  -- what the requests at the instant leave is an entry at now, which the next one finds, unless a sweep drops it
  apply hfound
  induction n with
  | zero =>
    intro e he
    rw [List.replicate_zero, List.nil_append, get?_of_new hs hnew] at he
    cases he
  | succ n ih =>
    intro e he
    rw [List.replicate_succ, List.cons_append, Rule.get?_after_cons, if_pos rfl] at he
    obtain rfl := Option.some.inj he
    obtain ⟨hle, hadvanced⟩ := admitted_at hnow (hfound _ ih)
    rw [(judge_admitted hle).2]
    exact hadvanced

/-- **All requests of a new key are admitted at once**, where the next arrival time is out of range. -/
theorem admitted_of_new (hnow : ¬c.InRange now) (hs : s.entries = .empty) (hnew : ∀ q ∈ past, q.key ≠ key)
    (n : Nat) :
    admittedBy (c.rule.decision s) key (List.replicate n ⟨key, now⟩ ++ past) =
      List.replicate n now ++ admittedBy (c.rule.decision s) key past := by
  induction n with
  | zero => rfl
  | succ n ih =>
    have hadmits : admits (c.rule.decision s (List.replicate n ⟨key, now⟩ ++ past) ⟨key, now⟩) := by
      rw [Rule.decision_eq]
      exact (judge_admitted (admitted_at hnow (worked_of_new hnow hs hnew n)).1).1
    rw [List.replicate_succ, List.cons_append, admittedBy, if_pos ⟨rfl, hadmits⟩, ih]
    rfl

end CellRate

namespace Limiter

/-- A limiter that is open is not guarded: three requests are too many. -/
theorem not_guarded_of_open {l : Limiter} {now : Instant} (h : l.Open now) : ¬l.Guarded now := by
  intro hguarded
  have hopen := h [] "" 3 (by simp)
  have hfew := hguarded (List.replicate 3 ⟨"", now⟩ ++ []) "" (by simp [Ordered, Instant.le_iff])
  rw [hopen] at hfew
  simp [admitted, admittedBy] at hfew

/-- **A cell rate limiter is guarded exactly where the next arrival time is in range**, and open elsewhere,
if it has an emission interval at all. -/
theorem guarded_iff (rate : Float) (burst : UInt32) (interval threshold : Span) (start now : Instant)
    (hpos : 0 < (CellRate.ofRate rate burst).interval.nanos) :
    ((Config.build ⟨.cellRate rate burst, interval, threshold⟩ start).Guarded now ↔
      now.nanos + (CellRate.ofRate rate burst).interval.nanos ≤ Instant.maxNanos) ∧
    ((Config.build ⟨.cellRate rate burst, interval, threshold⟩ start).Open now ↔
      Instant.maxNanos < now.nanos + (CellRate.ofRate rate burst).interval.nanos) := by
  have hdecision : (Config.build ⟨.cellRate rate burst, interval, threshold⟩ start).decision =
      (CellRate.ofRate rate burst).rule.decision (.new start interval threshold) := decision_cellRate _ _
  have hguarded : (CellRate.ofRate rate burst).InRange now →
      (Config.build ⟨.cellRate rate burst, interval, threshold⟩ start).Guarded now := by
    intro hnow run key ho
    rw [admitted, hdecision]
    exact CellRate.count_admitted_le hpos hnow rfl key ho
  have hopen : ¬(CellRate.ofRate rate burst).InRange now →
      (Config.build ⟨.cellRate rate burst, interval, threshold⟩ start).Open now := by
    intro hnow past key n hnew
    rw [admitted, admitted, hdecision]
    exact CellRate.admitted_of_new hnow rfl hnew n
  constructor
  · refine ⟨fun h => ?_, hguarded⟩
    by_contra hnow
    exact not_guarded_of_open (hopen hnow) h
  · rw [← Int.not_le]
    exact ⟨fun h hnow => not_guarded_of_open h (hguarded hnow), hopen⟩

theorem guarded_iff_paces : 0 < (CellRate.ofRate 10.0 5).interval.nanos ∧
    (Config.build ⟨.cellRate 10.0 5, .zero, .zero⟩ .origin).Guarded .origin ∧
    0 < (CellRate.ofRate 1e-30 5).interval.nanos ∧
    (Config.build ⟨.cellRate 1e-30 5, .zero, .zero⟩ .origin).Open .origin := by
  have hbrisk : (CellRate.ofRate 10.0 5).interval = .ofMillis 100 := by decide +kernel
  have hslow : (CellRate.ofRate 1e-30 5).interval = .longest := by decide +kernel
  have hbrisk_pos : 0 < (CellRate.ofRate 10.0 5).interval.nanos := by
    rw [hbrisk]
    decide
  have hslow_pos : 0 < (CellRate.ofRate 1e-30 5).interval.nanos := by
    rw [hslow]
    decide
  refine ⟨hbrisk_pos, ?_, hslow_pos, ?_⟩
  · apply (guarded_iff 10.0 5 .zero .zero .origin .origin hbrisk_pos).1.2
    rw [hbrisk]
    decide
  · apply (guarded_iff 1e-30 5 .zero .zero .origin .origin hslow_pos).2.2
    rw [hslow]
    decide

/-- **Not all accepted settings are guarded**, also without sweeps: a rate may be so small that the next arrival
time is out of range from the start of the clock on. -/
theorem unguarded :
    ¬∀ (rate : Float) (burst : UInt32) (run : List Query) (key : String) (now : Instant),
      (⟨.cellRate rate burst, .longest, .longest⟩ : Config).validate = .ok () →
      0 < (CellRate.ofRate rate burst).interval.nanos → Ordered run →
      ((Config.build ⟨.cellRate rate burst, .longest, .longest⟩ .origin).admitted key run).count now ≤ 2 := by
  intro h
  have hfew := h 1e-30 0 (List.replicate 3 ⟨"k", .origin⟩) "k" .origin rfl (by decide +kernel) (by decide)
  exact absurd hfew (by decide +kernel)

end Limiter

end CallGuard
