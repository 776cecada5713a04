import CallGuard.Proofs.Limiter.Sweeps
import CallGuard.Proofs.Limiter.Window

/-!
# Sweeps and the sliding window

A key that a sliding window limiter forgets has no admissions left. The limit is not
loosened by that if none of them would be in the window any more.

* `SlidingWindow.simulates`: with and without sweeps the same admissions are kept.
* `SlidingWindow.swept_eq`, `SlidingWindow.countP_swept_le`: sweeps then change nothing, and every
  window is bounded.
* `SlidingWindow.exists_loosened`, `SlidingWindow.countP_bursts`: otherwise a sweep loosens the limit, and
  a window holds more than the rate.
-/

namespace CallGuard.SlidingWindow

variable {w : SlidingWindow} {now : Instant} {start : Instant} {interval threshold : Span}

theorem lastUse_judge (w : SlidingWindow) (now : Instant) (e : Stamped (List Instant)) :
    (w.rule.judge now e).2.lastUse = now := by
  show (w.judge now e).2.lastUse = now
  rw [judge_eq]
  dsimp only
  split <;> rfl

theorem stamps (w : SlidingWindow) : w.rule.Stamps := fun now e => .inl (w.lastUse_judge now e)

/-- With and without sweeps the same admissions are kept. -/
def Agree (w : SlidingWindow) (now : Instant) (kept left : Option (Stamped (List Instant))) (more : Nat) :
    Prop :=
  more = 0 ∧ ∃ admitted, (∀ t ∈ admitted, t ≤ now) ∧ w.Keeps kept admitted now ∧ w.Keeps left admitted now

/-- **Sweeps that drop what is out of the window** change no admission. -/
theorem simulates (hp : Patient start interval threshold (fun _ => True) (w.window < ·)) :
    w.rule.Simulates start interval threshold (fun _ => True) w.Agree where
  fresh now := ⟨rfl, [], List.forall_mem_nil _, keeps_nothing w now, keeps_nothing w now⟩
  later hle h := by
    obtain ⟨hmore, admitted, hpast, hkept, hleft⟩ := h
    exact ⟨hmore, admitted, fun t ht => Int.le_trans (hpast t ht) hle, hkept.mono hle, hleft.mono hle⟩
  drop {now kept e more} _ hlate huse hidle h := by
    obtain ⟨hmore, admitted, hpast, hkept, hleft⟩ := h
    have hout := hp.forgiven trivial hlate huse hidle
    exact ⟨hmore, admitted, hpast, hkept, hleft.forget (Nat.le_refl _) hout⟩
  judge {now kept left more} _ h := by
    obtain ⟨rfl, admitted, hpast, hkept, hleft⟩ := h
    have hsame : (w.judge now (worked kept now)).1 = (w.judge now (worked left now)).1 := by
      rw [hkept.answer, hleft.answer]
    have hjudge := hleft.judge hpast
    rw [← hsame] at hjudge
    refine ⟨0, ?_, rfl, _, ?_, hkept.judge hpast, hjudge⟩
    · show (admits (w.judge now (worked kept now)).1).toNat + 0 =
        (admits (w.judge now (worked left now)).1).toNat + 0
      rw [hsame]
    · intro t ht
      split at ht
      · rcases List.mem_cons.1 ht with rfl | ht
        · exact Int.le_refl _
        · exact hpast t ht
      · exact hpast t ht

section Patient

variable (hp : Patient start interval threshold (fun _ => True) (w.window < ·)) {run : List Query} (ho : Ordered run) (hstart : ∀ q ∈ run, start ≤ q.time) (key : String)
include hp ho hstart

/-- **Sweeps change nothing**, where they drop what is out of the window. -/
theorem swept_eq : w.rule.swept start interval threshold key run = w.rule.unswept start threshold key run :=
  (simulates hp).swept_eq And.left w.stamps ho hstart (fun _ _ => trivial) key

/-- **Every window is bounded**, where sweeps drop what is out of it. -/
theorem countP_swept_le (first : Int) :
    (w.rule.swept start interval threshold key run).countP
      (fun t => decide (first ≤ t.nanos ∧ t.nanos ≤ first + w.window.nanos)) ≤ w.rate.toNat := by
  rw [swept_eq hp ho hstart key, (w.rule.unswept_threshold start threshold .longest run).2 key]
  exact countP_window_le rfl w.window.nanos_le key ho first

end Patient

/-! ## Idle times within a window -/

/-- Times in the window stay. -/
theorem current_replicate {t : Instant} (h : ¬w.window < now.since t) (n : Nat) :
    w.current now (List.replicate n t) = List.replicate n t := by
  cases n with
  | zero => rfl
  | succ n => rw [current, List.replicate_succ, List.dropWhile_cons_of_neg (by simpa using h)]

theorem not_lt_since_self (w : SlidingWindow) (now : Instant) : ¬w.window < now.since now := by
  rw [Span.lt_iff, Instant.since_nanos]
  omega

/-- A new key may make as many requests at once as the rate allows. -/
theorem entryAfter_rate (w : SlidingWindow) (now : Instant) {n : Nat} (hn : n ≤ w.rate.toNat) :
    times (w.rule.entryAfter now none n) = List.replicate n now := by
  induction n with
  | zero => rfl
  | succ n ih =>
    have hcurrent : w.current now (worked (w.rule.entryAfter now none n) now).value =
        List.replicate n now := by
      rw [worked_value, ih (by omega), current_replicate (w.not_lt_since_self now)]
    show (w.judge now (worked (w.rule.entryAfter now none n) now)).2.value = _
    rw [judge_eq, hcurrent, List.length_replicate, if_pos (by omega), ← List.replicate_succ']

/-- All of these requests are admitted. -/
theorem admittedAt_rate (w : SlidingWindow) (now : Instant) {n : Nat} (hn : n ≤ w.rate.toNat) :
    w.rule.admittedAt now none n = n := by
  induction n with
  | zero => rfl
  | succ n ih =>
    have hadmitted : admits (w.judge now (worked (w.rule.entryAfter now none n) now)).1 = true := by
      rw [judge_eq, admits_answer, worked_value, entryAfter_rate w now (by omega),
        current_replicate (w.not_lt_since_self now), List.length_replicate]
      exact hn
    show (admits (w.judge now (worked (w.rule.entryAfter now none n) now)).1).toNat +
      w.rule.admittedAt now none n = _
    rw [hadmitted, ih (by omega), Bool.toNat_true, Nat.add_comm]

/-- **Where an idle time is within the window, a sweep loosens the limit**: a window holds more than the
rate. -/
theorem exists_loosened {first second : Instant} {idle : Span} (hrate : 0 < w.rate.toNat)
    (hw : ¬w.window < idle) (hspan : first.nanos + idle.nanos = second.nanos) :
    ∃ n m, 0 < n ∧
      w.rule.admittedAt second (w.rule.entryAfter first none n) m < w.rule.admittedAt second none m ∧
      w.rate.toNat < w.rule.admittedAt second none m + w.rule.admittedAt first none n := by
  have hold : ¬w.window < second.since first := by
    rw [Span.lt_iff] at hw ⊢
    rw [Instant.since_nanos]
    omega
  have hdenied : admits (w.judge second (worked (w.rule.entryAfter first none w.rate.toNat) second)).1 = false := by
    rw [← Bool.not_eq_true, judge_eq, admits_answer, worked_value, entryAfter_rate w first (Nat.le_refl _),
      current_replicate hold, List.length_replicate]
    exact Nat.lt_irrefl _
  have hkept : w.rule.admittedAt second (w.rule.entryAfter first none w.rate.toNat) 1 =
      (admits (w.judge second (worked (w.rule.entryAfter first none w.rate.toNat) second)).1).toNat := rfl
  have hone := admittedAt_rate w second (show 1 ≤ w.rate.toNat from hrate)
  have hrest := admittedAt_rate w first (Nat.le_refl w.rate.toNat)
  refine ⟨w.rate.toNat, 1, hrate, ?_, ?_⟩
  · rw [hkept, hdenied, hone]
    decide
  · rw [hone, hrest]
    omega

/-- What is admitted at two instants of a window is all in it. -/
theorem countP_bursts {first second : Instant} {idle : Span} (hw : ¬w.window < idle)
    (hspan : first.nanos + idle.nanos = second.nanos) (key : String) (n m : Nat) :
    (w.rule.swept start interval threshold key (Rule.bursts key first second n m)).countP
        (fun t => decide (first.nanos ≤ t.nanos ∧ t.nanos ≤ first.nanos + w.window.nanos)) =
      (w.rule.swept start interval threshold key (Rule.bursts key first second n m)).length := by
  rw [Span.lt_iff] at hw
  refine List.countP_eq_length.2 fun t ht => ?_
  obtain ⟨q, hq, rfl⟩ := mem_admittedBy ht
  rw [decide_eq_true_iff]
  rcases Rule.time_of_mem_bursts hq with h | h
  · rw [h]
    omega
  · rw [h]
    omega

/-- An accepted rate is not zero. -/
theorem rate_pos {rate : UInt32} {window : Span}
    (hv : (Limiter.Algorithm.slidingWindow rate window).validate = .ok ()) : 0 < rate.toNat := by
  rw [Limiter.Algorithm.validate] at hv
  split at hv
  · cases hv
  · rename_i hrate
    exact Nat.pos_of_ne_zero fun hzero => hrate (UInt32.toNat_inj.1 hzero)

end CallGuard.SlidingWindow
