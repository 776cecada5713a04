import CallGuard.Proofs.Limiter.Run

/-!
# The sliding window is exact

Whatever a sliding window limiter kept, dropped or never saw, its decision about a key
is the one that the admissions of that key in the last window ask for. The limiter may
forget a key that is idle for longer than a window, since no admission is left in it.

* `SlidingWindow.Keeps`: what is kept for a key tells every later window of its admissions.
* `SlidingWindow.tracks`: a run keeps this, through denials, other keys and sweeps.
* `SlidingWindow.decision_eq`: the decision as a function of the admissions in the window.
* `SlidingWindow.exact`: **the sliding window is exact.**
-/

namespace CallGuard.SlidingWindow

/-- True if a time is in the closed window that ends now. -/
def holds (w : SlidingWindow) (now t : Instant) : Bool :=
  now.nanos - w.window.nanos ≤ t.nanos ∧ t.nanos ≤ now.nanos

variable {w : SlidingWindow} {now later t : Instant}

theorem holds_iff : w.holds now t ↔ now.nanos - w.window.nanos ≤ t.nanos ∧ t.nanos ≤ now.nanos := by
  simp [holds]

theorem dropped_iff (h : t ≤ now) : w.window < now.since t ↔ ¬w.holds now t := by
  rw [Instant.le_iff] at h
  rw [Span.lt_iff, Instant.since_nanos, holds_iff]
  omega

/-- What a later window holds of the past was held before. -/
theorem holds_of_later (hle : now ≤ later) (ht : t ≤ now) (h : w.holds later t) : w.holds now t := by
  rw [Instant.le_iff] at hle ht
  rw [holds_iff] at h ⊢
  omega

/-- **Dropping old times at the front is filtering**, as the times are in order. -/
theorem current_eq_filter {times : List Instant} (hs : times.Pairwise (· ≤ ·))
    (hle : ∀ t ∈ times, t ≤ now) : w.current now times = times.filter (w.holds now) := by
  induction times with
  | nil => rfl
  | cons t rest ih =>
    obtain ⟨hfirst, hrest⟩ := List.pairwise_cons.1 hs
    have ht := hle t List.mem_cons_self
    have hle := fun u hu => hle u (List.mem_cons_of_mem _ hu)
    by_cases hold : w.window < now.since t
    · have hout : w.holds now t = false := by simpa using (dropped_iff ht).1 hold
      rw [List.filter_cons_of_neg (by simp [hout]), ← ih hrest hle, current, current,
        List.dropWhile_cons_of_pos (by simpa using hold)]
    · have hin : w.holds now t := by simpa using mt (dropped_iff ht).2 hold
      have hall : ∀ u ∈ t :: rest, w.holds now u := by
        intro u hu
        rcases List.mem_cons.1 hu with rfl | hu
        · exact hin
        · have h1 := hfirst u hu
          have h2 := hle u hu
          rw [Instant.le_iff] at h1 h2
          rw [holds_iff] at hin ⊢
          omega
      rw [List.filter_eq_self.2 hall, current, List.dropWhile_cons_of_neg (by simpa using hold)]

/-! ## What is kept for a key -/

/-- The times in an entry, none where there is none. -/
def times : Option (Stamped (List Instant)) → List Instant
  | none => []
  | some e => e.value

/-- **What is kept for a key tells every later window of its admissions** (latest first), and an entry
was used no earlier than any of them. -/
structure Keeps (w : SlidingWindow) (entry : Option (Stamped (List Instant))) (admitted : List Instant)
    (now : Instant) : Prop where
  sorted : (times entry).Pairwise (· ≤ ·)
  past : ∀ t ∈ times entry, t ≤ now
  window : ∀ later, now ≤ later →
    (times entry).filter (w.holds later) = admitted.reverse.filter (w.holds later)
  used : ∀ e, entry = some e → ∀ t ∈ admitted, t ≤ e.lastUse

variable {entry : Option (Stamped (List Instant))} {admitted : List Instant}

theorem keeps_nothing (w : SlidingWindow) (now : Instant) : w.Keeps none [] now :=
  ⟨.nil, List.forall_mem_nil _, fun _ _ => rfl, fun _ _ => List.forall_mem_nil _⟩

theorem Keeps.mono (h : w.Keeps entry admitted now) (hle : now ≤ later) : w.Keeps entry admitted later :=
  ⟨h.sorted, fun t ht => Int.le_trans (h.past t ht) hle,
    fun _ hl => h.window _ (Int.le_trans hle hl), h.used⟩

/-- **A key that is idle for longer than a window may be forgotten.** -/
theorem Keeps.forget {e : Stamped (List Instant)} {threshold : Span} (h : w.Keeps (some e) admitted now)
    (hw : w.window ≤ threshold) (hidle : threshold < now.since e.lastUse) : w.Keeps none admitted now := by
  refine ⟨.nil, List.forall_mem_nil _, fun later hle => ?_, fun _ he => nomatch he⟩
  have hnone : ∀ t ∈ admitted.reverse, ¬w.holds later t := by
    intro t ht hin
    have hused := h.used e rfl t (List.mem_reverse.1 ht)
    rw [Instant.le_iff] at hused hle
    rw [Span.le_iff] at hw
    rw [Span.lt_iff, Instant.since_nanos] at hidle
    rw [holds_iff] at hin
    omega
  exact (List.filter_eq_nil_iff.2 hnone).symm

/-- What the limiter goes by is what the window holds. -/
theorem Keeps.current (h : w.Keeps entry admitted now) :
    w.current now (times entry) = admitted.reverse.filter (w.holds now) :=
  (current_eq_filter h.sorted h.past).trans (h.window now (Int.le_refl _))

theorem Keeps.current_past (h : w.Keeps entry admitted now) :
    ∀ t ∈ w.current now (times entry), t ≤ now := fun t ht => h.past t (mem_current ht)

/-- What later windows hold of the current times, they hold of all. -/
theorem Keeps.window_current (h : w.Keeps entry admitted now) (hle : now ≤ later) :
    (w.current now (times entry)).filter (w.holds later) = admitted.reverse.filter (w.holds later) := by
  rw [← h.window later hle, current_eq_filter h.sorted h.past, List.filter_filter]
  refine List.filter_congr fun t ht => ?_
  rw [Bool.and_eq_left_iff_imp]
  exact holds_of_later hle (h.past t ht)

/-- A denial leaves the current times. -/
theorem Keeps.deny (h : w.Keeps entry admitted now) (hpast : ∀ t ∈ admitted, t ≤ now) :
    w.Keeps (some ⟨w.current now (times entry), now⟩) admitted now :=
  ⟨h.sorted.sublist (List.dropWhile_sublist _), h.current_past, fun _ hle => h.window_current hle,
    fun _ he t ht => by cases he; exact hpast t ht⟩

/-- An admission adds its own time. -/
theorem Keeps.admit (h : w.Keeps entry admitted now) (hpast : ∀ t ∈ admitted, t ≤ now) :
    w.Keeps (some ⟨w.current now (times entry) ++ [now], now⟩) (now :: admitted) now := by
  refine ⟨?_, ?_, fun later hle => ?_, ?_⟩
  · refine List.pairwise_append.2 ⟨h.sorted.sublist (List.dropWhile_sublist _), List.pairwise_singleton _ _, ?_⟩
    intro t ht u hu
    rw [List.mem_singleton.1 hu]
    exact h.current_past t ht
  · intro t ht
    rcases List.mem_append.1 ht with ht | ht
    · exact h.current_past t ht
    · rw [List.mem_singleton.1 ht]
      exact Int.le_refl _
  · show (w.current now (times entry) ++ [now]).filter _ = _
    rw [List.filter_append, h.window_current hle, List.reverse_cons, List.filter_append]
  · intro e he t ht
    cases he
    rcases List.mem_cons.1 ht with rfl | ht
    · exact Int.le_refl _
    · exact hpast t ht

/-! ## What a run keeps and decides -/

/-- The answer for the times in the window, oldest first. -/
def answer (w : SlidingWindow) (now : Instant) (recent : List Instant) : Except TimeError Decision :=
  if recent.length < w.rate.toNat then .ok (.allowed (w.rate.toNat - (recent.length + 1)))
  else do return .limited (← w.wait now recent).waitMillis

/-- **One request** in terms of the current times. -/
theorem judge_eq (w : SlidingWindow) (now : Instant) (e : Stamped (List Instant)) :
    w.judge now e = (w.answer now (w.current now e.value),
      if (w.current now e.value).length < w.rate.toNat then ⟨w.current now e.value ++ [now], now⟩
      else ⟨w.current now e.value, now⟩) := by
  by_cases hroom : (w.current now e.value).length < w.rate.toNat
  · simp [judge, answer, hroom]
  · simp [judge, answer, hroom]

theorem admits_answer (now : Instant) (recent : List Instant) :
    admits (w.answer now recent) ↔ recent.length < w.rate.toNat := by
  unfold answer
  by_cases hroom : recent.length < w.rate.toNat
  · simp [hroom, admits, Decision.isAllowed]
  · cases hwait : w.wait now recent with
    | ok d => simp [hroom, admits, Decision.isAllowed, bind, Except.bind, pure, Except.pure]
    | error e => simp [hroom, admits, bind, Except.bind]

/-- The entry that a request works on. -/
def worked (entry : Option (Stamped (List Instant))) (now : Instant) : Stamped (List Instant) :=
  entry.getD ⟨[], now⟩

theorem worked_value (entry : Option (Stamped (List Instant))) (now : Instant) :
    (worked entry now).value = times entry := by
  cases entry <;> rfl

/-- The answer is the one for the admissions that the window holds. -/
theorem Keeps.answer (h : w.Keeps entry admitted now) :
    (w.judge now (worked entry now)).1 = w.answer now (admitted.reverse.filter (w.holds now)) := by
  rw [judge_eq, worked_value, h.current]

/-- **One request** leaves what the windows after it need. -/
theorem Keeps.judge (h : w.Keeps entry admitted now) (hpast : ∀ t ∈ admitted, t ≤ now) :
    w.Keeps (some (w.judge now (worked entry now)).2)
      (if admits (w.judge now (worked entry now)).1 then now :: admitted else admitted) now := by
  rw [judge_eq, worked_value]
  have hadmits := admits_answer (w := w) now (w.current now (times entry))
  by_cases hroom : (w.current now (times entry)).length < w.rate.toNat
  · rw [if_pos hroom, if_pos (hadmits.2 hroom)]
    exact h.admit hpast
  · rw [if_neg hroom, if_neg (mt hadmits.1 hroom)]
    exact h.deny hpast

variable {s : Store (List Instant)} {past : List Query} {key : String}

/-- **A run keeps what the windows need**, through denials, other keys and sweeps. -/
theorem tracks {threshold : Span} (hw : w.window ≤ threshold) :
    w.rule.Tracks threshold (fun _ _ => True) w.Keeps where
  fresh := keeps_nothing w
  later hle h := h.mono hle
  drop hidle h := h.forget hw hidle
  judge heq _ hpast h := by
    subst heq
    exact h.judge hpast

/-- **The decision as a function of the admissions in the window**, and of nothing else. -/
theorem decision_eq (w : SlidingWindow) {s : Store (List Instant)} (hs : s.entries = .empty)
    (hw : w.window ≤ s.threshold) {past : List Query} {q : Query} (ho : Ordered (q :: past)) :
    w.rule.decision s past q =
      w.answer q.time ((admittedBy (w.rule.decision s) q.key past).reverse.filter (w.holds q.time)) :=
  ((tracks hw).seen hs q.key ho.tail (Rule.along_of fun _ _ _ => trivial) ho.le).answer

/-- An answer is a decision, where the window added to a clock reading is in range. -/
theorem exists_answer {recent : List Instant}
    (h : ∀ t ∈ recent, t.nanos + w.window.nanos ≤ Instant.maxNanos) :
    ∃ d, w.answer now recent = .ok d := by
  unfold answer
  split
  · exact ⟨_, rfl⟩
  · cases recent with
    | nil => exact ⟨_, rfl⟩
    | cons oldest _ =>
      obtain ⟨u, hu, -⟩ := Instant.exists_add (h oldest List.mem_cons_self)
      exact ⟨_, by rw [wait, hu]; rfl⟩

section Exact

variable (hs : s.entries = .empty) (hw : w.window ≤ s.threshold)
include hs hw

/-- **A request is admitted exactly if the window has room.** -/
theorem admits_iff {q : Query} (ho : Ordered (q :: past)) :
    admits (w.rule.decision s past q) ↔
      (admittedBy (w.rule.decision s) q.key past).countP (w.holds q.time) < w.rate.toNat := by
  rw [decision_eq w hs hw ho, admits_answer, ← List.countP_eq_length_filter, List.countP_reverse]

/-- **No window holds more than the rate**, wherever it begins. -/
theorem countP_window_le (key : String) (ho : Ordered past) (first : Int) :
    (admittedBy (w.rule.decision s) key past).countP
        (fun t => decide (first ≤ t.nanos ∧ t.nanos ≤ first + w.window.nanos)) ≤ w.rate.toNat := by
  induction past with
  | nil => exact Nat.zero_le _
  | cons q past ih =>
    rw [admittedBy]
    split
    · rename_i hadmit
      obtain ⟨rfl, hadmit⟩ := hadmit
      rw [admits_iff hs hw ho] at hadmit
      by_cases hin : first ≤ q.time.nanos ∧ q.time.nanos ≤ first + w.window.nanos
      · -- what the window holds besides `q` is also in the window that ends with `q`
        have hsub : (admittedBy (w.rule.decision s) q.key past).countP
            (fun t => decide (first ≤ t.nanos ∧ t.nanos ≤ first + w.window.nanos)) ≤
            (admittedBy (w.rule.decision s) q.key past).countP (w.holds q.time) := by
          refine List.countP_mono_left fun t ht h => ?_
          obtain ⟨p, hp, rfl⟩ := mem_admittedBy ht
          have hle := ho.le p hp
          rw [Instant.le_iff] at hle
          have h := of_decide_eq_true h
          rw [holds_iff]
          omega
        rw [List.countP_cons_of_pos (by simpa using hin)]
        omega
      · rw [List.countP_cons_of_neg (by simpa using hin)]
        exact ih ho.tail
    · exact ih ho.tail

/-- The window that ends now never holds more than the rate either. -/
theorem countP_holds_le (key : String) (ho : Ordered past) (now : Instant) :
    (admittedBy (w.rule.decision s) key past).countP (w.holds now) ≤ w.rate.toNat := by
  refine Nat.le_trans (List.countP_mono_left fun t _ h => ?_)
    (countP_window_le hs hw key ho (now.nanos - w.window.nanos))
  rw [holds_iff] at h
  exact decide_eq_true (by omega)

/-- **Requests at one instant** are admitted until the room in the window is used up. -/
theorem length_admitted_append {now : Instant} (ho : Ordered past) (hpast : ∀ p ∈ past, p.time ≤ now)
    (more : List Query) (hmore : ∀ q ∈ more, q.time = now) :
    (admittedBy (w.rule.decision s) key (more ++ past)).length =
        (admittedBy (w.rule.decision s) key past).length + min (more.countP (·.key = key))
          (w.rate.toNat - (admittedBy (w.rule.decision s) key past).countP (w.holds now)) ∧
      (admittedBy (w.rule.decision s) key (more ++ past)).countP (w.holds now) =
        (admittedBy (w.rule.decision s) key past).countP (w.holds now) + min (more.countP (·.key = key))
          (w.rate.toNat - (admittedBy (w.rule.decision s) key past).countP (w.holds now)) := by
  induction more with
  | nil => simp
  | cons q more ih =>
    obtain ⟨hlength, hcount⟩ := ih fun q hq => hmore q (List.mem_cons_of_mem _ hq)
    have hle := countP_holds_le hs hw key ho now
    have ho' : Ordered (q :: (more ++ past)) := ho.append hmore hpast
    have hiff := admits_iff hs hw ho'
    have htime := hmore q List.mem_cons_self
    have hnow : w.holds now now := by rw [holds_iff]; omega
    rw [List.cons_append, admittedBy]
    by_cases hkey : q.key = key
    · subst hkey
      rw [htime, hcount] at hiff
      rw [List.countP_cons_of_pos (by simp)]
      -- either the window gains one and its room loses one, or there is no room left
      by_cases hroom : admits (w.rule.decision s (more ++ past) q)
      · have hlt := hiff.1 hroom
        rw [if_pos ⟨rfl, hroom⟩, htime, List.length_cons, List.countP_cons_of_pos hnow, hlength, hcount]
        omega
      · have hlt := mt hiff.2 hroom
        rw [if_neg fun h => hroom h.2, hlength, hcount]
        omega
    · rw [if_neg fun h => hkey h.1, List.countP_cons_of_neg (by simpa using hkey)]
      exact ⟨hlength, hcount⟩

/-- **On admission `remaining` is what is left of the rate.** -/
theorem remaining_eq {q : Query} (ho : Ordered (q :: past)) {m : Nat}
    (h : w.rule.decision s past q = .ok (.allowed m)) :
    m = w.rate.toNat -
      (admittedBy (w.rule.decision s) q.key (q :: past)).countP (w.holds q.time) := by
  have hadmit : admits (w.rule.decision s past q) := by rw [h]; rfl
  have hnow : w.holds q.time q.time := by rw [holds_iff]; omega
  rw [admittedBy, if_pos ⟨rfl, hadmit⟩, List.countP_cons_of_pos hnow]
  rw [admits_iff hs hw ho] at hadmit
  rw [decision_eq w hs hw ho, answer, ← List.countP_eq_length_filter, List.countP_reverse,
    if_pos hadmit] at h
  cases h
  rfl

/-! ## A key alone -/

/-- **A key sees only its own admissions**: without denied calls, other keys and with any sweeps, the
admissions stay. -/
theorem admitted_alone {s' : Store (List Instant)} (hs' : s'.entries = .empty)
    (hw' : w.window ≤ s'.threshold) (key : String) (ho : Ordered past) :
    admittedBy (w.rule.decision s') key
        ((admittedBy (w.rule.decision s) key past).map fun t => ⟨key, t⟩) =
      admittedBy (w.rule.decision s) key past := by
  induction past with
  | nil => rfl
  | cons q past ih =>
    have ih := ih ho.tail
    rw [admittedBy]
    split
    · rename_i hadmit
      obtain ⟨rfl, hadmit⟩ := hadmit
      have hdecision : admits (w.rule.decision s'
          ((admittedBy (w.rule.decision s) q.key past).map fun t => ⟨q.key, t⟩) ⟨q.key, q.time⟩) := by
        rw [admits_iff hs' hw' ho.alone, ih, ← admits_iff hs hw ho]
        exact hadmit
      rw [List.map_cons, admittedBy, if_pos ⟨rfl, hdecision⟩, ih]
    · exact ih

/-- **The decision about a key is the one that its admissions alone lead to.** -/
theorem decision_alone {s' : Store (List Instant)} (hs' : s'.entries = .empty)
    (hw' : w.window ≤ s'.threshold) {q : Query} (ho : Ordered (q :: past)) :
    w.rule.decision s' ((admittedBy (w.rule.decision s) q.key past).map fun t => ⟨q.key, t⟩) q =
      w.rule.decision s past q := by
  rw [decision_eq w hs' hw' ho.alone, admitted_alone hs hw hs' hw' q.key ho.tail,
    decision_eq w hs hw ho]

end Exact

/-- **The sliding window is exact** about a key after a run, now. There is a decision, and it is an admission
exactly if the window that ends now has room. No closed interval of the length of a window holds more admissions
than the rate. Of the key's requests at the same instant, just as many more are admitted as remain. Without denied
calls and other keys, and however another limiter sweeps, nothing changes. -/
structure Exact (w : SlidingWindow) (l : Limiter) (past : List Query) (key : String) (now : Instant) :
    Prop where
  decided : ∃ d, l.decision past ⟨key, now⟩ = .ok d
  admitted : admits (l.decision past ⟨key, now⟩) ↔
    (l.admitted key past).countP
      (fun t => now.nanos - w.window.nanos ≤ t.nanos ∧ t.nanos ≤ now.nanos) < w.rate.toNat
  bounded : ∀ first : Int, (l.admitted key past).countP
    (fun t => first ≤ t.nanos ∧ t.nanos ≤ first + w.window.nanos) ≤ w.rate.toNat
  remaining : ∀ m, l.decision past ⟨key, now⟩ = .ok (.allowed m) →
    ∀ more : List Query, (∀ q ∈ more, q.time = now) →
      (l.admitted key (more ++ ⟨key, now⟩ :: past)).length =
        (l.admitted key (⟨key, now⟩ :: past)).length + min (more.countP (·.key = key)) m
  alone : ∀ (start : Instant) (interval threshold : Span), w.window ≤ threshold →
    let l' := Limiter.ofSlidingWindow w start interval threshold
    let own := (l.admitted key past).map fun t => (⟨key, t⟩ : Query)
    l'.admitted key own = l.admitted key past ∧ l'.decision own ⟨key, now⟩ = l.decision past ⟨key, now⟩

/-- **A sliding window limiter is exact**, if keys are not forgotten before they are idle for longer than
a window. -/
theorem exact (w : SlidingWindow) (start : Instant) (interval threshold : Span) (past : List Query)
    (key : String) (now : Instant) (ho : Ordered (⟨key, now⟩ :: past)) (hw : w.window ≤ threshold)
    (hrange : ∀ q ∈ past, q.time.nanos + w.window.nanos ≤ Instant.maxNanos) :
    w.Exact (.ofSlidingWindow w start interval threshold) past key now := by
  have hs : (Store.new start interval threshold : Store (List Instant)).entries = .empty := rfl
  have hdecision : (Limiter.ofSlidingWindow w start interval threshold).decision =
      w.rule.decision (.new start interval threshold) := Limiter.decision_slidingWindow _ _
  refine ⟨?_, ?_, ?_, ?_, ?_⟩
  · rw [hdecision, decision_eq w hs hw ho]
    refine exists_answer fun t ht => ?_
    obtain ⟨q, hq, rfl⟩ := mem_admittedBy (List.mem_reverse.1 (List.mem_filter.1 ht).1)
    exact hrange q hq
  · simp only [Limiter.admitted, hdecision]
    exact admits_iff hs hw ho
  · simp only [Limiter.admitted, hdecision]
    exact countP_window_le hs hw key ho.tail
  · intro m h more hmore
    simp only [Limiter.admitted, hdecision] at h ⊢
    rw [(length_admitted_append hs hw ho ho.le_last more hmore).1, remaining_eq hs hw ho h]
  · intro start' interval' threshold' hw'
    have hdecision' : (Limiter.ofSlidingWindow w start' interval' threshold').decision =
        w.rule.decision (.new start' interval' threshold') := Limiter.decision_slidingWindow _ _
    have hs' : (Store.new start' interval' threshold' : Store (List Instant)).entries = .empty := rfl
    simp only [Limiter.admitted, hdecision, hdecision']
    exact ⟨admitted_alone hs hw hs' hw' key ho.tail, decision_alone hs hw hs' hw' ho⟩

/-- Two requests of one key and one of another, a whole window before the next. -/
def edge : List Query := [⟨"b", .origin⟩, ⟨"a", .origin⟩, ⟨"a", .origin⟩]

theorem exact_edge :
    Ordered (⟨"a", ⟨1000000000, by decide⟩⟩ :: edge) ∧
      (⟨2, .ofMillis 1000⟩ : SlidingWindow).Exact
        (.ofSlidingWindow ⟨2, .ofMillis 1000⟩ .origin .zero (.ofMillis 1000)) edge "a"
        ⟨1000000000, by decide⟩ :=
  ⟨by decide, exact ⟨2, .ofMillis 1000⟩ .origin .zero (.ofMillis 1000) edge "a" ⟨1000000000, by decide⟩
    (by decide) (by decide) (by decide)⟩

end CallGuard.SlidingWindow
