import CallGuard.Pipeline.Codec
import CallGuard.Proofs.Binary.Units

/-!
# Round trips of plain values

A value is written to a document and read back. Every kind of value comes back as it
is, except that a span is cut to whole milliseconds, and that a float has no spelling
if it is no finite number.

* `Json.RoundTrips`: what holds of writing and reading.
* `Json.RoundTrips.kept_optional`, `Json.RoundTrips.kept_required`: the fields of a record
  that was read.
-/

namespace CallGuard

/-! ## Spans in whole milliseconds -/

namespace Span

/-- **The span in whole milliseconds**: what is short of one is dropped, and no span has more than `maxWord`
of them. -/
def inMillis (s : Span) : Span :=
  min ⟨s.nanos - s.nanos % nanosPerMilli, Nat.le_trans (Nat.sub_le _ _) s.nanos_le⟩ (ofMillis maxWord)

theorem nanos_ofMillis {n : Nat} (h : n ≤ maxWord) : (ofMillis n).nanos = nanosPerMilli * n := by
  apply nanos_ofNanos
  unfold maxWord at h
  unfold nanosPerMilli maxNanos
  omega

theorem millis_le (s : Span) : s.millis ≤ maxWord := Nat.min_le_right _ _

theorem millis_ofMillis {n : Nat} (h : n ≤ maxWord) : (ofMillis n).millis = n := by
  unfold millis
  rw [nanos_ofMillis h, Nat.mul_div_cancel_left _ (by decide), Nat.min_eq_left h]

theorem ofMillis_millis (s : Span) : ofMillis s.millis = s.inMillis := by
  have hwhole : s.nanos - s.nanos % nanosPerMilli = nanosPerMilli * (s.nanos / nanosPerMilli) := by
    have := Nat.div_add_mod s.nanos nanosPerMilli
    omega
  apply ext
  rw [nanos_ofMillis s.millis_le]
  show _ = Span.nanos (if _ ≤ _ then _ else _)
  simp only [le_iff, nanos_ofMillis (Nat.le_refl maxWord), hwhole]
  unfold millis
  split
  · rename_i hle
    have hless := Nat.le_of_mul_le_mul_left hle (by decide)
    rw [Nat.min_eq_left hless]
  · rename_i hgt
    have hmore : maxWord ≤ s.nanos / nanosPerMilli := by
      by_contra h
      exact hgt (Nat.mul_le_mul_left _ (by omega))
    rw [Nat.min_eq_right hmore, nanos_ofMillis (Nat.le_refl maxWord)]

end Span

namespace Json

/-! ## Round trips -/

/-- **A round trip** through a document. What is written can be read if its floats are finite, and then comes back
with its spans in whole milliseconds. What was read from some document comes back as it is. What came back is
written as before. -/
structure RoundTrips {α : Type} (encode : α → Json) (decode? : Json → Option α) (isFinite : α → Bool)
    (inMillis : α → α) : Prop where
  back : ∀ a, decode? (encode a) = if isFinite a then some (inMillis a) else none
  decoded : ∀ j a, decode? j = some a → decode? (encode a) = some a
  again : ∀ a b, decode? (encode a) = some b → encode b = encode a

section RoundTrips

variable {α : Type} {encode : α → Json} {decode? : Json → Option α} {isFinite : α → Bool} {inMillis : α → α}

/-- Values that come back as they are. -/
theorem RoundTrips.of_back (h : ∀ a, decode? (encode a) = some a) :
    RoundTrips encode decode? (fun _ => true) (fun a => a) where
  back a := h a
  decoded _ a _ := h a
  again a b hb := by
    rw [h] at hb
    cases hb
    rfl

/-- It is enough that readings are finite and in whole milliseconds, and that less than a millisecond is never
written. -/
theorem RoundTrips.of_kept (hback : ∀ a, decode? (encode a) = if isFinite a then some (inMillis a) else none)
    (hkept : ∀ j a, decode? j = some a → isFinite a = true ∧ inMillis a = a)
    (hsame : ∀ a, isFinite a = true → encode (inMillis a) = encode a) :
    RoundTrips encode decode? isFinite inMillis where
  back := hback
  decoded j a h := by
    obtain ⟨hfinite, hmillis⟩ := hkept j a h
    rw [hback, if_pos hfinite, hmillis]
  again a b h := by
    rw [hback] at h
    split at h
    · rename_i hfinite
      cases h
      exact hsame a hfinite
    · cases h

/-- **A reading** is finite and in whole milliseconds. -/
theorem RoundTrips.kept (h : RoundTrips encode decode? isFinite inMillis) {j : Json} {a : α}
    (ha : decode? j = some a) : isFinite a = true ∧ inMillis a = a := by
  have hback := h.decoded j a ha
  rw [h.back] at hback
  split at hback
  · rename_i hfinite
    exact ⟨hfinite, Option.some.inj hback⟩
  · cases hback

theorem RoundTrips.same (h : RoundTrips encode decode? isFinite inMillis) {a : α} (ha : isFinite a = true) :
    encode (inMillis a) = encode a :=
  h.again a _ ((h.back a).trans (if_pos ha))

/-- **A field that may be missing** is finite and in whole milliseconds, if its default is a reading too. -/
theorem RoundTrips.kept_optional (h : RoundTrips encode decode? isFinite inMillis) {r : Record} {name : String}
    {d a : α} {j : Json} (hd : decode? j = some d) (ha : r.optional name d decode? = some a) :
    isFinite a = true ∧ inMillis a = a := by
  unfold Record.optional at ha
  split at ha
  · exact h.kept ha
  · cases ha
    exact h.kept hd

/-- **A field that has to be there** is finite and in whole milliseconds. -/
theorem RoundTrips.kept_required (h : RoundTrips encode decode? isFinite inMillis) {r : Record} {name : String}
    {a : α} (ha : r.required name decode? = some a) : isFinite a = true ∧ inMillis a = a := by
  obtain ⟨j, -, hj⟩ := Option.bind_eq_some_iff.1 ha
  exact h.kept hj

end RoundTrips

/-! ## Plain values -/

theorem roundTrips_text : RoundTrips .str text? (fun _ => true) (fun a => a) :=
  .of_back fun _ => rfl

theorem roundTrips_bool : RoundTrips .bool bool? (fun _ => true) (fun a => a) :=
  .of_back fun _ => rfl

theorem intIn?_int {low high n : Int} (hlow : low ≤ n) (hhigh : n ≤ high) :
    intIn? low high (.int n) = some n := if_pos ⟨hlow, hhigh⟩

theorem roundTrips_word : RoundTrips (fun n => .int n.toNat) word32? (fun _ => true) (fun a => a) := by
  refine .of_back fun n => ?_
  have hn := n.toNat_lt
  unfold word32?
  rw [intIn?_int (by omega) (by omega)]
  simp

theorem roundTrips_signed : RoundTrips (fun n => .int n.toInt) signed64? (fun _ => true) (fun a => a) := by
  refine .of_back fun n => ?_
  have hlow := n.le_toInt
  have hhigh := n.toInt_lt
  unfold signed64?
  rw [intIn?_int (by omega) (by omega)]
  simp

/-- A list comes back if its items do. -/
theorem mapM_map {α β : Type} {write : α → β} {read : β → Option α} (h : ∀ a, read (write a) = some a)
    (l : List α) : (l.map write).mapM read = some l := by
  induction l with
  | nil => rfl
  | cons a l ih => simp [h, ih]

theorem roundTrips_texts : RoundTrips (fun l => .arr (l.map .str)) (list? text?) (fun _ => true) (fun a => a) := by
  refine .of_back fun l => ?_
  exact mapM_map roundTrips_text.back l

theorem roundTrips_labels : RoundTrips ofLabels labels? (fun _ => true) (fun a => a) := by
  refine .of_back fun l => ?_
  have hentries : (l.entries.map fun e => (e.1, Json.str e.2)).mapM (fun m => (text? m.2).map (m.1, ·)) =
      some l.entries := by
    apply mapM_map
    intro e
    rfl
  unfold ofLabels labels?
  dsimp only
  rw [hentries, Option.map_some, Labels.ofList_entries]

theorem span?_int {n : Nat} (h : n ≤ maxWord) : span? (.int n) = some (.ofMillis n) := by
  unfold maxWord at h
  unfold span? word64?
  rw [intIn?_int (by omega) (by omega)]
  simp

theorem millis_of_span? {j : Json} {s : Span} (h : span? j = some s) : ∃ n ≤ maxWord, s = .ofMillis n := by
  unfold span? word64? intIn? at h
  cases j with
  | int n =>
    dsimp only at h
    split at h
    · rename_i hn
      cases h
      exact ⟨n.toNat, by unfold maxWord; omega, rfl⟩
    · cases h
  | _ => cases h

theorem span?_ofSpan (s : Span) : span? (ofSpan s) = some s.inMillis := by
  unfold ofSpan
  rw [span?_int s.millis_le, Span.ofMillis_millis]

/-- **A span comes back in whole milliseconds.** -/
theorem roundTrips_span : RoundTrips ofSpan span? (fun _ => true) Span.inMillis := by
  refine .of_kept span?_ofSpan ?_ ?_
  · intro j s h
    obtain ⟨n, hn, rfl⟩ := millis_of_span? h
    rw [← Span.ofMillis_millis, Span.millis_ofMillis hn]
    exact ⟨rfl, rfl⟩
  · intro s _
    unfold ofSpan
    rw [← Span.ofMillis_millis, Span.millis_ofMillis s.millis_le]

example : span? (ofSpan (.ofNanos 1999999)) = some (.ofMillis 1) := by rfl

/-! ## Floats -/

theorem isFinite_floatOfInt (n : Int) : (floatOfInt n).isFinite = true := by
  unfold floatOfInt
  dsimp only
  split
  · exact Binary.isFinite_neg (Binary.isFinite_toFloat _)
  · exact Binary.isFinite_toFloat _

/-- **A float that was read is finite.** -/
theorem isFinite_of_float? {j : Json} {x : Float} (h : float? j = some x) : x.isFinite = true := by
  unfold float? at h
  cases j with
  | float y =>
    dsimp only at h
    split at h
    · rename_i hy
      cases h
      exact hy
    · cases h
  | int n =>
    cases h
    exact isFinite_floatOfInt n
  | _ => cases h

theorem float?_ofFloat (x : Float) : float? (ofFloat x) = if x.isFinite then some x else none := by
  unfold ofFloat
  split
  · rename_i hx
    exact if_pos hx
  · rfl

/-- **A finite float comes back as it is**, and no other does. -/
theorem roundTrips_float : RoundTrips ofFloat float? Float.isFinite (fun x => x) := by
  refine .of_kept float?_ofFloat ?_ ?_
  · intro j x h
    exact ⟨isFinite_of_float? h, rfl⟩
  · intro x _
    rfl

end Json

end CallGuard
