import CallGuard.Proofs.Settings.Values

/-!
# Settings come back from their documents

Settings of every kind, nodes and instances are written to JSON and read back. A span
loses what is short of a millisecond, once; nothing else is lost, whether a field is
written under its own name, in a record of its own or beside the name of its rule.

* `Limiter.Algorithm.roundTrips_encode`: rules, whose floats have to be finite.
* `Pipeline.Config.roundTrips_all`: everything that is configured.
-/

namespace CallGuard

open Json

/-! ## Breaker -/

/-- The settings with the timeout in whole milliseconds. -/
def Breaker.Config.inMillis (c : Breaker.Config) : Breaker.Config := { c with timeout := c.timeout.inMillis }

theorem Breaker.Config.decode?_encode (c : Breaker.Config) : decode? c.encode = some c.inMillis := by
  -- every field is found under its name, so that what was written meets what reads it
  show (do
    return ({
      name := ← text? (.str c.name)
      threshold := ← word32? (.int c.threshold.toNat)
      timeout := ← span? (ofSpan c.timeout)
      maxRequests := ← word32? (.int c.maxRequests.toNat) } : Breaker.Config)) = _
  rw [roundTrips_text.back, roundTrips_word.back, roundTrips_span.back, roundTrips_word.back]
  rfl

/-- **A breaker's settings** come back. -/
theorem Breaker.Config.roundTrips_encode : RoundTrips encode decode? (fun _ => true) inMillis := by
  refine .of_kept decode?_encode ?_ ?_
  · intro j c h
    unfold decode? at h
    simp only [Option.bind_eq_bind, Option.bind_eq_some_iff] at h
    obtain ⟨r, -, name, -, threshold, -, timeout, htimeout, maxRequests, -, hc⟩ := h
    cases hc
    have hstandard : span? (.int 30000) = some standard.timeout := rfl
    obtain ⟨-, hmillis⟩ := roundTrips_span.kept_optional hstandard htimeout
    exact ⟨rfl, congrArg (Breaker.Config.mk name threshold · maxRequests) hmillis⟩
  · intro c _
    unfold encode inMillis
    rw [roundTrips_span.same rfl]

/-! ## Limiter -/

/-- The rule with its window in whole milliseconds. -/
def Limiter.Algorithm.inMillis : Limiter.Algorithm → Limiter.Algorithm
  | .slidingWindow rate window => .slidingWindow rate window.inMillis
  | a => a

/-- True if every float of the rule is a finite number. -/
def Limiter.Algorithm.isFinite : Limiter.Algorithm → Bool
  | .tokenBucket rate capacity => rate.isFinite && capacity.isFinite
  | .slidingWindow _ _ => true
  | .cellRate rate _ => rate.isFinite

theorem Json.isReadable_ofFloat (x : Float) : (ofFloat x).isReadable = true := by
  unfold ofFloat
  split <;> rfl

theorem Limiter.Algorithm.isReadable_encode (a : Limiter.Algorithm) : a.encode.isReadable = true := by
  cases a <;> simp [encode, ofSpan, isReadable, membersReadable, isReadable_ofFloat]

theorem Limiter.Algorithm.decode?_encode (a : Limiter.Algorithm) :
    decode? a.encode = if a.isFinite then some a.inMillis else none := by
  unfold decode?
  rw [if_pos a.isReadable_encode]
  cases a with
  | tokenBucket rate capacity =>
    show (do return Algorithm.tokenBucket (← float? (ofFloat rate)) (← float? (ofFloat capacity))) = _
    rw [roundTrips_float.back, roundTrips_float.back]
    unfold isFinite inMillis
    cases hrate : rate.isFinite <;> cases hcapacity : capacity.isFinite <;> simp [hrate, hcapacity]
  | slidingWindow rate window =>
    show (do return Algorithm.slidingWindow (← word32? (.int rate.toNat)) (← span? (ofSpan window))) = _
    rw [roundTrips_word.back, roundTrips_span.back]
    rfl
  | cellRate rate burst =>
    show (do return Algorithm.cellRate (← float? (ofFloat rate)) (← word32? (.int burst.toNat))) = _
    rw [roundTrips_float.back, roundTrips_word.back]
    unfold isFinite inMillis
    cases hrate : rate.isFinite <;> simp [hrate]

/-- The parameters of a rule that was read are finite and in whole milliseconds. -/
theorem Limiter.Algorithm.kept_ofTag? {tag : String} {parameters : Json} {a : Limiter.Algorithm}
    (h : ofTag? tag parameters = some a) : a.isFinite = true ∧ a.inMillis = a := by
  unfold ofTag? at h
  split at h
  · simp only [Option.bind_eq_bind, Option.bind_eq_some_iff] at h
    obtain ⟨r, -, rate, hrate, capacity, hcapacity, ha⟩ := h
    cases ha
    obtain ⟨hfinite, -⟩ := roundTrips_float.kept_required hrate
    obtain ⟨hfinite', -⟩ := roundTrips_float.kept_required hcapacity
    exact ⟨Bool.and_eq_true_iff.2 ⟨hfinite, hfinite'⟩, rfl⟩
  · split at h
    · simp only [Option.bind_eq_bind, Option.bind_eq_some_iff] at h
      obtain ⟨r, -, rate, -, window, hwindow, ha⟩ := h
      cases ha
      obtain ⟨-, hmillis⟩ := roundTrips_span.kept_required hwindow
      exact ⟨rfl, congrArg (Algorithm.slidingWindow rate) hmillis⟩
    · split at h
      · simp only [Option.bind_eq_bind, Option.bind_eq_some_iff] at h
        obtain ⟨r, -, rate, hrate, burst, -, ha⟩ := h
        cases ha
        obtain ⟨hfinite, -⟩ := roundTrips_float.kept_required hrate
        exact ⟨hfinite, rfl⟩
      · cases h

/-- **A rule comes back** from the object that names it, if its floats are finite. -/
theorem Limiter.Algorithm.roundTrips_encode : RoundTrips encode decode? isFinite inMillis := by
  refine .of_kept decode?_encode ?_ ?_
  · intro j a h
    unfold decode? at h
    split at h
    · obtain ⟨⟨tag, parameters⟩, -, hrule⟩ := Option.bind_eq_some_iff.1 h
      exact kept_ofTag? hrule
    · cases h
  · intro a _
    cases a with
    | slidingWindow rate window =>
      unfold encode inMillis
      dsimp only
      rw [roundTrips_span.same rfl]
    | _ => rfl

/-- The settings with every span in whole milliseconds. -/
def Limiter.Config.inMillis (c : Limiter.Config) : Limiter.Config :=
  ⟨c.algorithm.inMillis, c.cleanupInterval.inMillis, c.inactiveThreshold.inMillis⟩

/-- True if the floats of the rule are finite numbers. -/
def Limiter.Config.isFinite (c : Limiter.Config) : Bool := c.algorithm.isFinite

theorem Limiter.Config.decode?_encode (c : Limiter.Config) :
    decode? c.encode = if c.isFinite then some c.inMillis else none := by
  show (do
    return ({
      algorithm := ← Algorithm.decode? c.algorithm.encode
      cleanupInterval := ← span? (ofSpan c.cleanupInterval)
      inactiveThreshold := ← span? (ofSpan c.inactiveThreshold) } : Limiter.Config)) = _
  rw [Algorithm.roundTrips_encode.back, roundTrips_span.back, roundTrips_span.back]
  unfold isFinite
  cases c.algorithm.isFinite <;> rfl

/-- **A limiter's settings** come back. -/
theorem Limiter.Config.roundTrips_encode : RoundTrips encode decode? isFinite inMillis := by
  refine .of_kept decode?_encode ?_ ?_
  · intro j c h
    unfold decode? at h
    simp only [Option.bind_eq_bind, Option.bind_eq_some_iff] at h
    obtain ⟨r, -, algorithm, halgorithm, cleanup, hcleanup, inactive, hinactive, hc⟩ := h
    cases hc
    have hstandard : Algorithm.decode? (.obj [("type", .str "token_bucket"), ("rate", .float 100.0),
        ("capacity", .float 100.0)]) = some standard.algorithm := rfl
    obtain ⟨hfinite, hrule⟩ := Algorithm.roundTrips_encode.kept_optional hstandard halgorithm
    have hinterval : span? (.int 600000) = some standard.cleanupInterval := rfl
    have hthreshold : span? (.int 1800000) = some standard.inactiveThreshold := rfl
    obtain ⟨-, hcleanup⟩ := roundTrips_span.kept_optional hinterval hcleanup
    obtain ⟨-, hinactive⟩ := roundTrips_span.kept_optional hthreshold hinactive
    refine ⟨hfinite, ?_⟩
    unfold inMillis
    dsimp only
    rw [hrule, hcleanup, hinactive]
  · intro c hfinite
    unfold encode inMillis
    rw [Algorithm.roundTrips_encode.same hfinite, roundTrips_span.same rfl, roundTrips_span.same rfl]

/-! ## Retry -/

/-- The settings with both delays in whole milliseconds. -/
def Retry.Config.inMillis (c : Retry.Config) : Retry.Config :=
  { c with baseDelay := c.baseDelay.inMillis, maxDelay := c.maxDelay.inMillis }

theorem Retry.Config.decode?_encode (c : Retry.Config) : decode? c.encode = some c.inMillis := by
  show (do
    return ({
      attempts := ← word32? (.int c.attempts.toNat)
      baseDelay := ← span? (ofSpan c.baseDelay)
      backoff := ← bool? (.bool c.backoff)
      maxDelay := ← span? (ofSpan c.maxDelay) } : Retry.Config)) = _
  rw [roundTrips_word.back, roundTrips_span.back, roundTrips_bool.back, roundTrips_span.back]
  rfl

/-- **A retry's settings** come back. -/
theorem Retry.Config.roundTrips_encode : RoundTrips encode decode? (fun _ => true) inMillis := by
  refine .of_kept decode?_encode ?_ ?_
  · intro j c h
    unfold decode? at h
    simp only [Option.bind_eq_bind, Option.bind_eq_some_iff] at h
    obtain ⟨r, -, attempts, -, base, hbase, backoff, -, most, hmost, hc⟩ := h
    cases hc
    have hfirst : span? (.int 100) = some standard.baseDelay := rfl
    have hcap : span? (.int 2000) = some standard.maxDelay := rfl
    obtain ⟨-, hbase⟩ := roundTrips_span.kept_optional hfirst hbase
    obtain ⟨-, hmost⟩ := roundTrips_span.kept_optional hcap hmost
    refine ⟨rfl, ?_⟩
    unfold inMillis
    dsimp only
    rw [hbase, hmost]
  · intro c _
    unfold encode inMillis
    rw [roundTrips_span.same rfl, roundTrips_span.same rfl]

/-! ## Selector -/

theorem BalancerKind.roundTrips_encode : RoundTrips encode decode? (fun _ => true) (fun a => a) := by
  refine .of_back fun k => ?_
  cases k <;> rfl

/-- **A selector's settings** come back. -/
theorem Selector.Config.roundTrips_encode : RoundTrips encode decode? (fun _ => true) (fun a => a) := by
  refine .of_back fun c => ?_
  show (do return ({ balancer := ← BalancerKind.decode? c.balancer.encode } : Selector.Config)) = _
  rw [BalancerKind.roundTrips_encode.back]
  rfl

/-! ## The whole pipeline -/

/-- The settings with every span in whole milliseconds. -/
def Pipeline.Config.inMillis (c : Pipeline.Config) : Pipeline.Config :=
  ⟨c.selector, c.breaker.inMillis, c.limiter.inMillis, c.retry.inMillis⟩

/-- True if the floats of the limiter's rule are finite numbers. -/
def Pipeline.Config.isFinite (c : Pipeline.Config) : Bool := c.limiter.isFinite

theorem Pipeline.Config.decode?_encode (c : Pipeline.Config) :
    decode? c.encode = if c.isFinite then some c.inMillis else none := by
  show (do
    return ({
      selector := ← Selector.Config.decode? c.selector.encode
      breaker := ← Breaker.Config.decode? c.breaker.encode
      limiter := ← Limiter.Config.decode? c.limiter.encode
      retry := ← Retry.Config.decode? c.retry.encode } : Pipeline.Config)) = _
  rw [Selector.Config.roundTrips_encode.back, Breaker.Config.roundTrips_encode.back,
    Limiter.Config.roundTrips_encode.back, Retry.Config.roundTrips_encode.back]
  unfold isFinite
  cases c.limiter.isFinite <;> rfl

/-- **The settings of every layer** come back. -/
theorem Pipeline.Config.roundTrips_encode : RoundTrips encode decode? isFinite inMillis := by
  refine .of_kept decode?_encode ?_ ?_
  · intro j c h
    unfold decode? at h
    simp only [Option.bind_eq_bind, Option.bind_eq_some_iff] at h
    obtain ⟨r, -, selector, -, breaker, hbreaker, limiter, hlimiter, retry, hretry, hc⟩ := h
    cases hc
    -- a layer that is left out is as an empty object has it
    have hnoBreaker : Breaker.Config.decode? (.obj []) = some default := rfl
    have hnoLimiter : Limiter.Config.decode? (.obj []) = some default := rfl
    have hnoRetry : Retry.Config.decode? (.obj []) = some default := rfl
    obtain ⟨-, hbreaker⟩ := Breaker.Config.roundTrips_encode.kept_optional hnoBreaker hbreaker
    obtain ⟨hfinite, hlimiter⟩ := Limiter.Config.roundTrips_encode.kept_optional hnoLimiter hlimiter
    obtain ⟨-, hretry⟩ := Retry.Config.roundTrips_encode.kept_optional hnoRetry hretry
    refine ⟨hfinite, ?_⟩
    unfold inMillis
    dsimp only
    rw [hbreaker, hlimiter, hretry]
  · intro c hfinite
    unfold encode inMillis
    rw [Breaker.Config.roundTrips_encode.same rfl, Limiter.Config.roundTrips_encode.same hfinite,
      Retry.Config.roundTrips_encode.same rfl]

/-! ## Nodes and instances -/

/-- **A node** comes back. -/
theorem Node.roundTrips_encode : RoundTrips encode decode? (fun _ => true) (fun a => a) := by
  refine .of_back fun n => ?_
  show (do
    return ({
      id := ← text? (.str n.id)
      address := ← text? (.str n.address)
      metadata := ← labels? (ofLabels n.metadata)
      weight := ← signed64? (.int n.weight.toInt) } : Node)) = _
  rw [roundTrips_text.back, roundTrips_text.back, roundTrips_labels.back, roundTrips_signed.back]
  rfl

/-- **A service instance** comes back. -/
theorem ServiceInstance.roundTrips_encode : RoundTrips encode decode? (fun _ => true) (fun a => a) := by
  refine .of_back fun i => ?_
  show (do
    return ({
      id := ← text? (.str i.id)
      name := ← text? (.str i.name)
      version := ← text? (.str i.version)
      metadata := ← labels? (ofLabels i.metadata)
      endpoints := ← list? text? (.arr (i.endpoints.map .str)) } : ServiceInstance)) = _
  rw [roundTrips_text.back, roundTrips_text.back, roundTrips_text.back, roundTrips_labels.back,
    roundTrips_texts.back]
  rfl

/-- **Everything that is configured comes back.** What is written is read again, with its spans in whole
milliseconds, exactly if its floats are finite numbers; what was itself read comes back as it is; and what
came back is written as before. -/
theorem Pipeline.Config.roundTrips_all :
    RoundTrips Pipeline.Config.encode Pipeline.Config.decode? Pipeline.Config.isFinite Pipeline.Config.inMillis ∧
      RoundTrips Breaker.Config.encode Breaker.Config.decode? (fun _ => true) Breaker.Config.inMillis ∧
      RoundTrips Limiter.Config.encode Limiter.Config.decode? Limiter.Config.isFinite Limiter.Config.inMillis ∧
      RoundTrips Limiter.Algorithm.encode Limiter.Algorithm.decode? Limiter.Algorithm.isFinite
        Limiter.Algorithm.inMillis ∧
      RoundTrips Retry.Config.encode Retry.Config.decode? (fun _ => true) Retry.Config.inMillis ∧
      RoundTrips Selector.Config.encode Selector.Config.decode? (fun _ => true) (fun a => a) ∧
      RoundTrips Node.encode Node.decode? (fun _ => true) (fun a => a) ∧
      RoundTrips ServiceInstance.encode ServiceInstance.decode? (fun _ => true) (fun a => a) :=
  ⟨Pipeline.Config.roundTrips_encode, Breaker.Config.roundTrips_encode, Limiter.Config.roundTrips_encode,
    Limiter.Algorithm.roundTrips_encode, Retry.Config.roundTrips_encode, Selector.Config.roundTrips_encode,
    Node.roundTrips_encode, ServiceInstance.roundTrips_encode⟩

end CallGuard
