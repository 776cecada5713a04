import CallGuard.Proofs.Settings.Edits
import CallGuard.Proofs.Settings.RoundTrip

/-!
# Partial settings

Settings are read from a document that has some of their fields only, in any order and with members
that are no fields. Fields of settings may be missing at any depth, and take the defaults of the settings
they belong to. A rule is either there as a whole or missing as a whole: its `type` may stand anywhere
in it, but has to be there, and so do its parameters.

* `Limiter.Algorithm.decode?_edited`: rules.
* `Pipeline.Config.reads_edited`: **the settings of every layer**.
-/

namespace CallGuard

open Json

/-! ## Breaker -/

/-- The settings with the defaults of what is left out. -/
def Breaker.Config.without (c : Breaker.Config) (o : Omission) : Breaker.Config where
  name := o.pick "name" standard.name c.name
  threshold := o.pick "threshold" standard.threshold c.threshold
  timeout := o.pick "timeout" standard.timeout c.timeout
  maxRequests := o.pick "max_requests" standard.maxRequests c.maxRequests

theorem Breaker.Config.decode?_edited {c : Breaker.Config} {o : Omission} {j : Json}
    (h : Edited o c.encode j) : decode? j = some (c.inMillis.without o) := by
  unfold encode at h
  obtain ⟨members, rfl⟩ := h.exists_members
  have hnodup : ["name", "threshold", "timeout", "max_requests"].Nodup := by decide
  have hrecord : record? ["name", "threshold", "timeout", "max_requests"] (.obj members) = some members :=
    h.record?_eq hnodup
  have hname : Record.optional members "name" standard.name text? =
      some (o.pick "name" standard.name c.name) :=
    h.optional_value hnodup (.head _) nofun (roundTrips_text.back _)
  have hthreshold : Record.optional members "threshold" standard.threshold word32? =
      some (o.pick "threshold" standard.threshold c.threshold) :=
    h.optional_value hnodup (.tail _ (.head _)) nofun (roundTrips_word.back _)
  have htimeout : Record.optional members "timeout" standard.timeout span? =
      some (o.pick "timeout" standard.timeout c.timeout.inMillis) :=
    h.optional_value hnodup (.tail _ (.tail _ (.head _))) nofun (roundTrips_span.back _)
  have hmax : Record.optional members "max_requests" standard.maxRequests word32? =
      some (o.pick "max_requests" standard.maxRequests c.maxRequests) :=
    h.optional_value hnodup (.tail _ (.tail _ (.tail _ (.head _)))) nofun (roundTrips_word.back _)
  unfold decode?
  rw [hrecord]
  simp only [Option.bind_eq_bind, Option.bind_some, hname, hthreshold, htimeout, hmax]
  rfl

/-! ## Limiter -/

theorem Json.ofFloat_ne_obj (x : Float) (fields : List (String × Json)) : ofFloat x ≠ .obj fields := by
  unfold ofFloat
  split <;> nofun

namespace Limiter.Algorithm

variable {o : Omission} {j : Json}

/-- True if a field of the rule is left out. -/
def isBrokenBy (a : Algorithm) (o : Omission) : Bool := a.encode.names.any fun name => o [name]

/-- **The name of a rule may stand anywhere** in its object. -/
theorem tagged?_edited {fields members : List (String × Json)} {tag : String}
    (h : Edited o (.obj (("type", .str tag) :: fields)) (.obj members))
    (hnodup : ("type" :: fields.map Prod.fst).Nodup) :
    (o ["type"] = true ∧ tagged? (.obj members) = none) ∨
      (o ["type"] = false ∧ ∃ rest, tagged? (.obj members) = some (tag, .obj rest) ∧
        Edited o (.obj fields) (.obj rest)) := by
  unfold tagged?
  dsimp only
  obtain ⟨hout, hnone⟩ | ⟨hin, j, hone, hedit⟩ := h.found hnodup (.head _)
  · rw [hnone]
    exact .inl ⟨hout, rfl⟩
  · have hj := hedit.eq_of_value nofun
    have hothers : (fields.filter fun m => m.1 != "type") = fields := by
      rw [List.filter_eq_self]
      intro m hm
      have hne : m.1 ≠ "type" := by
        intro htype
        exact (List.nodup_cons.1 hnodup).1 (List.mem_map.2 ⟨m, hm, htype⟩)
      simpa using hne
    have hrest := h.erase "type"
    rw [List.filter_cons_of_neg (by simp), hothers] at hrest
    rw [hone, hj]
    exact .inr ⟨hin, _, rfl, hrest⟩

/-- **Both parameters of a rule have to be there.** -/
theorem parameters_edited {α β : Type} {first second : String} {i k : Json} {members : List (String × Json)}
    {read : Json → Option α} {read' : Json → Option β} {a : α} {b : β} (make : α → β → Algorithm)
    (h : Edited o (.obj [(first, i), (second, k)]) (.obj members)) (hne : first ≠ second)
    (hi : ∀ fields, i ≠ .obj fields) (hk : ∀ fields, k ≠ .obj fields) (ha : read i = some a)
    (hb : read' k = some b) :
    (do
      let r ← Json.record? [first, second] (.obj members)
      return make (← r.required first read) (← r.required second read')) =
      if o [first] || o [second] then none else some (make a b) := by
  have hnodup : [first, second].Nodup := by simpa using hne
  have hrecord : record? [first, second] (.obj members) = some members := h.record?_eq hnodup
  have hfirst : Record.required members first read = if o [first] then none else some a := by
    rw [h.required_eq hnodup (.head _) hi, ha]
  have hsecond : Record.required members second read' = if o [second] then none else some b := by
    rw [h.required_eq hnodup (.tail _ (.head _)) hk, hb]
  rw [hrecord]
  simp only [Option.bind_eq_bind, Option.bind_some, hfirst, hsecond]
  cases o [first] <;> cases o [second] <;> rfl

/-- A rule is read from its name and its parameters, or not at all. -/
theorem decode?_of_parameters {first second tag : String} {i k : Json} {a : Algorithm}
    (h : Edited o (.obj [("type", .str tag), (first, i), (second, k)]) j) (hreadable : j.isReadable = true)
    (hnodup : ["type", first, second].Nodup)
    (hparameters : ∀ rest, Edited o (.obj [(first, i), (second, k)]) (.obj rest) →
      ofTag? tag (.obj rest) = if o [first] || o [second] then none else some a) :
    decode? j = if ["type", first, second].any fun name => o [name] then none else some a := by
  obtain ⟨members, rfl⟩ := h.exists_members
  unfold decode?
  rw [if_pos hreadable]
  simp only [List.any_cons, List.any_nil, Bool.or_false]
  obtain ⟨hout, htag⟩ | ⟨hin, rest, htag, hrest⟩ := tagged?_edited h hnodup
  · rw [htag, hout]
    rfl
  · rw [htag, hin, Bool.false_or]
    exact hparameters rest hrest

/-- **A rule is read as a whole**: if a field of it is left out, it is not read. -/
theorem decode?_edited {a : Algorithm} (hfinite : a.isFinite = true) (h : Edited o a.encode j)
    (hreadable : j.isReadable = true) :
    decode? j = if a.isBrokenBy o then none else some a.inMillis := by
  cases a with
  | tokenBucket rate capacity =>
    obtain ⟨hrate, hcapacity⟩ := Bool.and_eq_true_iff.1 hfinite
    have hnodup : ["type", "rate", "capacity"].Nodup := by decide
    unfold encode at h
    refine decode?_of_parameters h hreadable hnodup fun rest hrest => ?_
    refine parameters_edited .tokenBucket hrest (by decide) (ofFloat_ne_obj rate) (ofFloat_ne_obj capacity) ?_ ?_
    · rw [roundTrips_float.back, if_pos hrate]
    · rw [roundTrips_float.back, if_pos hcapacity]
  | slidingWindow rate window =>
    have hnodup : ["type", "rate", "window"].Nodup := by decide
    unfold encode at h
    refine decode?_of_parameters h hreadable hnodup fun rest hrest => ?_
    exact parameters_edited .slidingWindow hrest (by decide) nofun nofun (roundTrips_word.back rate)
      (roundTrips_span.back window)
  | cellRate rate burst =>
    have hrate : rate.isFinite = true := hfinite
    have hnodup : ["type", "rate", "burst"].Nodup := by decide
    unfold encode at h
    refine decode?_of_parameters h hreadable hnodup fun rest hrest => ?_
    refine parameters_edited .cellRate hrest (by decide) (ofFloat_ne_obj rate) nofun ?_ (roundTrips_word.back burst)
    rw [roundTrips_float.back, if_pos hrate]

end Limiter.Algorithm

namespace Limiter.Config

/-- The settings with the defaults of what is left out. -/
def without (c : Config) (o : Omission) : Config where
  algorithm := o.pick "algorithm" standard.algorithm c.algorithm
  cleanupInterval := o.pick "cleanup_interval" standard.cleanupInterval c.cleanupInterval
  inactiveThreshold := o.pick "inactive_threshold" standard.inactiveThreshold c.inactiveThreshold

/-- True if the rule is there, but not as a whole. -/
def isBrokenBy (c : Config) (o : Omission) : Bool :=
  !o ["algorithm"] && c.algorithm.isBrokenBy (o.under "algorithm")

theorem decode?_edited {c : Config} {o : Omission} {j : Json} (hfinite : c.isFinite = true)
    (h : Edited o c.encode j) (hreadable : j.isReadableAt ["algorithm"] = true) :
    decode? j = if c.isBrokenBy o then none else some (c.inMillis.without o) := by
  unfold encode at h
  obtain ⟨members, rfl⟩ := h.exists_members
  have hnodup : ["algorithm", "cleanup_interval", "inactive_threshold"].Nodup := by decide
  have hrecord : record? ["algorithm", "cleanup_interval", "inactive_threshold"] (.obj members) = some members :=
    h.record?_eq hnodup
  have halgorithm : Record.optional members "algorithm" standard.algorithm Algorithm.decode? =
      if c.isBrokenBy o then none
      else some (o.pick "algorithm" standard.algorithm c.algorithm.inMillis) := by
    refine h.optional_broken hnodup (.head _) fun j hmem hedit => ?_
    exact Algorithm.decode?_edited hfinite hedit (isReadableAt_member hreadable hmem)
  have hcleanup : Record.optional members "cleanup_interval" standard.cleanupInterval span? =
      some (o.pick "cleanup_interval" standard.cleanupInterval c.cleanupInterval.inMillis) :=
    h.optional_value hnodup (.tail _ (.head _)) nofun (roundTrips_span.back _)
  have hinactive : Record.optional members "inactive_threshold" standard.inactiveThreshold span? =
      some (o.pick "inactive_threshold" standard.inactiveThreshold c.inactiveThreshold.inMillis) :=
    h.optional_value hnodup (.tail _ (.tail _ (.head _))) nofun (roundTrips_span.back _)
  unfold decode?
  rw [hrecord]
  simp only [Option.bind_eq_bind, Option.bind_some, halgorithm, hcleanup, hinactive]
  cases c.isBrokenBy o <;> rfl

end Limiter.Config

/-! ## Retry -/

/-- The settings with the defaults of what is left out. -/
def Retry.Config.without (c : Retry.Config) (o : Omission) : Retry.Config where
  attempts := o.pick "attempts" standard.attempts c.attempts
  baseDelay := o.pick "base_delay" standard.baseDelay c.baseDelay
  backoff := o.pick "backoff" standard.backoff c.backoff
  maxDelay := o.pick "max_delay" standard.maxDelay c.maxDelay

theorem Retry.Config.decode?_edited {c : Retry.Config} {o : Omission} {j : Json} (h : Edited o c.encode j) :
    decode? j = some (c.inMillis.without o) := by
  unfold encode at h
  obtain ⟨members, rfl⟩ := h.exists_members
  have hnodup : ["attempts", "base_delay", "backoff", "max_delay"].Nodup := by decide
  have hrecord : record? ["attempts", "base_delay", "backoff", "max_delay"] (.obj members) = some members :=
    h.record?_eq hnodup
  have hattempts : Record.optional members "attempts" standard.attempts word32? =
      some (o.pick "attempts" standard.attempts c.attempts) :=
    h.optional_value hnodup (.head _) nofun (roundTrips_word.back _)
  have hbase : Record.optional members "base_delay" standard.baseDelay span? =
      some (o.pick "base_delay" standard.baseDelay c.baseDelay.inMillis) :=
    h.optional_value hnodup (.tail _ (.head _)) nofun (roundTrips_span.back _)
  have hbackoff : Record.optional members "backoff" standard.backoff bool? =
      some (o.pick "backoff" standard.backoff c.backoff) :=
    h.optional_value hnodup (.tail _ (.tail _ (.head _))) nofun (roundTrips_bool.back _)
  have hmax : Record.optional members "max_delay" standard.maxDelay span? =
      some (o.pick "max_delay" standard.maxDelay c.maxDelay.inMillis) :=
    h.optional_value hnodup (.tail _ (.tail _ (.tail _ (.head _)))) nofun (roundTrips_span.back _)
  unfold decode?
  rw [hrecord]
  simp only [Option.bind_eq_bind, Option.bind_some, hattempts, hbase, hbackoff, hmax]
  rfl

/-! ## Selector -/

/-- The settings with the default of what is left out. -/
def Selector.Config.without (c : Selector.Config) (o : Omission) : Selector.Config where
  balancer := o.pick "balancer" default c.balancer

theorem Selector.Config.decode?_edited {c : Selector.Config} {o : Omission} {j : Json}
    (h : Edited o c.encode j) : decode? j = some (c.without o) := by
  unfold encode at h
  obtain ⟨members, rfl⟩ := h.exists_members
  have hnodup : ["balancer"].Nodup := by decide
  have hrecord : record? ["balancer"] (.obj members) = some members := h.record?_eq hnodup
  have hbalancer : Record.optional members "balancer" default BalancerKind.decode? =
      some (o.pick "balancer" default c.balancer) :=
    h.optional_value hnodup (.head _) nofun (BalancerKind.roundTrips_encode.back _)
  unfold decode?
  rw [hrecord]
  simp only [Option.bind_eq_bind, Option.bind_some, hbalancer]
  rfl

/-! ## The whole pipeline -/

namespace Pipeline.Config

/-- **The settings with the defaults of what is left out**, of a layer as a whole or of fields inside it. -/
def without (c : Config) (o : Omission) : Config where
  selector := o.pick "selector" default (c.selector.without (o.under "selector"))
  breaker := o.pick "breaker" default (c.breaker.without (o.under "breaker"))
  limiter := o.pick "limiter" default (c.limiter.without (o.under "limiter"))
  retry := o.pick "retry" default (c.retry.without (o.under "retry"))

/-- True if the limiter's rule is there, but not as a whole. -/
def isBrokenBy (c : Config) (o : Omission) : Bool :=
  !o ["limiter"] && c.limiter.isBrokenBy (o.under "limiter")

theorem decode?_edited {c : Config} {o : Omission} {j : Json} (hfinite : c.isFinite = true)
    (h : Edited o c.encode j) (hreadable : j.isReadableAt ["limiter", "algorithm"] = true) :
    decode? j = if c.isBrokenBy o then none else some (c.inMillis.without o) := by
  unfold encode at h
  obtain ⟨members, rfl⟩ := h.exists_members
  have hnodup : ["selector", "breaker", "limiter", "retry"].Nodup := by decide
  have hrecord : record? ["selector", "breaker", "limiter", "retry"] (.obj members) = some members :=
    h.record?_eq hnodup
  have hselector : Record.optional members "selector" default Selector.Config.decode? =
      some (o.pick "selector" default (c.selector.without (o.under "selector"))) :=
    h.optional_some hnodup (.head _) fun j hedit => Selector.Config.decode?_edited hedit
  have hbreaker : Record.optional members "breaker" default Breaker.Config.decode? =
      some (o.pick "breaker" default (c.breaker.inMillis.without (o.under "breaker"))) :=
    h.optional_some hnodup (.tail _ (.head _)) fun j hedit => Breaker.Config.decode?_edited hedit
  have hlimiter : Record.optional members "limiter" default Limiter.Config.decode? =
      if c.isBrokenBy o then none
      else some (o.pick "limiter" default (c.limiter.inMillis.without (o.under "limiter"))) := by
    refine h.optional_broken hnodup (.tail _ (.tail _ (.head _))) fun j hmem hedit => ?_
    exact Limiter.Config.decode?_edited hfinite hedit (isReadableAt_member hreadable hmem)
  have hretry : Record.optional members "retry" default Retry.Config.decode? =
      some (o.pick "retry" default (c.retry.inMillis.without (o.under "retry"))) :=
    h.optional_some hnodup (.tail _ (.tail _ (.tail _ (.head _)))) fun j hedit => Retry.Config.decode?_edited hedit
  unfold decode?
  rw [hrecord]
  simp only [Option.bind_eq_bind, Option.bind_some, hselector, hbreaker, hlimiter, hretry]
  cases c.isBrokenBy o <;> rfl

/-- **Partial settings are read.** Of settings with finite floats and spans in whole milliseconds, a document
that is edited at any depth gives the settings with the defaults of what is left out, and all else as it was;
but none if the rule is there without one of its fields. Since the rule's `type` may come last, all that is added
inside the rule has to stand for a value. -/
theorem reads_edited {c : Config} {o : Omission} {j : Json} (hfinite : c.isFinite = true)
    (hmillis : c.inMillis = c) (hedited : Edited o c.encode j)
    (hreadable : j.isReadableAt ["limiter", "algorithm"] = true) :
    decode? j = if c.isBrokenBy o then none else some (c.without o) := by
  have hread := decode?_edited hfinite hedited hreadable
  rw [hmillis] at hread
  exact hread

/-- Settings that differ from the defaults in every field. -/
def unusual : Config :=
  ⟨⟨.weightedRandom⟩, ⟨"users", 7, .ofMillis 250, 2⟩,
    ⟨.tokenBucket 2.5 8.0, .ofMillis 5000, .ofMillis 9000⟩, ⟨4, .ofMillis 20, false, .ofMillis 900⟩⟩

/-- Without a timeout, an interval and a layer. -/
def gaps : Omission := fun path =>
  path == ["breaker", "timeout"] || path == ["limiter", "cleanup_interval"] || path == ["retry"]

/-- A rule whose `type` comes last, after a member that is the field of another rule. -/
def reversedRule : Json :=
  .obj [("burst", .null), ("capacity", .float 8.0), ("rate", .float 2.5), ("type", .str "token_bucket")]

/-- A document of the settings with these gaps, in reverse order and with a member that is no field. -/
def reversed : Json :=
  .obj [("retries", .int 9),
    ("limiter", .obj [("inactive_threshold", .int 9000), ("algorithm", reversedRule)]),
    ("breaker", .obj [("max_requests", .int 2), ("threshold", .int 7), ("name", .str "users")]),
    ("selector", .obj [("balancer", .str "weighted_random")])]

theorem edited_reversedRule :
    Edited ((gaps.under "limiter").under "algorithm") unusual.limiter.algorithm.encode reversedRule := by
  refine .of_reverse [("burst", .null)] ?_ (by decide) rfl
  simp only [List.forall_mem_cons]
  exact ⟨fun _ => .value nofun, fun _ => .value (ofFloat_ne_obj _), fun _ => .value (ofFloat_ne_obj _), nofun⟩

theorem edited_reversed : Edited gaps unusual.encode reversed := by
  refine .of_reverse [("retries", .int 9)] ?_ (by decide) rfl
  simp only [List.forall_mem_cons]
  refine ⟨fun _ => ?_, fun _ => ?_, fun _ => ?_, nofun, nofun⟩
  · refine .of_reverse [] ?_ nofun rfl
    simp only [List.forall_mem_cons]
    exact ⟨fun _ => .value nofun, nofun⟩
  · refine .of_reverse [] ?_ nofun rfl
    simp only [List.forall_mem_cons]
    exact ⟨fun _ => .value nofun, fun _ => .value nofun, nofun, fun _ => .value nofun, nofun⟩
  · refine .of_reverse [] ?_ nofun rfl
    simp only [List.forall_mem_cons]
    exact ⟨fun _ => edited_reversedRule, nofun, fun _ => .value nofun, nofun⟩

theorem reads_reversed :
    unusual.isFinite = true ∧ unusual.inMillis = unusual ∧ Edited gaps unusual.encode reversed ∧
      reversed.isReadableAt ["limiter", "algorithm"] = true ∧
      decode? reversed = some ⟨⟨.weightedRandom⟩, ⟨"users", 7, .ofMillis 30000, 2⟩,
        ⟨.tokenBucket 2.5 8.0, .ofMillis 600000, .ofMillis 9000⟩, ⟨3, .ofMillis 100, true, .ofMillis 2000⟩⟩ := by
  have hfinite : unusual.isFinite = true := by decide
  have hmillis : unusual.inMillis = unusual := by decide
  have hreadable : reversed.isReadableAt ["limiter", "algorithm"] = true := by decide
  refine ⟨hfinite, hmillis, edited_reversed, hreadable, ?_⟩
  exact reads_edited hfinite hmillis edited_reversed hreadable

example : decode? (.obj [("limiter", .obj [("algorithm", .obj [("rate", .float 2.5), ("capacity", .float 8.0)])])]) =
    none := by rfl

end Pipeline.Config

end CallGuard
