import CallGuard.Proofs.Calls.Rounds

/-!
# A retried call heeds its context

A context may be over before a call begins, and it may end while the handler is at
work or in a wait, by a cancellation or by its deadline. Only in a wait does this
matter to a retried call: it comes back at the instant at which the context ends, even
if that is the last one of the wait and the timer comes first. What it is not to retry
it hands back, whatever has become of the context.

* `Retry.Waits`: an invocation with a wait after it.
* `Retry.Heeds`: what a call makes of the end of its context.
* `Retry.Rounds.wait`: a wait is followed by an invocation, or it is the last one.
* `Retry.heeds_context`: **a retried call heeds its context.**
-/

namespace CallGuard.Retry

variable {σ Req Resp : Type}

/-- **An invocation with a wait after it**: its outcome is to be retried, and a try is left. -/
structure Waits (config : Config) (retryIf : Predicate Req Resp) (ctx : Context) (req : Req)
    (visits : List (Visit σ Req Resp)) (i : Nat) (v : Visit σ Req Resp) (delay : Span) : Prop where
  visit : visits[i]? = some v
  wanted : Wants retryIf ctx req v.outcome
  planned : config.delays[i]? = some delay

/-- **What a call makes of the end of its context**, with its invocations in order. The handler is invoked at least
once, and again only while the context is not over. Where the context ends in a wait, the call is over at that
instant, for the reason the context ended for. Where it does not, and the wait is over before the last tick,
there is another invocation. An outcome that is not to be retried or uses up the tries is handed back as it is. -/
structure Heeds (env : Cell σ Env) (config : Config) (retryIf : Predicate Req Resp) (ctx : Context)
    (req : Req) (visits : List (Visit σ Req Resp)) (result : Except TimeError (Reply Resp))
    (finish : σ) : Prop where
  invoked : visits ≠ []
  alive : ∀ v ∈ visits.tail, (env.get v.start).timeline.err ctx = none
  stopped : ∀ i v delay m, Waits config retryIf ctx req visits i v delay →
    (env.get v.finish).timeline.EndsIn (env.get v.finish).timeline.lot ctx
      ((env.get v.finish).timeline.wakeAfter delay) m →
    i + 1 = visits.length ∧ (env.get finish).timeline.now = m ∧
      ∃ reason, result = .ok (.error (.cancelled reason)) ∧
        (env.get finish).timeline.Explains ctx reason
  continued : ∀ i v delay, Waits config retryIf ctx req visits i v delay →
    (∀ m, ¬(env.get v.finish).timeline.EndsIn (env.get v.finish).timeline.lot ctx
      ((env.get v.finish).timeline.wakeAfter delay) m) →
    max (env.get v.finish).timeline.now ((env.get v.finish).timeline.wakeAfter delay) <
      Timeline.lastTick →
    i + 1 < visits.length
  unchanged : ∀ i v, visits[i]? = some v →
    ¬Wants retryIf ctx req v.outcome ∨ i + 1 = max config.attempts.toNat 1 →
    i + 1 = visits.length ∧ result = v.outcome

variable {env : Cell σ Env} {config : Config} {retryIf : Predicate Req Resp} {next : Handler σ Req Resp}
  {ctx : Context} {req : Req} {s finish : σ} {visits : List (Visit σ Req Resp)}
  {result : Except TimeError (Reply Resp)} {i : Nat} {v : Visit σ Req Resp} {delay : Span}

/-- **A wait of the plan** is followed by an invocation, or it is the last one. -/
theorem Rounds.wait (h : Rounds env config retryIf next ctx req 0 config.delays s visits result finish)
    (hwaits : Waits config retryIf ctx req visits i v delay) : ∃ reply : Reply Resp,
      (∃ w, visits[i + 1]? = some w ∧ waited env config ctx i delay reply v.finish = (none, w.start)) ∨
      ∃ reason, i + 1 = visits.length ∧ result = .ok (.error (.cancelled reason)) ∧
        waited env config ctx i delay reply v.finish = (some reason, finish) := by
  obtain ⟨hv, ⟨reply, hreply, hretry⟩, hdelay⟩ := hwaits
  have hlt := (List.getElem?_eq_some_iff.1 hv).1
  refine ⟨reply, ?_⟩
  rcases Nat.lt_or_eq_of_le (Nat.succ_le_of_lt hlt) with hmore | hlast
  · have hw := List.getElem?_eq_getElem hmore
    obtain ⟨reply', delay', hreply', -, hdelay', hwait⟩ := h.between hv hw
    obtain rfl : reply' = reply := Except.ok.inj (hreply'.symm.trans hreply)
    obtain rfl : delay' = delay := Option.some.inj (hdelay'.symm.trans hdelay)
    rw [Nat.zero_add] at hwait
    exact .inl ⟨_, hw, hwait⟩
  · rcases h.last hv hlast with ⟨e, he, -⟩ | ⟨reply', hreply', hstop, -⟩ |
      ⟨reply', delay', reason, hreply', -, hdelay', hwait, hresult⟩
    · rw [hreply] at he
      cases he
    · obtain rfl : reply' = reply := Except.ok.inj (hreply'.symm.trans hreply)
      rcases hstop with hused | hno
      · rw [List.getElem?_eq_none hused] at hdelay
        cases hdelay
      · rw [hretry] at hno
        cases hno
    · obtain rfl : reply' = reply := Except.ok.inj (hreply'.symm.trans hreply)
      obtain rfl : delay' = delay := Option.some.inj (hdelay'.symm.trans hdelay)
      rw [Nat.zero_add] at hwait
      exact .inr ⟨reason, hlast, hresult, hwait⟩

/-- An outcome after which nothing is to be tried is the last one. -/
theorem Rounds.final (h : Rounds env config retryIf next ctx req 0 config.delays s visits result finish)
    (hv : visits[i]? = some v) (hstop : ¬Wants retryIf ctx req v.outcome ∨ config.delays.length ≤ i) :
    i + 1 = visits.length ∧ result = v.outcome := by
  have hlt := (List.getElem?_eq_some_iff.1 hv).1
  have hlast : i + 1 = visits.length := by
    refine Nat.le_antisymm hlt (Nat.le_of_not_lt fun hmore => ?_)
    obtain ⟨reply, delay, hreply, hretry, hdelay, -⟩ := h.between hv (List.getElem?_eq_getElem hmore)
    rcases hstop with hno | hused
    · exact hno ⟨reply, hreply, hretry⟩
    · rw [List.getElem?_eq_none hused] at hdelay
      cases hdelay
  refine ⟨hlast, ?_⟩
  rcases h.last hv hlast with ⟨e, he, hresult, -⟩ | ⟨reply, hreply, -, hresult, -⟩ |
    ⟨reply, delay, reason, hreply, hretry, hdelay, -⟩
  · rw [hresult, he]
  · rw [hresult, hreply]
  · rcases hstop with hno | hused
    · exact absurd ⟨reply, hreply, hretry⟩ hno
    · rw [List.getElem?_eq_none hused] at hdelay
      cases hdelay

theorem Rounds.heeds (henv : env.Lawful)
    (h : Rounds env config retryIf next ctx req 0 config.delays s visits result finish) :
    Heeds env config retryIf ctx req visits result finish := by
  refine ⟨h.ne_nil, ?_, ?_, ?_, ?_⟩
  · intro w hw
    obtain ⟨i, hi⟩ := List.mem_iff_getElem?.1 hw
    rw [List.getElem?_tail] at hi
    have hlt := (List.getElem?_eq_some_iff.1 hi).1
    obtain ⟨reply, delay, -, -, -, hwait⟩ :=
      h.between (List.getElem?_eq_getElem (Nat.lt_of_succ_lt hlt)) hi
    exact err_waited henv hwait
  · intro i v delay m hwaits hends
    obtain ⟨reason, hverdict, hnow, hwhy⟩ := Timeline.verdict_of_endsIn (Nat.min_le_left _ _) hends
    obtain ⟨reply, ⟨w, -, hwait⟩ | ⟨why, hlast, hresult, hwait⟩⟩ := h.wait hwaits
    · have hnone := hverdict.symm.trans (congrArg Prod.fst hwait)
      cases hnone
    · obtain rfl : reason = why := Option.some.inj (hverdict.symm.trans (congrArg Prod.fst hwait))
      obtain ⟨-, rfl⟩ := Prod.mk.inj hwait
      rw [Env.timed, henv.get_set]
      exact ⟨hlast, hnow, reason, hresult, hwhy⟩
  · intro i v delay hwaits hnever hlast
    obtain ⟨reply, ⟨w, hw, -⟩ | ⟨reason, -, -, hwait⟩⟩ := h.wait hwaits
    · exact (List.getElem?_eq_some_iff.1 hw).1
    · obtain ⟨m, hm⟩ := Timeline.exists_endsIn_of_verdict hlast (congrArg Prod.fst hwait)
      exact absurd hm (hnever m)
  · intro i v hv hstop
    refine h.final hv (hstop.imp_right fun hused => ?_)
    have := tries_eq_length_delays config
    omega

/-- **A retried call heeds its context.** Its invocations are those that a watched handler notes. -/
theorem heeds_context (henv : env.Lawful) (config : Config) (retryIf : Predicate Req Resp)
    (next : Handler σ Req Resp) (ctx : Context) (req : Req) (s : σ) : ∃ visits result finish,
      (layer env config retryIf next ctx req).runFrom s = (result, finish) ∧
      (layer (env.beside _) config retryIf next.watched ctx req).runFrom (s, []) =
        (result, finish, visits) ∧
      Heeds env config retryIf ctx req visits result finish := by
  obtain ⟨visits, result, finish, hrun, hwatched, hrounds⟩ := layer_rounds henv config retryIf next ctx req s
  exact ⟨visits, result, finish, hrun, hwatched, hrounds.heeds henv⟩

/-- A scope, its cancellation planned for a time, and lots for the waits until then. -/
def scopedUntil (due : Nat) (reason : CancelReason) (lots : List Lot) : Context × Env :=
  let (ctx, id, timeline) := Timeline.start.withCancel .background
  (ctx, { Env.start with
    timeline := { timeline with
      alarm := some ⟨due, id, reason⟩
      timers := { timeline.timers with lots } } })

/-- With the default settings, the second wait is over after 250 milliseconds. A cancellation at that time ends the
call, although the timer comes first. -/
theorem heeds_context_cut : (Cell.first Env Nat).Lawful ∧
    ∃ (visits : List (Visit (Env × Nat) String String)) (finish : Env × Nat),
      (layer (Cell.first Env Nat) .standard retryErrors (.flaky 2)
        (scopedUntil 250 .serverShutdown [.standard, ⟨false, true, false⟩]).1 "a").runFrom
          ((scopedUntil 250 .serverShutdown [.standard, ⟨false, true, false⟩]).2, 0) =
        (.ok (.error (.cancelled .serverShutdown)), finish) ∧
      visits.length = 2 ∧ finish.1.timeline.now = 250 ∧
      Heeds (Cell.first Env Nat) .standard retryErrors
        (scopedUntil 250 .serverShutdown [.standard, ⟨false, true, false⟩]).1 "a" visits
        (.ok (.error (.cancelled .serverShutdown))) finish := by
  have henv := Cell.first_lawful Env Nat
  obtain ⟨visits, result, finish, hrun, hwatched, h⟩ :=
    heeds_context henv .standard retryErrors (.flaky 2)
      (scopedUntil 250 .serverShutdown [.standard, ⟨false, true, false⟩]).1 "a"
      ((scopedUntil 250 .serverShutdown [.standard, ⟨false, true, false⟩]).2, 0)
  have hresult : result = .ok (.error (.cancelled .serverShutdown)) := (congrArg Prod.fst hrun).symm
  have hnow : finish.1.timeline.now = 250 := (congrArg (fun r => r.2.1.timeline.now) hrun).symm
  have hvisits : visits.length = 2 := (congrArg (fun r => r.2.2.length) hwatched).symm
  subst hresult
  exact ⟨henv, visits, finish, hrun, hvisits, hnow, h⟩

end CallGuard.Retry
