import CallGuard.Proofs.Calls.Rounds
import Mathlib.Order.Bounds.Basic

/-!
# A retried call follows its plan

As long as its context does not end, a retried call does what settings and outcomes
say: it goes on while outcomes are to be retried and tries are left, waits as planned
in between, reports every wait, and comes back with the last outcome.

* `Retry.Endless`: a call whose context never ends.
* `Retry.Planned`: what a call does by its plan.
* `Retry.Rounds.count`: how many invocations there are.
* `Retry.follows_plan`: **a retried call follows its plan.**
-/

namespace CallGuard.Retry

variable {σ Req Resp : Type}

/-- **A call whose context never ends**: whenever its handler comes back, nothing that is planned ends it. -/
def Endless (env : Cell σ Env) (ctx : Context) (visits : List (Visit σ Req Resp)) : Prop :=
  ∀ v ∈ visits, (env.get v.finish).timeline.Lasts ctx

/-- **What a call does by its plan**, with its invocations in order. The handler is invoked until an outcome is not
to be retried or the tries are used up, which is in the range of a counter; it is given the context and the request
of the call every time, and the first time is at once. Between two invocations the wait is reported and slept
through, and nothing else happens. A sleep is as long as its wait, rounded up to the milliseconds of timers, if
timers run so long. The call comes back with the last outcome, which is reported if it is an error and not the first
one; otherwise nothing is. -/
structure Planned (env : Cell σ Env) (config : Config) (retryIf : Predicate Req Resp) (ctx : Context)
    (req : Req) (s : σ) (visits : List (Visit σ Req Resp)) (result : Except TimeError (Reply Resp))
    (finish : σ) : Prop where
  count : IsLeast {n | 1 ≤ n ∧ (n = max config.attempts.toNat 1 ∨
    ∃ v, visits[n - 1]? = some v ∧ ¬Wants retryIf ctx req v.outcome)} visits.length
  counted : visits.length < UInt32.size
  same : ∀ v ∈ visits, v.ctx = ctx ∧ v.req = req
  first : ∀ v, visits[0]? = some v → v.start = s
  waits : ∀ i v w, visits[i]? = some v → visits[i + 1]? = some w → ∃ reply delay,
    v.outcome = .ok reply ∧ config.delays[i]? = some delay ∧
      w.start = Env.timed env ((env.get v.finish).timeline.sleep delay)
        (Env.noted env (.retrying (i + 1) config.tries delay ctx.path reply.error?) v.finish)
  lengths : ∀ i v w delay, visits[i]? = some v → visits[i + 1]? = some w →
    config.delays[i]? = some delay → delay ≤ (env.get v.finish).timeline.timers.longest →
    (env.get v.finish).timeline.now + ((nanosPerMilli - 1) + delay.nanos) / nanosPerMilli ≤
      Timeline.lastTick →
    (env.get w.start).timeline.now =
      (env.get v.finish).timeline.now + ((nanosPerMilli - 1) + delay.nanos) / nanosPerMilli
  result : ∃ v, visits.getLast? = some v ∧ result = v.outcome
  failed : ∀ v e, visits.getLast? = some v → v.outcome = .ok (.error e) → 2 ≤ visits.length →
    finish = Env.noted env (.retryFailed visits.length ctx.path e) v.finish
  silent : ∀ v, visits.getLast? = some v → (∀ e, v.outcome ≠ .ok (.error e)) ∨ visits.length < 2 →
    finish = v.finish

variable {env : Cell σ Env} {config : Config} {retryIf : Predicate Req Resp} {next : Handler σ Req Resp}
  {ctx : Context} {req : Req} {waits : List Span} {s finish : σ} {visits : List (Visit σ Req Resp)}
  {result : Except TimeError (Reply Resp)} {attempt : Nat}

/-- A wait of a context that lasts is a sleep. -/
theorem waited_of_lasts (h : (env.get s).timeline.Lasts ctx) (attempt : Nat) (delay : Span)
    (reply : Reply Resp) :
    waited env config ctx attempt delay reply s =
      (none, Env.timed env ((env.get s).timeline.sleep delay)
        (Env.noted env (.retrying (attempt + 1) config.tries delay ctx.path reply.error?) s)) := by
  have hopen : ((env.get s).timeline.sleep delay).err ctx = none :=
    Timeline.err_eq_none_iff.2 ⟨(h.sleep delay).scope, by simp [h.deadline]⟩
  rw [waited, h.raceFor, Option.none_or, hopen]

/-- **The last outcome** is what a call comes back with, and its tries are used up or it is not to be
retried, if the context lasts. -/
theorem Rounds.ends (hendless : Endless env ctx visits)
    (h : Rounds env config retryIf next ctx req attempt waits s visits result finish) {i : Nat}
    {v : Visit σ Req Resp} (hv : visits[i]? = some v) (hlast : i + 1 = visits.length) :
    result = v.outcome ∧ (waits.length ≤ i ∨ ¬Wants retryIf ctx req v.outcome) ∧
      ((∃ e, v.outcome = .error e ∧ finish = v.finish) ∨
        ∃ reply, v.outcome = .ok reply ∧ finish = closed env ctx (attempt + i) reply v.finish) := by
  rcases h.last hv hlast with ⟨e, hout, hresult, hfinish⟩ | ⟨reply, hout, hstop, hresult, hfinish⟩ |
    ⟨reply, delay, reason, -, -, -, hwait, -⟩
  · refine ⟨hresult.trans hout.symm, .inr ?_, .inl ⟨e, hout, hfinish⟩⟩
    rintro ⟨reply, hreply, -⟩
    rw [hout] at hreply
    cases hreply
  · refine ⟨hresult.trans hout.symm, hstop.imp_right ?_, .inr ⟨reply, hout, hfinish⟩⟩
    rintro hretry ⟨other, hother, hwants⟩
    rw [hout] at hother
    cases hother
    rw [hretry] at hwants
    cases hwants
  · -- a context that lasts cuts no wait
    rw [waited_of_lasts (hendless v (List.mem_of_getElem? hv))] at hwait
    cases hwait

/-- **How many invocations there are**: as many as it takes until an outcome is not to be retried, or as
there are waits and one more. -/
theorem Rounds.count (hendless : Endless env ctx visits)
    (h : Rounds env config retryIf next ctx req attempt waits s visits result finish) :
    IsLeast {n | 1 ≤ n ∧ (n = waits.length + 1 ∨
      ∃ v, visits[n - 1]? = some v ∧ ¬Wants retryIf ctx req v.outcome)} visits.length := by
  have hpos : 0 < visits.length := List.length_pos_iff.2 h.ne_nil
  have hle := h.length_le
  constructor
  · have hv : visits[visits.length - 1]? = some (visits[visits.length - 1]) := List.getElem?_eq_getElem _
    obtain ⟨-, hstop, -⟩ := h.ends hendless hv (by omega)
    refine ⟨hpos, hstop.imp (fun hused => ?_) fun hno => ⟨_, hv, hno⟩⟩
    omega
  · rintro n ⟨hn, rfl | ⟨v, hv, hno⟩⟩
    · exact hle
    · refine Nat.le_of_not_lt fun hlt => hno ?_
      have hw := List.getElem?_eq_getElem (show n - 1 + 1 < visits.length by omega)
      obtain ⟨reply, delay, hout, hretry, -⟩ := h.between hv hw
      exact ⟨reply, hout, hretry⟩

/-- An error after more than one try is reported. -/
theorem Rounds.failed (hendless : Endless env ctx visits)
    (h : Rounds env config retryIf next ctx req 0 config.delays s visits result finish)
    {v : Visit σ Req Resp} {e : CallError} (hv : visits[visits.length - 1]? = some v)
    (hout : v.outcome = .ok (.error e)) (hmany : 2 ≤ visits.length) :
    finish = Env.noted env (.retryFailed visits.length ctx.path e) v.finish := by
  obtain ⟨-, -, ⟨e', he', -⟩ | ⟨reply, hreply, hfinish⟩⟩ := h.ends hendless hv (by omega)
  · rw [hout] at he'
    cases he'
  · rw [hout] at hreply
    cases hreply
    rw [hfinish, closed, if_pos (by omega)]
    congr 2
    omega

/-- A success is not reported, nor is what a single try comes to. -/
theorem Rounds.silent (hendless : Endless env ctx visits)
    (h : Rounds env config retryIf next ctx req 0 config.delays s visits result finish)
    {v : Visit σ Req Resp} (hv : visits[visits.length - 1]? = some v)
    (hsilent : (∀ e, v.outcome ≠ .ok (.error e)) ∨ visits.length < 2) : finish = v.finish := by
  have hpos : 0 < visits.length := List.length_pos_iff.2 h.ne_nil
  obtain ⟨-, -, ⟨e, -, hfinish⟩ | ⟨reply, hreply, hfinish⟩⟩ := h.ends hendless hv (by omega)
  · exact hfinish
  · rw [hfinish]
    cases reply with
    | ok a => rfl
    | error e =>
      refine if_neg ?_
      have := hsilent.resolve_left fun hno => hno e hreply
      omega

theorem Rounds.planned (henv : env.Lawful) (hendless : Endless env ctx visits)
    (h : Rounds env config retryIf next ctx req 0 config.delays s visits result finish) :
    Planned env config retryIf ctx req s visits result finish := by
  have hpos : 0 < visits.length := List.length_pos_iff.2 h.ne_nil
  have hlast : ∀ v, visits.getLast? = some v → visits[visits.length - 1]? = some v := by
    intro v hv
    rwa [← List.getLast?_eq_getElem?]
  have hwaits : ∀ i v w, visits[i]? = some v → visits[i + 1]? = some w → ∃ reply delay,
      v.outcome = .ok reply ∧ config.delays[i]? = some delay ∧
        w.start = Env.timed env ((env.get v.finish).timeline.sleep delay)
          (Env.noted env (.retrying (i + 1) config.tries delay ctx.path reply.error?) v.finish) := by
    intro i v w hv hw
    obtain ⟨reply, delay, hout, -, hdelay, hwait⟩ := h.between hv hw
    rw [waited_of_lasts (hendless v (List.mem_of_getElem? hv)), Nat.zero_add] at hwait
    exact ⟨reply, delay, hout, hdelay, (Prod.mk.inj hwait).2.symm⟩
  refine ⟨?_, ?_, ?_, ?_, hwaits, ?_, ?_, ?_, ?_⟩
  · rw [tries_eq_length_delays]
    exact h.count hendless
  · have hle := h.length_le
    have hlt := config.attempts.toNat_lt
    rw [Config.length_delays] at hle
    rw [UInt32.size]
    omega
  · intro v hv
    rw [h.visit_of_mem hv]
    exact ⟨rfl, rfl⟩
  · intro v hv
    obtain ⟨rest, rfl⟩ := h.exists_cons
    cases hv
    rfl
  · intro i v w delay hv hw hdelay hlong hreach
    obtain ⟨reply, planned, -, hplanned, hstart⟩ := hwaits i v w hv hw
    obtain rfl : planned = delay := Option.some.inj (hplanned.symm.trans hdelay)
    rw [hstart, Env.timed, henv.get_set]
    exact Timeline.now_sleep hlong hreach
  · have hv : visits[visits.length - 1]? = some (visits[visits.length - 1]) := List.getElem?_eq_getElem _
    exact ⟨_, List.getLast?_eq_getElem?.trans hv, (h.ends hendless hv (by omega)).1⟩
  · exact fun v e hv hout hmany => h.failed hendless (hlast v hv) hout hmany
  · exact fun v hv hsilent => h.silent hendless (hlast v hv) hsilent

/-- **A retried call follows its plan** if its context does not end. Its invocations are those that a
watched handler notes. -/
theorem follows_plan (henv : env.Lawful) (config : Config) (retryIf : Predicate Req Resp)
    (next : Handler σ Req Resp) (ctx : Context) (req : Req) (s : σ) : ∃ visits result finish,
      (layer env config retryIf next ctx req).runFrom s = (result, finish) ∧
      (layer (env.beside _) config retryIf next.watched ctx req).runFrom (s, []) =
        (result, finish, visits) ∧
      (Endless env ctx visits → Planned env config retryIf ctx req s visits result finish) := by
  obtain ⟨visits, result, finish, hrun, hwatched, hrounds⟩ := layer_rounds henv config retryIf next ctx req s
  exact ⟨visits, result, finish, hrun, hwatched, hrounds.planned henv⟩

/-- With the default settings, two failures are outlasted by the waits. -/
theorem follows_plan_flaky : (Cell.first Env Nat).Lawful ∧
    ∃ visits finish, (layer (Cell.first Env Nat) .standard retryErrors (.flaky 2) .background "a").runFrom
        (.start, 0) = (.ok (.ok "up"), finish) ∧
      visits.length = 3 ∧ finish.1.timeline.now = 250 ∧
      Endless (Cell.first Env Nat) .background visits ∧
      Planned (Cell.first Env Nat) .standard retryErrors .background "a" (.start, 0) visits
        (.ok (.ok "up")) finish := by
  have henv := Cell.first_lawful Env Nat
  obtain ⟨visits, result, finish, hrun, hwatched, h⟩ :=
    follows_plan henv .standard retryErrors (.flaky 2) .background "a" (.start, 0)
  have hresult : result = .ok (.ok "up") := (congrArg Prod.fst hrun).symm
  have hnow : finish.1.timeline.now = 250 := (congrArg (fun r => r.2.1.timeline.now) hrun).symm
  have hvisits : visits.length = 3 := (congrArg (fun r => r.2.2.length) hwatched).symm
  have hendless : Endless (Cell.first Env Nat) .background visits :=
    fun v _ => Timeline.lasts_of_free _ rfl rfl
  subst hresult
  exact ⟨henv, visits, finish, hrun, hvisits, hnow, hendless, h hendless⟩

end CallGuard.Retry
