import CallGuard.Proofs.Calls.Visits
import CallGuard.Proofs.Context.Race
import CallGuard.Retry.Layer

/-!
# The rounds of a retried call

A retried call goes in rounds: the handler is invoked, and either the call is over or
a wait and another round follow. Which of these it is depends on the outcome, on the
waits that are left of the plan and on the context. What a round does to the state is
said in full.

* `Retry.closed`, `Retry.waited`: the state when a call is over, and after a wait.
* `Retry.Rounds`: the rounds of a call, with the invocations in order.
* `Retry.layer_rounds`: **a retried call goes in rounds**, and watching it changes nothing.
* `Retry.Rounds.resume`: from any of its invocations on, it goes in rounds again.
-/

namespace CallGuard.Retry

variable {σ Req Resp : Type}

/-- True of an outcome that is to be retried. -/
def Wants (retryIf : Predicate Req Resp) (ctx : Context) (req : Req)
    (outcome : Except TimeError (Reply Resp)) : Prop :=
  ∃ reply, outcome = .ok reply ∧ retryIf ctx req reply = true

/-- The state when a call is over with a reply: a failure is reported, if there was more than one try. -/
def closed (env : Cell σ Env) (ctx : Context) (attempt : Nat) (reply : Reply Resp) (s : σ) : σ :=
  match reply with
  | .error e => if 0 < attempt then Env.noted env (.retryFailed (attempt + 1) ctx.path e) s else s
  | .ok _ => s

/-- A wait that is announced, and what it is followed by: the reason if the context has ended, by the race or by
the question after it, and the state. -/
def waited (env : Cell σ Env) (config : Config) (ctx : Context) (attempt : Nat) (delay : Span)
    (reply : Reply Resp) (s : σ) : Option CancelReason × σ :=
  let announced := Env.noted env (.retrying (attempt + 1) config.tries delay ctx.path reply.error?) s
  let race := (env.get s).timeline.raceFor ctx delay
  (race.1.or (race.2.err ctx), Env.timed env race.2 announced)

/-- **The rounds of a call** from try number `attempt` on, with the waits that are left: the invocations of its
handler in order, what it comes back with, and the state when it is over. A round is the last one if the handler
fails to compute a time, if the reply is accepted or no try is left, or if the context ends before another try. -/
inductive Rounds (env : Cell σ Env) (config : Config) (retryIf : Predicate Req Resp)
    (next : Handler σ Req Resp) (ctx : Context) (req : Req) :
    Nat → List Span → σ → List (Visit σ Req Resp) → Except TimeError (Reply Resp) → σ → Prop where
  | broken {attempt : Nat} {waits : List Span} {s : σ} {e : TimeError} :
      (next.visit ctx req s).outcome = .error e →
      Rounds env config retryIf next ctx req attempt waits s [next.visit ctx req s] (.error e)
        (next.visit ctx req s).finish
  | accepted {attempt : Nat} {waits : List Span} {s : σ} {reply : Reply Resp} :
      (next.visit ctx req s).outcome = .ok reply → (waits = [] ∨ retryIf ctx req reply = false) →
      Rounds env config retryIf next ctx req attempt waits s [next.visit ctx req s] (.ok reply)
        (closed env ctx attempt reply (next.visit ctx req s).finish)
  | cut {attempt : Nat} {delay : Span} {waits : List Span} {s s' : σ} {reply : Reply Resp}
      {reason : CancelReason} :
      (next.visit ctx req s).outcome = .ok reply → retryIf ctx req reply = true →
      waited env config ctx attempt delay reply (next.visit ctx req s).finish = (some reason, s') →
      Rounds env config retryIf next ctx req attempt (delay :: waits) s [next.visit ctx req s]
        (.ok (.error (.cancelled reason))) s'
  | again {attempt : Nat} {delay : Span} {waits : List Span} {s s' s'' : σ} {reply : Reply Resp}
      {visits : List (Visit σ Req Resp)} {result : Except TimeError (Reply Resp)} :
      (next.visit ctx req s).outcome = .ok reply → retryIf ctx req reply = true →
      waited env config ctx attempt delay reply (next.visit ctx req s).finish = (none, s') →
      Rounds env config retryIf next ctx req (attempt + 1) waits s' visits result s'' →
      Rounds env config retryIf next ctx req attempt (delay :: waits) s
        (next.visit ctx req s :: visits) result s''

theorem tries_eq_length_delays (config : Config) :
    max config.attempts.toNat 1 = config.delays.length + 1 := by
  rw [Config.length_delays]
  omega

theorem runFrom_reportFailure (env : Cell σ Env) (ctx : Context) (attempt : Nat) (reply : Reply Resp)
    (s : σ) :
    (reportFailure env ctx attempt reply).runFrom s = (.ok (), closed env ctx attempt reply s) := by
  unfold reportFailure closed
  cases reply with
  | ok a => rfl
  | error e => dsimp only; split <;> rfl

theorem waited_beside {ν : Type} (env : Cell σ Env) (config : Config) (ctx : Context) (attempt : Nat)
    (delay : Span) (reply : Reply Resp) (s : σ) (n : ν) :
    waited (env.beside ν) config ctx attempt delay reply (s, n) =
      ((waited env config ctx attempt delay reply s).1,
        ((waited env config ctx attempt delay reply s).2, n)) := rfl

theorem closed_beside {ν : Type} (env : Cell σ Env) (ctx : Context) (attempt : Nat) (reply : Reply Resp)
    (s : σ) (n : ν) :
    closed (env.beside ν) ctx attempt reply (s, n) = (closed env ctx attempt reply s, n) := by
  unfold closed
  cases reply with
  | ok a => rfl
  | error e => dsimp only; split <;> rfl

section Equations

variable (env : Cell σ Env) (config : Config) (retryIf : Predicate Req Resp) (next : Handler σ Req Resp)
  (ctx : Context) (req : Req)

/-- The last round. -/
theorem runFrom_attemptFrom_zero (attempt : Nat) (previous : Span) (s : σ) :
    (attemptFrom env config retryIf next ctx req attempt previous 0).runFrom s =
      match (next.visit ctx req s).outcome with
      | .error e => (.error e, (next.visit ctx req s).finish)
      | .ok reply => (.ok reply, closed env ctx attempt reply (next.visit ctx req s).finish) := by
  rw [attemptFrom, Run.runFrom_bind, Handler.visit]
  rcases (next ctx req).runFrom s with ⟨e | reply, s'⟩
  · rfl
  · simp only [Run.runFrom_bind, runFrom_reportFailure, Run.runFrom_pure]

variable {env} (henv : env.Lawful)
include henv

variable {config ctx} in
/-- After a wait that nothing has ended, the context is not over. -/
theorem err_waited {attempt : Nat} {delay : Span} {reply : Reply Resp} {s s' : σ}
    (h : waited env config ctx attempt delay reply s = (none, s')) :
    (env.get s').timeline.err ctx = none := by
  obtain ⟨hverdict, rfl⟩ := Prod.mk.inj h
  rw [Env.timed, henv.get_set]
  exact (Option.or_eq_none_iff.1 hverdict).2

/-- **One round** that is not the last one. -/
theorem runFrom_attemptFrom_succ (attempt : Nat) (previous : Span) (left : Nat) (s : σ) :
    (attemptFrom env config retryIf next ctx req attempt previous (left + 1)).runFrom s =
      match (next.visit ctx req s).outcome with
      | .error e => (.error e, (next.visit ctx req s).finish)
      | .ok reply =>
        if retryIf ctx req reply then
          match waited env config ctx attempt (config.nextDelay previous attempt) reply
            (next.visit ctx req s).finish with
          | (some reason, s') => (.ok (.error (.cancelled reason)), s')
          | (none, s') =>
            (attemptFrom env config retryIf next ctx req (attempt + 1)
              (config.nextDelay previous attempt) left).runFrom s'
        else (.ok reply, closed env ctx attempt reply (next.visit ctx req s).finish) := by
  rw [attemptFrom, Run.runFrom_bind, Handler.visit]
  rcases (next ctx req).runFrom s with ⟨e | reply, s'⟩
  · rfl
  dsimp only
  split
  · simp only [Run.runFrom_bind, Env.runFrom_report, Env.runFrom_raceFor, henv.get_set]
    unfold waited Env.timed Env.noted
    simp only [henv.get_set]
    cases ((env.get s').timeline.raceFor ctx (config.nextDelay previous attempt)).1 with
    | some reason => rfl
    | none =>
      -- the timer has won, and the context is asked after once more
      simp only [Run.runFrom_bind, Env.runFrom_err, henv.get_set, Option.none_or]
      cases ((env.get s').timeline.raceFor ctx (config.nextDelay previous attempt)).2.err ctx <;> rfl
  · simp only [Run.runFrom_bind, runFrom_reportFailure, Run.runFrom_pure]

/-- **A call goes in rounds** from any of its tries on, and watching its handler changes nothing. -/
theorem attemptFrom_rounds (left : Nat) : ∀ (attempt : Nat) (previous : Span) (s : σ)
    (before : List (Visit σ Req Resp)), ∃ visits result s',
      (attemptFrom env config retryIf next ctx req attempt previous left).runFrom s = (result, s') ∧
      (attemptFrom (env.beside _) config retryIf next.watched ctx req attempt previous left).runFrom
        (s, before) = (result, s', before ++ visits) ∧
      Rounds env config retryIf next ctx req attempt (config.delaysFrom previous attempt left) s visits
        result s' := by
  have hbeside : (env.beside (List (Visit σ Req Resp))).Lawful :=
    Cell.via_lawful (Cell.first_lawful _ _) henv
  induction left with
  | zero =>
    intro attempt previous s before
    rw [runFrom_attemptFrom_zero, runFrom_attemptFrom_zero, Handler.visit_watched]
    cases hstart : (next.visit ctx req s).outcome with
    | error e => exact ⟨_, _, _, rfl, rfl, .broken hstart⟩
    | ok reply =>
      dsimp only
      rw [closed_beside]
      exact ⟨_, _, _, rfl, rfl, .accepted hstart (.inl rfl)⟩
  | succ left ih =>
    intro attempt previous s before
    rw [runFrom_attemptFrom_succ _ _ _ _ _ henv, runFrom_attemptFrom_succ _ _ _ _ _ hbeside,
      Handler.visit_watched]
    cases hstart : (next.visit ctx req s).outcome with
    | error e => exact ⟨_, _, _, rfl, rfl, .broken hstart⟩
    | ok reply =>
      dsimp only
      by_cases hretry : retryIf ctx req reply = true
      · rw [if_pos hretry, if_pos hretry, waited_beside]
        rcases hw : waited env config ctx attempt (config.nextDelay previous attempt) reply
          (next.visit ctx req s).finish with ⟨_ | reason, s'⟩
        · obtain ⟨visits, result, last, hgo, hwatched, hrounds⟩ := ih (attempt + 1)
            (config.nextDelay previous attempt) s' (before ++ [next.visit ctx req s])
          rw [List.append_assoc] at hwatched
          exact ⟨_, result, last, hgo, hwatched, .again hstart hretry hw hrounds⟩
        · exact ⟨_, _, s', rfl, rfl, .cut hstart hretry hw⟩
      · rw [if_neg hretry, if_neg hretry, closed_beside]
        exact ⟨_, _, _, rfl, rfl, .accepted hstart (.inr (Bool.eq_false_iff.2 hretry))⟩

end Equations

/-- A call that has tried nothing yet has the waits of its plan ahead. -/
theorem delays_eq (config : Config) :
    config.delaysFrom config.baseDelay 0 (config.tries - 1) = config.delays := by
  have : config.tries - 1 = config.attempts.toNat - 1 := by
    rw [Config.tries]
    omega
  rw [this, Config.delays]

/-- **A retried call goes in rounds**, and watching its handler changes nothing. -/
theorem layer_rounds {env : Cell σ Env} (henv : env.Lawful) (config : Config)
    (retryIf : Predicate Req Resp) (next : Handler σ Req Resp) (ctx : Context) (req : Req) (s : σ) :
    ∃ visits result finish,
      (layer env config retryIf next ctx req).runFrom s = (result, finish) ∧
      (layer (env.beside _) config retryIf next.watched ctx req).runFrom (s, []) =
        (result, finish, visits) ∧
      Rounds env config retryIf next ctx req 0 config.delays s visits result finish := by
  have h := attemptFrom_rounds config retryIf next ctx req henv (config.tries - 1) 0 config.baseDelay s []
  rwa [delays_eq] at h

namespace Rounds

variable {env : Cell σ Env} {config : Config} {retryIf : Predicate Req Resp} {next : Handler σ Req Resp}
  {ctx : Context} {req : Req} {attempt : Nat} {waits : List Span} {s finish : σ}
  {visits : List (Visit σ Req Resp)} {result : Except TimeError (Reply Resp)}

theorem ne_nil (h : Rounds env config retryIf next ctx req attempt waits s visits result finish) :
    visits ≠ [] := by
  cases h <;> exact List.cons_ne_nil _ _

/-- A wait comes before every invocation but the first. -/
theorem length_le (h : Rounds env config retryIf next ctx req attempt waits s visits result finish) :
    visits.length ≤ waits.length + 1 := by
  induction h with
  | broken _ => exact Nat.le_add_left _ _
  | accepted _ _ => exact Nat.le_add_left _ _
  | cut _ _ _ => exact Nat.le_add_left _ _
  | again _ _ _ _ ih => exact Nat.succ_le_succ ih

/-- Every invocation is one of the handler, with the context and the request of the call. -/
theorem visit_of_mem (h : Rounds env config retryIf next ctx req attempt waits s visits result finish)
    {v : Visit σ Req Resp} (hv : v ∈ visits) : v = next.visit ctx req v.start := by
  induction h with
  | broken _ => rw [List.mem_singleton.1 hv]; rfl
  | accepted _ _ => rw [List.mem_singleton.1 hv]; rfl
  | cut _ _ _ => rw [List.mem_singleton.1 hv]; rfl
  | again _ _ _ _ ih =>
    rcases List.mem_cons.1 hv with rfl | hv
    · rfl
    · exact ih hv

theorem exists_cons (h : Rounds env config retryIf next ctx req attempt waits s visits result finish) :
    ∃ rest, visits = next.visit ctx req s :: rest := by
  cases h <;> exact ⟨_, rfl⟩

/-- **From any of its invocations on, a call goes in rounds**, with what is left of its waits. -/
theorem resume (h : Rounds env config retryIf next ctx req attempt waits s visits result finish)
    {i : Nat} {v : Visit σ Req Resp} (hv : visits[i]? = some v) : ∃ s' left rest,
      v = next.visit ctx req s' ∧ left = waits.drop i ∧ rest = visits.drop (i + 1) ∧
      Rounds env config retryIf next ctx req (attempt + i) left s' (next.visit ctx req s' :: rest) result
        finish := by
  induction i generalizing attempt waits s visits with
  | zero =>
    obtain ⟨rest, rfl⟩ := h.exists_cons
    cases hv
    exact ⟨s, waits, rest, rfl, rfl, rfl, h⟩
  | succ i ih =>
    cases h with
    | broken _ => simp at hv
    | accepted _ _ => simp at hv
    | cut _ _ _ => simp at hv
    | again _ _ _ hrest =>
      obtain ⟨s', left, rest, hvisit, hleft, hdrop, h⟩ := ih hrest hv
      rw [Nat.add_right_comm, Nat.add_assoc] at h
      exact ⟨s', left, rest, hvisit, hleft, hdrop, h⟩

/-- **Between two invocations** the first one's reply is to be retried, and nothing ends the call in the wait
that is next in the plan. -/
theorem between (h : Rounds env config retryIf next ctx req attempt waits s visits result finish)
    {i : Nat} {v w : Visit σ Req Resp} (hv : visits[i]? = some v) (hw : visits[i + 1]? = some w) :
    ∃ reply delay, v.outcome = .ok reply ∧ retryIf ctx req reply = true ∧ waits[i]? = some delay ∧
      waited env config ctx (attempt + i) delay reply v.finish = (none, w.start) := by
  obtain ⟨s', left, rest, rfl, hleft, hrest, h⟩ := h.resume hv
  have hw : rest[0]? = some w := by rw [hrest, List.getElem?_drop]; exact hw
  cases h with
  | broken _ => cases hw
  | accepted _ _ => cases hw
  | cut _ _ _ => cases hw
  | again hout hretry hwait hgo =>
    obtain ⟨more, rfl⟩ := hgo.exists_cons
    cases hw
    refine ⟨_, _, hout, hretry, ?_, hwait⟩
    have := congrArg (fun l : List Span => l[0]?) hleft
    rw [List.getElem?_drop] at this
    exact this.symm

/-- **After the last invocation** the call is over: with a failed time computation, with its reply, or
because the context ends in the wait that is next in the plan. -/
theorem last (h : Rounds env config retryIf next ctx req attempt waits s visits result finish)
    {i : Nat} {v : Visit σ Req Resp} (hv : visits[i]? = some v) (hlast : i + 1 = visits.length) :
    (∃ e, v.outcome = .error e ∧ result = .error e ∧ finish = v.finish) ∨
    (∃ reply, v.outcome = .ok reply ∧ (waits.length ≤ i ∨ retryIf ctx req reply = false) ∧
      result = .ok reply ∧ finish = closed env ctx (attempt + i) reply v.finish) ∨
    ∃ reply delay reason, v.outcome = .ok reply ∧ retryIf ctx req reply = true ∧ waits[i]? = some delay ∧
      waited env config ctx (attempt + i) delay reply v.finish = (some reason, finish) ∧
      result = .ok (.error (.cancelled reason)) := by
  obtain ⟨s', left, rest, rfl, hleft, hrest, h⟩ := h.resume hv
  rw [hlast, List.drop_length] at hrest
  cases h with
  | broken hout => exact .inl ⟨_, hout, rfl, rfl⟩
  | accepted hout hstop =>
    refine .inr (.inl ⟨_, hout, hstop.imp_left fun hnil => ?_, rfl, rfl⟩)
    exact List.drop_eq_nil_iff.1 (hleft ▸ hnil)
  | cut hout hretry hwait =>
    refine .inr (.inr ⟨_, _, _, hout, hretry, ?_, hwait, rfl⟩)
    have := congrArg (fun l : List Span => l[0]?) hleft
    rw [List.getElem?_drop] at this
    exact this.symm
  | again _ _ _ hgo => exact absurd hrest hgo.ne_nil

end Rounds

end CallGuard.Retry
