import CallGuard.Retry.Layer

/-!
# The tries of a retried call

A retried call invokes its handler some number of times, one invocation after the
other. Between two of them it only reports and waits, which moves the timeline and
the log on but neither the clock of breakers and limiters nor any layer.

* `Env.Shift`: two states that differ in timeline and log at most.
* `Retry.Tries`: invocations of a handler with such shifts in between.
* `Retry.attemptFrom_tries`: **a retried call is a sequence of tries**, one more than
  it has left at most, of which all but the last were to be retried.
-/

namespace CallGuard

variable {σ Req Resp : Type}

/-- **Only timeline and log moved on** from one state to another. -/
def Env.Shift (env : Cell σ Env) (s s' : σ) : Prop :=
  ∃ v : Env, v.clock = (env.get s).clock ∧ s' = env.set s v

namespace Env.Shift

variable {env : Cell σ Env} {s s' s'' : σ}

theorem refl (henv : env.Lawful) (s : σ) : Shift env s s := ⟨env.get s, rfl, (henv.set_get s).symm⟩

theorem trans (henv : env.Lawful) (h : Shift env s s') (h' : Shift env s' s'') : Shift env s s'' := by
  obtain ⟨v, hv, rfl⟩ := h
  obtain ⟨w, hw, rfl⟩ := h'
  rw [henv.get_set] at hw
  exact ⟨w, hw.trans hv, henv.set_set s v w⟩

theorem report (env : Cell σ Env) (e : Event) (s : σ) :
    Shift env s ((Env.report env e).runFrom s).2 :=
  ⟨{ env.get s with log := (env.get s).log.push e }, rfl, rfl⟩

theorem raceFor (env : Cell σ Env) (c : Context) (span : Span) (s : σ) :
    Shift env s ((Env.raceFor env c span).runFrom s).2 :=
  ⟨{ env.get s with timeline := ((env.get s).timeline.raceFor c span).2 }, rfl, rfl⟩

end Env.Shift

namespace Retry

/-- One invocation of a handler: the states before and after it, and the reply or the time computation that failed.
-/
structure Try (σ Resp : Type) where
  start : σ
  outcome : Except TimeError (Reply Resp)
  finish : σ

/-- **Invocations of a handler** in order, from one state to another, with shifts in between. -/
inductive Tries (env : Cell σ Env) (next : Handler σ Req Resp) (ctx : Context) (req : Req) :
    σ → List (Try σ Resp) → σ → Prop where
  | none {s s' : σ} : Env.Shift env s s' → Tries env next ctx req s [] s'
  | next {s s' : σ} {t : Try σ Resp} {rest : List (Try σ Resp)} : Env.Shift env s t.start →
      (next ctx req).runFrom t.start = (t.outcome, t.finish) →
      Tries env next ctx req t.finish rest s' → Tries env next ctx req s (t :: rest) s'

variable {env : Cell σ Env} {next : Handler σ Req Resp} {ctx : Context} {req : Req}

theorem Tries.shift (henv : env.Lawful) {s s' s'' : σ} {tries : List (Try σ Resp)}
    (h : Env.Shift env s s') (ht : Tries env next ctx req s' tries s'') :
    Tries env next ctx req s tries s'' := by
  cases ht with
  | none h' => exact .none (h.trans henv h')
  | next h' hrun hrest => exact .next (h.trans henv h') hrun hrest

/-- A single try from the state at hand. -/
theorem Tries.single (henv : env.Lawful) {s s' : σ} {t : Try σ Resp} (hs : t.start = s)
    (hrun : (next ctx req).runFrom s = (t.outcome, t.finish)) (h : Env.Shift env t.finish s') :
    Tries env next ctx req s [t] s' := by
  subst hs
  exact .next (.refl henv _) hrun (.none h)

/-- Every try is an invocation of the handler. -/
theorem Tries.run_of_mem {s s' : σ} {tries : List (Try σ Resp)} (h : Tries env next ctx req s tries s')
    {t : Try σ Resp} (ht : t ∈ tries) : (next ctx req).runFrom t.start = (t.outcome, t.finish) := by
  induction h with
  | none _ => cases ht
  | next _ hrun _ ih =>
    rcases List.mem_cons.1 ht with rfl | ht
    · exact hrun
    · exact ih ht

/-- A failure that is reported changes neither the reply nor more than the log. -/
theorem reportFailure_shift (henv : env.Lawful) (ctx : Context) (attempt : Nat) (reply : Reply Resp)
    (s : σ) :
    ∃ s', (reportFailure env ctx attempt reply).runFrom s = (.ok (), s') ∧ Env.Shift env s s' := by
  unfold reportFailure
  cases reply with
  | ok a => exact ⟨s, rfl, .refl henv s⟩
  | error e =>
    by_cases h : 0 < attempt
    · simp only [if_pos h]
      exact ⟨_, rfl, .report env _ s⟩
    · simp only [if_neg h]
      exact ⟨s, rfl, .refl henv s⟩

/-- How a retried call ends: with the outcome of its last try, or with the end of its context. -/
def Ends (last : Try σ Resp) (result : Except TimeError (Reply Resp)) : Prop :=
  result = last.outcome ∨ ∃ reason, result = .ok (.error (.cancelled reason))

variable (config : Config) (retryIf : Predicate Req Resp)

/-- **One round of a retried call** that invoked its handler. It is over with the outcome of the
handler; or a reply was to be retried and, after a wait, either the context is over or another round
begins, with one try less left. -/
theorem attemptFrom_round (henv : env.Lawful) (left attempt : Nat) (previous : Span) {s s₁ : σ}
    {outcome : Except TimeError (Reply Resp)} (hrun : (next ctx req).runFrom s = (outcome, s₁)) :
    (∃ s', (attemptFrom env config retryIf next ctx req attempt previous left).runFrom s =
        (outcome, s') ∧ Env.Shift env s₁ s') ∨
      ∃ reply s₂, outcome = .ok reply ∧ retryIf ctx req reply = true ∧ Env.Shift env s₁ s₂ ∧
        ((∃ reason, (attemptFrom env config retryIf next ctx req attempt previous left).runFrom s =
            (.ok (.error (.cancelled reason)), s₂)) ∨
          ∃ fewer delay, left = fewer + 1 ∧
            (attemptFrom env config retryIf next ctx req attempt previous left).runFrom s =
              (attemptFrom env config retryIf next ctx req (attempt + 1) delay fewer).runFrom s₂) := by
  cases outcome with
  | error e =>
    -- a failed time computation ends the call, whatever is left
    left
    cases left <;> exact ⟨s₁, by simp only [attemptFrom, Run.runFrom_bind, hrun], .refl henv s₁⟩
  | ok reply =>
    obtain ⟨s', hrep, hsh⟩ := reportFailure_shift henv ctx attempt reply s₁
    cases left with
    | zero =>
      left
      exact ⟨s', by simp only [attemptFrom, Run.runFrom_bind, hrun, hrep, Run.runFrom_pure], hsh⟩
    | succ fewer =>
      by_cases hretry : retryIf ctx req reply = true
      · right
        have hwait := (Env.Shift.report env (.retrying (attempt + 1) config.tries
          (config.nextDelay previous attempt) ctx.path reply.error?) s₁).trans henv
          (.raceFor env ctx (config.nextDelay previous attempt) _)
        refine ⟨reply, _, rfl, hretry, hwait, ?_⟩
        simp only [attemptFrom, Run.runFrom_bind, hrun, if_pos hretry, Env.runFrom_report,
          Env.runFrom_raceFor]
        split
        · exact .inl ⟨_, rfl⟩
        · simp only [Run.runFrom_bind, Env.runFrom_err]
          split
          · exact .inl ⟨_, rfl⟩
          · exact .inr ⟨fewer, _, rfl, rfl⟩
      · left
        exact ⟨s', by simp only [attemptFrom, Run.runFrom_bind, hrun, if_neg hretry, hrep,
          Run.runFrom_pure], hsh⟩

/-- **A retried call is a sequence of tries**: at least one and at most one more than are left. Every
try but the last had a reply that was to be retried. -/
theorem attemptFrom_tries (henv : env.Lawful) (next : Handler σ Req Resp) (ctx : Context) (req : Req)
    (left : Nat) :
    ∀ (attempt : Nat) (previous : Span) (s : σ), ∃ before last,
      Tries env next ctx req s (before ++ [last])
        ((attemptFrom env config retryIf next ctx req attempt previous left).runFrom s).2 ∧
      before.length ≤ left ∧
      (∀ t ∈ before, ∃ reply, t.outcome = .ok reply ∧ retryIf ctx req reply = true) ∧
      Ends last ((attemptFrom env config retryIf next ctx req attempt previous left).runFrom s).1 := by
  -- another round has one try less left, from a later state and after another delay
  induction left using Nat.strongRecOn with
  | ind left ih =>
    intro attempt previous s
    obtain ⟨⟨outcome, s₁⟩, hrun⟩ : ∃ p, (next ctx req).runFrom s = p := ⟨_, rfl⟩
    rcases attemptFrom_round config retryIf henv left attempt previous hrun with
      ⟨s', hover, hsh⟩ | ⟨reply, s₂, rfl, hretry, hsh, ⟨reason, hover⟩ | ⟨fewer, delay, rfl, hgo⟩⟩
    · rw [hover]
      exact ⟨[], ⟨s, outcome, s₁⟩, .single henv rfl hrun hsh, Nat.zero_le _, by simp, .inl rfl⟩
    · rw [hover]
      exact ⟨[], ⟨s, .ok reply, s₁⟩, .single henv rfl hrun hsh, Nat.zero_le _, by simp,
        .inr ⟨reason, rfl⟩⟩
    · -- the tries of the rest, after this one
      obtain ⟨before, last, htries, hlen, hall, hends⟩ :=
        ih fewer (Nat.lt_succ_self fewer) (attempt + 1) delay s₂
      rw [hgo]
      refine ⟨⟨s, .ok reply, s₁⟩ :: before, last, .next (.refl henv s) hrun (htries.shift henv hsh),
        Nat.succ_le_succ hlen, ?_, hends⟩
      intro t ht
      rcases List.mem_cons.1 ht with rfl | ht
      · exact ⟨reply, rfl, hretry⟩
      · exact hall t ht

end Retry

end CallGuard
