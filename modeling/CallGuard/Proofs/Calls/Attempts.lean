import CallGuard.Pipeline.Basic
import CallGuard.Proofs.Breaker.Shield
import CallGuard.Proofs.Calls.Tries

/-!
# Attempts

Behind the retry of a pipeline, every attempt goes through the breaker and the
limiter to the transport. What happens in the course of an attempt is a list of
**acts**: breaker and limiter decide and change as their rules say, the transport is
invoked, and between acts only timeline and log move on.

* `Limiter.runFrom_ask`: a layer's question to its limiter.
* `Line.Leads`: what each act makes of breaker, limiter and everything else.
* `Line.Acts`: acts in order, from one state to another.
* `Line.Attempt`: the five ways an attempt can go.
* `Line.guarded_attempt`: **every attempt goes one of these ways.**
-/

namespace CallGuard

variable {σ Req Resp : Type}

theorem Env.shift_noted (env : Cell σ Env) (e : Event) (s : σ) : Shift env s (noted env e s) :=
  ⟨{ env.get s with log := (env.get s).log.push e }, rfl, rfl⟩

namespace Limiter

/-- The state when a limiter has answered: it is as the answer leaves it, and a sweep is reported. -/
def asked (env : Cell σ Env) (cell : Cell σ Limiter) (key : String) (s : σ) : σ :=
  let v := (cell.get s).allow key (env.get s).clock
  match v.sweep with
  | some sweep => Env.noted env (.keysSwept sweep.evicted sweep.live) (cell.set s v.limiter)
  | none => cell.set s v.limiter

/-- **A question to a limiter** is answered by its rule, at the time of the clock. -/
theorem runFrom_ask (env : Cell σ Env) (cell : Cell σ Limiter) (key : String) (s : σ) :
    (ask env cell key).runFrom s =
      (((cell.get s).allow key (env.get s).clock).decision, asked env cell key s) := by
  unfold ask asked
  simp only [Run.runFrom_bind, Env.runFrom_readClock, Run.runFrom_read, Run.runFrom_write]
  cases ((cell.get s).allow key (env.get s).clock).sweep with
  | none => exact Run.runFrom_ofTime _ _
  | some sweep =>
    simp only [Run.runFrom_bind, Env.runFrom_report, Run.runFrom_ofTime]
    rfl

theorem shift_asked {env : Cell σ Env} (henv : env.Lawful) (cell : Cell σ Limiter) (key : String) (s : σ) :
    Env.Shift env (cell.set s ((cell.get s).allow key (env.get s).clock).limiter) (asked env cell key s) := by
  unfold asked
  dsimp only
  split
  · exact Env.shift_noted _ _ _
  · exact .refl henv _

end Limiter

/-- What an attempt passes through: surroundings, breaker, limiter, and the transport at the end. -/
structure Line (σ Req Resp : Type) where
  env : Cell σ Env
  breaker : Cell σ WatchedBreaker
  limiter : Cell σ Limiter
  transport : Handler σ Req Resp

/-- What breaker, limiter and transport do, with their answers: the breaker is asked whether a call may proceed, the
limiter is asked, the transport is invoked, and a success or a failure is recorded in the breaker. Limiter and
transport may fail to compute a time. -/
inductive Act (Resp : Type) where
  | askBreaker (admitted : Bool)
  | askLimiter (answer : Except TimeError Decision)
  | send (outcome : Except TimeError (Reply Resp))
  | record (success : Bool)

namespace Act

/-- True for a question to the breaker. -/
def asksBreaker : Act Resp → Bool
  | askBreaker _ => true
  | _ => false

/-- True for a question that the breaker answered with yes. -/
def isAdmission : Act Resp → Bool
  | askBreaker admitted => admitted
  | _ => false

/-- True for a question to the limiter. -/
def asksLimiter : Act Resp → Bool
  | askLimiter _ => true
  | _ => false

/-- True for a question that the limiter answered with yes. -/
def isPermit : Act Resp → Bool
  | askLimiter (.ok (.allowed _)) => true
  | _ => false

/-- True for an invocation of the transport. -/
def isSend : Act Resp → Bool
  | send _ => true
  | _ => false

/-- Whether the transport's reply was a success, if the act is one that got a reply. -/
def replied? : Act Resp → Option Bool
  | send (.ok (.ok _)) => some true
  | send (.ok (.error _)) => some false
  | _ => none

/-- What was recorded in the breaker, if the act is a record. -/
def recorded? : Act Resp → Option Bool
  | record success => some success
  | _ => none

end Act

namespace Line

/-- The handler behind the retry: breaker, limiter, transport. -/
def guarded (l : Line σ Req Resp) : Handler σ Req Resp :=
  WatchedBreaker.layer l.env l.breaker (Limiter.layer l.env l.limiter .standard l.transport)

/-- The state when the breaker has carried out an operation and told its observer. -/
def moved {α : Type} (l : Line σ Req Resp) (o : Breaker.Outcome α) (s : σ) : σ :=
  l.breaker.set s ⟨o.breaker, (l.breaker.get s).observed ++ o.transition.toArray⟩

/-- **An act leads from one state to another.** Breaker and limiter answer by their rules at the time of the
clock, and change as the rules say. Nothing else changes, unless the transport does it. -/
def Leads (l : Line σ Req Resp) (ctx : Context) (req : Req) (act : Act Resp) (s s' : σ) : Prop :=
  let breaker := (l.breaker.get s).breaker
  let now := (l.env.get s).clock
  match act with
  | .askBreaker admitted => admitted = (breaker.allow now).answer ∧ s' = l.moved (breaker.allow now) s
  | .askLimiter answer =>
    let verdict := (l.limiter.get s).allow (Limiter.defaultKey ctx) now
    answer = verdict.decision ∧ s' = l.limiter.set s verdict.limiter
  | .send outcome => (l.transport ctx req).runFrom s = (outcome, s')
  | .record true => s' = l.moved breaker.success s
  | .record false => s' = l.moved (breaker.failure now) s

/-- **Acts in order**, from one state to another, with shifts after each. -/
inductive Acts (l : Line σ Req Resp) (ctx : Context) (req : Req) : σ → List (Act Resp) → σ → Prop where
  | none {s : σ} : Acts l ctx req s [] s
  | act {s s₁ s₂ s' : σ} {a : Act Resp} {rest : List (Act Resp)} : l.Leads ctx req a s s₁ →
      Env.Shift l.env s₁ s₂ → Acts l ctx req s₂ rest s' → Acts l ctx req s (a :: rest) s'

/-- The acts of recording a reply: what comes from the service is recorded, a control signal is not. -/
def recording : Reply Resp → List (Act Resp)
  | .ok _ => [.record true]
  | .error e => if e.isControlSignal then [] else [.record false]

/-- The acts of an attempt that gets as far as a reply. -/
def exchange (remaining : Nat) (reply : Reply Resp) : List (Act Resp) :=
  .askBreaker true :: .askLimiter (.ok (.allowed remaining)) :: .send (.ok reply) :: recording reply

/-- **How an attempt can go**: its acts and what it comes back with. The breaker rejects the call; the limiter fails
to compute a time, or denies it; or the transport is invoked, and fails to compute a time or replies, in which case
the reply is recorded. -/
inductive Attempt (ctx : Context) : List (Act Resp) → Except TimeError (Reply Resp) → Prop where
  | rejected (name : String) :
      Attempt ctx [.askBreaker false] (.ok (.error (.circuitOpen name)))
  | undecided (e : TimeError) :
      Attempt ctx [.askBreaker true, .askLimiter (.error e)] (.error e)
  | denied (wait : Nat) :
      Attempt ctx [.askBreaker true, .askLimiter (.ok (.limited wait))]
        (.ok (.error (.rateLimited (Limiter.defaultKey ctx) wait)))
  | broken (remaining : Nat) (e : TimeError) :
      Attempt ctx [.askBreaker true, .askLimiter (.ok (.allowed remaining)), .send (.error e)]
        (.error e)
  | answered (remaining : Nat) (reply : Reply Resp) :
      Attempt ctx (exchange remaining reply) (.ok reply)

variable {l : Line σ Req Resp} {ctx : Context} {req : Req}

/-- An act with no shift after it. -/
theorem Acts.cons (henv : l.env.Lawful) {s s₁ s' : σ} {a : Act Resp} {rest : List (Act Resp)}
    (ha : l.Leads ctx req a s s₁) (hr : l.Acts ctx req s₁ rest s') : l.Acts ctx req s (a :: rest) s' :=
  .act ha (.refl henv s₁) hr

/-- A report comes after the breaker's move. -/
theorem shift_moved {α : Type} (henv : l.env.Lawful) (o : Breaker.Outcome α) (s : σ) :
    Env.Shift l.env (l.moved o s) (WatchedBreaker.carried l.env l.breaker o s) := by
  unfold moved WatchedBreaker.carried
  dsimp only
  split
  · exact Env.shift_noted _ _ _
  · exact .refl henv _

/-- **Recording a reply** is an act, unless the reply is a control signal. -/
theorem record_acts (henv : l.env.Lawful) (reply : Reply Resp) (s : σ) :
    l.Acts ctx req s (recording reply) (WatchedBreaker.recorded l.env l.breaker reply s) := by
  unfold recording WatchedBreaker.recorded
  cases reply with
  | ok a => exact .act rfl (shift_moved henv _ s) .none
  | error e =>
    dsimp only
    split
    · exact .none
    · exact .act rfl (shift_moved henv _ s) .none

/-- The note that few permits are left is no act. -/
theorem near_shift {α : Type} (henv : l.env.Lawful) (key path : String) (remaining : Nat)
    (next : Run σ α) (s : σ) :
    ∃ s', (if remaining < Limiter.nearLimit then do
        Env.report l.env (.limitNear key path remaining)
        next
      else next).runFrom s = next.runFrom s' ∧ Env.Shift l.env s s' := by
  split
  · exact ⟨_, Run.runFrom_bind _ _ _, .report l.env _ s⟩
  · exact ⟨s, rfl, .refl henv s⟩

/-- **Every attempt goes one of five ways.** -/
theorem guarded_attempt (henv : l.env.Lawful) (ctx : Context) (req : Req) (s : σ) :
    ∃ acts, l.Acts ctx req s acts ((l.guarded ctx req).runFrom s).2 ∧
      Attempt ctx acts ((l.guarded ctx req).runFrom s).1 := by
  have hmove : Env.Shift l.env (l.moved (WatchedBreaker.answer l.env l.breaker s) s)
      (WatchedBreaker.asked l.env l.breaker s) := shift_moved henv _ s
  rw [guarded, WatchedBreaker.runFrom_layer]
  by_cases hadmitted : (WatchedBreaker.answer l.env l.breaker s).answer = true
  · have hask : l.Leads ctx req (.askBreaker true) s (l.moved (WatchedBreaker.answer l.env l.breaker s) s) :=
      ⟨hadmitted.symm, rfl⟩
    rw [if_pos hadmitted, Handler.visit]
    -- the limiter is asked in the state that the breaker's answer leaves
    generalize WatchedBreaker.asked l.env l.breaker s = s₁ at hmove ⊢
    have hswept := Limiter.shift_asked henv l.limiter (Limiter.defaultKey ctx) s₁
    simp only [Limiter.layer, Limiter.Policy.standard, Run.runFrom_bind, Limiter.runFrom_ask]
    rcases hlim : ((l.limiter.get s₁).allow (Limiter.defaultKey ctx) (l.env.get s₁).clock).decision with
      e | remaining | wait
    · refine ⟨_, ?_, .undecided e⟩
      exact .act hask hmove (.act ⟨hlim.symm, rfl⟩ hswept .none)
    · obtain ⟨s₃, hnear, hsh⟩ := near_shift henv (Limiter.defaultKey ctx) ctx.path remaining
        (l.transport ctx req) (Limiter.asked l.env l.limiter (Limiter.defaultKey ctx) s₁)
      obtain ⟨⟨outcome, s₄⟩, hsend⟩ : ∃ p, (l.transport ctx req).runFrom s₃ = p := ⟨_, rfl⟩
      simp only [hnear, hsend]
      have hsent : ∀ rest s', l.Acts ctx req s₄ rest s' → l.Acts ctx req s
          (.askBreaker true :: .askLimiter (.ok (.allowed remaining)) :: .send outcome :: rest) s' :=
        fun rest s' hrest => .act hask hmove
          (.act ⟨hlim.symm, rfl⟩ (hswept.trans henv hsh) (.cons henv hsend hrest))
      cases outcome with
      | error e => exact ⟨_, hsent _ _ .none, .broken remaining e⟩
      | ok reply => exact ⟨_, hsent _ _ (record_acts henv reply s₄), .answered remaining reply⟩
    · refine ⟨_, ?_, .denied wait⟩
      exact .act hask hmove
        (.act ⟨hlim.symm, rfl⟩ (hswept.trans henv (.report l.env _ _)) .none)
  · rw [if_neg hadmitted]
    refine ⟨_, ?_, .rejected _⟩
    exact .act ⟨(Bool.eq_false_iff.2 hadmitted).symm, rfl⟩ (hmove.trans henv (Env.shift_noted _ _ _)) .none

end Line

end CallGuard
