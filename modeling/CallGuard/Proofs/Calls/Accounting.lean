import CallGuard.Proofs.Calls.Attempts
import Mathlib.Data.List.Forall2

/-!
# The accounts of a pipeline

Calls go through a pipeline one after another, to a transport that may do anything
with the world but answers for the service only. The accounts of a call list its
attempts with their acts.

* `Pipeline.World.Balanced`: what holds of the accounts of one attempt.
* `Pipeline.World.Accounted`: what holds of the accounts of one call.
* `Pipeline.World.calls_accounted`: **every run of calls has such accounts**, and over
  the whole run the transport is invoked as often as the limiter admits a call.
-/

namespace CallGuard

/-- The error of a service: coded, opaque, or about its settings. It is no control signal. -/
def CallError.FromService (e : CallError) : Prop :=
  (∃ status, e = .status status) ∨ (∃ message, e = .call message) ∨
    ∃ field reason, e = .invalidConfig field reason

theorem CallError.FromService.not_signal {e : CallError} (h : e.FromService) :
    e.isControlSignal = false := by
  rcases h with ⟨_, rfl⟩ | ⟨_, rfl⟩ | ⟨_, _, rfl⟩ <;> rfl

/-- **A handler that answers for the service**: all its errors are those of a service. -/
def Handler.ForService {σ Req Resp : Type} (h : Handler σ Req Resp) : Prop :=
  ∀ ctx req s e s', (h ctx req).runFrom s = (.ok (.error e), s') → e.FromService

namespace Pipeline

/-- A pipeline, its surroundings, and everything else there is. -/
structure World (τ : Type) where
  env : Env
  pipeline : Pipeline
  outside : τ

namespace World

variable {τ Req Resp : Type}

/-- The surroundings. -/
def envCell : Cell (World τ) Env := ⟨env, fun w env => { w with env }⟩

/-- The pipeline. -/
def pipelineCell : Cell (World τ) Pipeline := ⟨pipeline, fun w pipeline => { w with pipeline }⟩

theorem envCell_lawful : (envCell : Cell (World τ) Env).Lawful :=
  ⟨fun _ _ => rfl, fun _ => rfl, fun _ _ _ => rfl⟩

/-- What an attempt passes through. -/
def line (transport : Handler (World τ) Req Resp) : Line (World τ) Req Resp :=
  ⟨envCell, pipelineCell.via breakerCell, pipelineCell.via limiterCell, transport⟩

/-- Something that happens: a call through the pipeline, or anything else in between, as when the clock is moved on
or contexts are made or cancelled. -/
inductive Step (τ Req : Type) where
  | call (ctx : Context) (req : Req)
  | meanwhile (work : Run (World τ) Unit)

/-- A call and what became of it: the reply or the time computation that failed, and the worlds when it was made and
when it was over. -/
structure Call (τ Req Resp : Type) where
  ctx : Context
  req : Req
  start : World τ
  result : Except TimeError (Reply Resp)
  finish : World τ

/-- **The calls of a run** through the pipeline of settings. A call that fails in a time computation is
over, and the run goes on from where it got to. -/
def calls (c : Config) (transport : Handler (World τ) Req Resp) :
    List (Step τ Req) → World τ → List (Call τ Req Resp)
  | [], _ => []
  | .meanwhile work :: rest, w => calls c transport rest (work.runFrom w).2
  | .call ctx req :: rest, w =>
    let p := (wrap c envCell pipelineCell transport ctx req).runFrom w
    ⟨ctx, req, w, p.1, p.2⟩ :: calls c transport rest p.2

/-- The account of an attempt: the try it is, and its acts in order. -/
structure Account (τ Resp : Type) extends Retry.Try (World τ) Resp where
  acts : List (Act Resp)

/-- **A balanced account** of an attempt: its acts are what happened. The breaker is asked once, the limiter exactly
when the breaker admits, and the transport is invoked exactly when the limiter admits. Every reply of the transport
is recorded once, for what it is, and nothing else is. A call that the limiter denies leaves the breaker as it was
right after admission. -/
structure Balanced (transport : Handler (World τ) Req Resp) (ctx : Context) (req : Req)
    (a : Account τ Resp) : Prop where
  happened : (line transport).Acts ctx req a.start a.acts a.finish
  asked_once : a.acts.countP Act.asksBreaker = 1
  asked_admitted : a.acts.countP Act.asksLimiter = a.acts.countP Act.isAdmission
  sent_permitted : a.acts.countP Act.isSend = a.acts.countP Act.isPermit
  recorded : a.acts.filterMap Act.recorded? = a.acts.filterMap Act.replied?
  untouched : ∀ key wait, a.outcome = .ok (.error (.rateLimited key wait)) → ∃ admitted,
    (line transport).Leads ctx req (.askBreaker true) a.start admitted ∧
      a.finish.pipeline.breaker = admitted.pipeline.breaker

/-- **The accounts of a call**: its attempts are what happened. There is one at least, and there are no more than
settings allow. The call ends as its last attempt, or with its context. The accounts of all attempts are balanced,
and only the last one is rejected by breaker or limiter. -/
structure Accounted (c : Config) (transport : Handler (World τ) Req Resp) (call : Call τ Req Resp)
    (attempts : List (Account τ Resp)) : Prop where
  happened : Retry.Tries envCell (line transport).guarded call.ctx call.req call.start
    (attempts.map Account.toTry) call.finish
  nonempty : 1 ≤ attempts.length
  length_le : attempts.length ≤ c.retry.attempts.toNat
  ends : ∀ last ∈ attempts.getLast?, Retry.Ends last.toTry call.result
  balanced : ∀ a ∈ attempts, Balanced transport call.ctx call.req a
  rejected_last : ∀ a ∈ attempts.dropLast, (∀ name, a.outcome ≠ .ok (.error (.circuitOpen name))) ∧
    ∀ key wait, a.outcome ≠ .ok (.error (.rateLimited key wait))

/-! ## Attempts balance -/

variable {transport : Handler (World τ) Req Resp} {ctx : Context} {req : Req}

/-- A shift does not touch the breaker. -/
theorem shift_breaker {w w' : World τ} (h : Env.Shift envCell w w') :
    w'.pipeline.breaker = w.pipeline.breaker := by
  obtain ⟨v, -, rfl⟩ := h
  rfl

/-- What the transport replied is recorded once, because it comes from the service. -/
theorem exchange_recorded (ht : transport.ForService) (remaining : Nat) {reply : Reply Resp}
    {w w' : World τ} (h : (transport ctx req).runFrom w = (.ok reply, w')) :
    (Line.exchange remaining reply).filterMap Act.recorded? =
      (Line.exchange remaining reply).filterMap Act.replied? := by
  cases reply with
  | ok a => rfl
  | error e =>
    have hs := (ht ctx req w e w' h).not_signal
    simp only [Line.exchange, Line.recording, hs]
    rfl

/-- Recording is neither a question nor an invocation. -/
theorem countP_recording (reply : Reply Resp) (p : Act Resp → Bool)
    (hp : ∀ success, p (.record success) = false) : (Line.recording reply).countP p = 0 := by
  unfold Line.recording
  split
  · simp [hp]
  · split <;> simp [hp]

/-- A denied call leaves the breaker as it was right after admission. -/
theorem denied_untouched {wait : Nat} {w w' : World τ}
    (h : (line transport).Acts ctx req w [.askBreaker true, .askLimiter (.ok (.limited wait))] w') :
    ∃ admitted, (line transport).Leads ctx req (.askBreaker true) w admitted ∧
      w'.pipeline.breaker = admitted.pipeline.breaker := by
  obtain _ | ⟨hask, hsh, hrest⟩ := h
  obtain _ | ⟨⟨-, rfl⟩, hsh', hrest⟩ := hrest
  cases hrest
  refine ⟨_, hask, ?_⟩
  -- what the limiter's answer changes is the limiter
  rw [shift_breaker hsh', ← shift_breaker hsh]
  rfl

/-- The account of an attempt that gets as far as a reply is balanced. -/
theorem exchange_balanced (ht : transport.ForService) {remaining : Nat} {reply : Reply Resp}
    {w w' : World τ} (h : (line transport).Acts ctx req w (Line.exchange remaining reply) w') :
    Balanced transport ctx req ⟨⟨w, .ok reply, w'⟩, Line.exchange remaining reply⟩ := by
  have hreplied : ∃ w₁ w₂, (transport ctx req).runFrom w₁ = (.ok reply, w₂) := by
    obtain _ | ⟨-, -, hrest⟩ := h
    obtain _ | ⟨-, -, hrest⟩ := hrest
    obtain _ | ⟨hsend, -, -⟩ := hrest
    exact ⟨_, _, hsend⟩
  obtain ⟨w₁, w₂, hsend⟩ := hreplied
  have hcount : ∀ p : Act Resp → Bool, (∀ success, p (.record success) = false) →
      (Line.exchange remaining reply).countP p = [Act.askBreaker true,
        .askLimiter (.ok (.allowed remaining)), .send (.ok reply)].countP p := by
    intro p hp
    simp only [Line.exchange, List.countP_cons, countP_recording reply p hp, List.countP_nil]
  refine ⟨h, ?_, ?_, ?_, ?_, ?_⟩
  · exact hcount _ fun _ => rfl
  · rw [hcount _ fun _ => rfl, hcount _ fun _ => rfl]; rfl
  · rw [hcount _ fun _ => rfl, hcount _ fun _ => rfl]; rfl
  · exact exchange_recorded ht remaining hsend
  · rintro key wait heq
    cases heq
    have := (ht ctx req w₁ _ w₂ hsend).not_signal
    cases this

/-- **The account of an attempt is balanced**, whichever way the attempt goes. -/
theorem balanced_of_attempt (ht : transport.ForService) {a : Account τ Resp}
    (hacts : (line transport).Acts ctx req a.start a.acts a.finish)
    (hway : Line.Attempt ctx a.acts a.outcome) : Balanced transport ctx req a := by
  obtain ⟨⟨w, outcome, w'⟩, acts⟩ := a
  cases hway with
  | rejected name => exact ⟨hacts, rfl, rfl, rfl, rfl, nofun⟩
  | undecided e => exact ⟨hacts, rfl, rfl, rfl, rfl, nofun⟩
  | denied wait => exact ⟨hacts, rfl, rfl, rfl, rfl, fun _ _ _ => denied_untouched hacts⟩
  | broken remaining e => exact ⟨hacts, rfl, rfl, rfl, rfl, nofun⟩
  | answered remaining reply => exact exchange_balanced ht hacts

/-! ## Calls have accounts -/

/-- Tries behind the retry have balanced accounts. -/
theorem exists_accounts (ht : transport.ForService) : ∀ tries : List (Retry.Try (World τ) Resp),
    (∀ t ∈ tries, ((line transport).guarded ctx req).runFrom t.start = (t.outcome, t.finish)) →
      ∃ attempts : List (Account τ Resp), attempts.map Account.toTry = tries ∧
        ∀ a ∈ attempts, Balanced transport ctx req a := by
  intro tries
  induction tries with
  | nil => exact fun _ => ⟨[], rfl, by simp⟩
  | cons t rest ih =>
    intro hrun
    obtain ⟨attempts, hmap, hall⟩ := ih fun u hu => hrun u (List.mem_cons_of_mem _ hu)
    obtain ⟨acts, hacts, hway⟩ :=
      (line transport).guarded_attempt envCell_lawful ctx req t.start
    rw [hrun t List.mem_cons_self] at hacts hway
    refine ⟨⟨t, acts⟩ :: attempts, by simp [hmap], ?_⟩
    intro a ha
    rcases List.mem_cons.1 ha with rfl | ha
    · exact balanced_of_attempt ht hacts hway
    · exact hall a ha

/-- What is retried is no rejection. -/
theorem not_rejected_of_retried {reply : Reply Resp} (h : Retry.retryErrors ctx req reply = true) :
    (∀ name, reply ≠ .error (.circuitOpen name)) ∧
      ∀ key wait, reply ≠ .error (.rateLimited key wait) := by
  constructor
  · rintro name rfl
    cases h
  · rintro key wait rfl
    cases h

/-- **A call has accounts.** -/
theorem call_accounted {c : Config} (hc : c.retry.validate = .ok ()) (ht : transport.ForService)
    (ctx : Context) (req : Req) (w : World τ) : ∃ attempts, Accounted c transport
      ⟨ctx, req, w, ((wrap c envCell pipelineCell transport ctx req).runFrom w).1,
        ((wrap c envCell pipelineCell transport ctx req).runFrom w).2⟩ attempts := by
  have hpos := (Retry.Config.validate_ok_iff c.retry).1 hc
  have htries := Retry.Config.tries_eq hc
  obtain ⟨before, last, hhappened, hlen, hretried, hends⟩ :=
    Retry.attemptFrom_tries c.retry Retry.retryErrors envCell_lawful (line transport).guarded ctx req
      (c.retry.tries - 1) 0 c.retry.baseDelay w
  obtain ⟨attempts, hmap, hbalanced⟩ := exists_accounts ht _ fun t ht => hhappened.run_of_mem ht
  have hlength : attempts.length = before.length + 1 := by
    rw [← List.length_map Account.toTry, hmap, List.length_append, List.length_singleton]
  -- the accounts are those of the tries, in their order, so the last one is that of the last try
  refine ⟨attempts, ?_, by omega, by omega, ?_, hbalanced, ?_⟩
  · rw [hmap]; exact hhappened
  · intro a ha
    have hlast : (attempts.map Account.toTry).getLast? = some a.toTry := by
      rw [List.getLast?_map, Option.mem_def.1 ha]; rfl
    rw [hmap, List.getLast?_concat, Option.some_inj] at hlast
    exact hlast ▸ hends
  · intro a ha
    have hmem : a.toTry ∈ before := by
      have : (attempts.map Account.toTry).dropLast = before := by rw [hmap, List.dropLast_concat]
      rw [← this, ← List.map_dropLast]
      exact List.mem_map_of_mem ha
    obtain ⟨reply, hreply, hretry⟩ := hretried _ hmem
    obtain ⟨hopen, hlimited⟩ := not_rejected_of_retried hretry
    rw [show a.outcome = .ok reply from hreply]
    exact ⟨fun name h => hopen name (Except.ok.inj h),
      fun key wait h => hlimited key wait (Except.ok.inj h)⟩

/-- Balanced attempts invoke the transport as often as the limiter admits them. -/
theorem countP_isSend {attempts : List (Account τ Resp)}
    (h : ∀ a ∈ attempts, a.acts.countP Act.isSend = a.acts.countP Act.isPermit) :
    (attempts.flatMap Account.acts).countP Act.isSend =
      (attempts.flatMap Account.acts).countP Act.isPermit := by
  rw [List.countP_flatMap, List.countP_flatMap]
  exact congrArg List.sum (List.map_congr_left h)

/-- **Every run of calls through a pipeline has accounts**: one for each call, and over the whole run the
transport is invoked as often as the limiter admits a call. The run starts from any world, that of a
new pipeline included. -/
theorem calls_accounted (c : Config) (hc : c.validate = .ok ())
    (transport : Handler (World τ) Req Resp) (ht : transport.ForService) (steps : List (Step τ Req))
    (w : World τ) : ∃ accounts : List (List (Account τ Resp)),
      List.Forall₂ (Accounted c transport) (calls c transport steps w) accounts ∧
        (accounts.flatten.flatMap Account.acts).countP Act.isSend =
          (accounts.flatten.flatMap Account.acts).countP Act.isPermit := by
  have hretry := ((Config.validate_ok_iff c).1 hc).2.2
  have haccounts : ∃ accounts : List (List (Account τ Resp)),
      List.Forall₂ (Accounted c transport) (calls c transport steps w) accounts ∧
        ∀ attempts ∈ accounts, ∀ a ∈ attempts,
          a.acts.countP Act.isSend = a.acts.countP Act.isPermit := by
    induction steps generalizing w with
    | nil => exact ⟨[], .nil, by simp⟩
    | cons step rest ih =>
      cases step with
      | meanwhile work =>
        -- what happens between calls has no account
        exact ih _
      | call ctx req =>
        obtain ⟨accounts, hrest, hall⟩ := ih _
        obtain ⟨attempts, hcall⟩ := call_accounted hretry ht ctx req w
        refine ⟨attempts :: accounts, .cons hcall hrest, ?_⟩
        intro as has
        rcases List.mem_cons.1 has with rfl | has
        · exact fun a ha => (hcall.balanced a ha).sent_permitted
        · exact hall as has
  obtain ⟨accounts, hcalls, hall⟩ := haccounts
  refine ⟨accounts, hcalls, countP_isSend ?_⟩
  intro a ha
  obtain ⟨attempts, has, ha⟩ := List.mem_flatten.1 ha
  exact hall attempts has a ha

/-- A service that is down. It counts the calls that reach it, each of which takes a second. -/
def unavailable : Handler (World Nat) String String := fun _ _ => do
  Env.advanceClock envCell (.ofSeconds 1)
  Run.update ⟨outside, fun w outside => { w with outside }⟩ (· + 1)
  return .error (.status (.new StatusCode.serviceUnavailable "DOWN" "down"))

theorem unavailable_forService : unavailable.ForService := by
  intro ctx req w e w' h
  simp only [unavailable, Run.runFrom_bind, Run.runFrom_update, Run.runFrom_pure] at h
  split at h
  · cases h
    exact .inl ⟨_, rfl⟩
  · cases h

/-- With the default settings, a call to a service that is down, a pause of a minute and another call. -/
theorem calls_accounted_unavailable : (default : Config).validate = .ok () ∧ unavailable.ForService ∧
    ∃ accounts : List (List (Account Nat String)),
      List.Forall₂ (Accounted default unavailable)
        (calls default unavailable
          [.call .background "a", .meanwhile (Env.advanceClock envCell (.ofSeconds 60)),
            .call .background "b"]
          ⟨.start, ⟨.new (.ofKind default 7), .new default, Limiter.Config.build default .origin⟩, 0⟩) accounts ∧
        (accounts.flatten.flatMap Account.acts).countP Act.isSend =
          (accounts.flatten.flatMap Account.acts).countP Act.isPermit := by
  have hc : (default : Config).validate = .ok () := by decide +kernel
  exact ⟨hc, unavailable_forService, calls_accounted default hc unavailable unavailable_forService _ _⟩

end World

end Pipeline

end CallGuard
