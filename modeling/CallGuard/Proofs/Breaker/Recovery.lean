import CallGuard.Proofs.Breaker.Coherence
import CallGuard.Proofs.Breaker.Transitions

/-!
# A service that has recovered

No state is a trap. Whatever has been done to a breaker, and whatever has become of the calls
through it, once the timeout is over some successful calls in a row close it. What they have
to make up for is a number that can be read off the breaker, and each of them takes one away.

* `Breaker.lack`: the successes that a breaker needs; `lack_success` takes one away.
* `WatchedBreaker.Leads`: everything that can happen while only its operations touch the breaker.
* `WatchedBreaker.Mending.calls`: successful calls in a row.
* `WatchedBreaker.recovers`: **a service that has recovered closes its breaker.**
-/

namespace CallGuard

namespace Breaker

/-- **The successes that a breaker needs** until it is closed and remembers no failure in a row. -/
def lack (b : Breaker) : Nat :=
  match b.circuit with
  | .closed => if b.failures = 0 then 0 else 1
  | .opened => b.config.maxRequests.toNat
  | .halfOpen => b.config.maxRequests.toNat - b.successes

/-- A breaker that is not open, or has been open for long enough. -/
def Ready (b : Breaker) (now : Instant) : Prop :=
  b.circuit = .opened → b.config.timeout ≤ b.sinceFailure now

variable {b : Breaker} {now : Instant}

theorem lack_le (hv : b.config.validate = .ok ()) : b.lack ≤ b.config.maxRequests.toNat := by
  obtain ⟨-, hclose⟩ := (Config.validate_ok_iff b.config).1 hv
  unfold lack
  cases b.circuit with
  | closed => dsimp only; split <;> omega
  | opened => exact Nat.le_refl _
  | halfOpen => exact Nat.sub_le _ _

/-- **A breaker that needs no success** is closed, with both counters zero. -/
theorem mended_of_lack (h : Coherent b) (hv : b.config.validate = .ok ()) (hzero : b.lack = 0) :
    b.circuit = .closed ∧ b.failures = 0 ∧ b.successes = 0 := by
  obtain ⟨-, hclose⟩ := (Config.validate_ok_iff b.config).1 hv
  unfold lack at hzero
  cases hcirc : b.circuit with
  | closed =>
    obtain ⟨-, hnone⟩ := h.closed hcirc
    rw [hcirc] at hzero
    dsimp only at hzero
    split at hzero
    · rename_i hfailures
      exact ⟨rfl, hfailures, hnone⟩
    · cases hzero
  | opened =>
    rw [hcirc] at hzero
    exact absurd hzero (Nat.ne_of_gt hclose)
  | halfOpen =>
    obtain ⟨-, -, htrials⟩ := h.halfOpen hcirc
    rw [hcirc] at hzero
    dsimp only at hzero
    omega

/-- A success of a half-open breaker is one less to go. -/
theorem lack_trial (hcirc : b.circuit = .halfOpen) :
    (b.perform now .success).breaker.circuit ≠ .opened ∧
      (b.perform now .success).breaker.lack = b.lack - 1 := by
  have hlack : b.lack = b.config.maxRequests.toNat - b.successes := by rw [lack, hcirc]
  rw [hlack]
  rcases Nat.lt_or_ge (b.successes + 1) b.config.maxRequests.toNat with hmore | henough
  · rw [success_trial hcirc hmore]
    refine ⟨by simp [hcirc], ?_⟩
    simp only [lack, hcirc]
    omega
  · rw [success_last hcirc henough]
    refine ⟨by simp, ?_⟩
    simp only [lack, if_true]
    omega

/-- **A success after a question** that is asked in time: the answer is yes, and one success less is needed. -/
theorem lack_success (h : Coherent b) (hready : b.Ready now) (later : Instant) :
    (b.allow now).answer = true ∧
      ((b.allow now).breaker.perform later .success).breaker.circuit ≠ .opened ∧
      ((b.allow now).breaker.perform later .success).breaker.lack = b.lack - 1 := by
  have hperform : (b.allow now).answer = true ↔ (b.perform now .allow).answer = some true := by
    simp [perform, Outcome.answering]
  rw [hperform]
  show _ ∧ ((b.perform now .allow).breaker.perform later .success).breaker.circuit ≠ _ ∧
    ((b.perform now .allow).breaker.perform later .success).breaker.lack = _
  cases hcirc : b.circuit with
  | closed =>
    rw [allow_closed hcirc, success_closed hcirc]
    refine ⟨rfl, by simp [hcirc], ?_⟩
    simp only [lack, hcirc, if_true]
    split <;> rfl
  | halfOpen =>
    obtain ⟨-, -, htrials⟩ := h.halfOpen hcirc
    rw [allow_halfOpen hcirc, decide_eq_true htrials]
    exact ⟨rfl, lack_trial hcirc⟩
  | opened =>
    -- the question makes it half-open with all trials still to come
    rw [allow_due hcirc (hready hcirc)]
    have htrial : ({ b with circuit := .halfOpen, successes := 0 } : Breaker).circuit = .halfOpen := rfl
    obtain ⟨hcirc', hlack⟩ := @lack_trial _ later htrial
    refine ⟨rfl, hcirc', hlack.trans ?_⟩
    simp only [lack, hcirc, Nat.sub_zero]

theorem Ready.mono {later : Instant} (h : b.Ready now) (hle : now ≤ later) : b.Ready later := by
  intro hcirc
  have hlong := h hcirc
  rw [Span.le_iff, sinceFailure] at hlong ⊢
  cases hlast : b.lastFailure with
  | none =>
    rw [hlast] at hlong
    exact hlong
  | some t =>
    rw [hlast] at hlong
    rw [Instant.since_nanos] at hlong ⊢
    rw [Instant.le_iff] at hle
    omega

/-- The timeout is over if it is over for the last failure, when there was one. -/
theorem ready_of_due (h : ∀ t, b.lastFailure = some t → t.nanos + b.config.timeout.nanos ≤ now.nanos) :
    b.Ready now := by
  intro _
  cases hlast : b.lastFailure with
  | none =>
    rw [sinceFailure, hlast]
    exact b.config.timeout.nanos_le
  | some t =>
    have hdue := h t hlast
    have hle : t ≤ now := by
      rw [Instant.le_iff]
      omega
    exact (timeout_le_iff hlast hle).2 hdue

end Breaker

namespace WatchedBreaker

open Breaker (Operation Coherent)

variable {σ Req Resp : Type}

/-! ## Whatever has happened -/

/-- **What can happen** while only its operations touch the breaker: operations in any order and number, and
anything beside. -/
inductive Leads (env : Cell σ Env) (cell : Cell σ WatchedBreaker) (s : σ) : σ → Prop where
  | refl : Leads env cell s s
  | operate {s' : σ} (h : Leads env cell s s') (op : Operation) :
    Leads env cell s (acted env cell s' (.operate op))
  | beside {s' s'' : σ} (h : Leads env cell s s') (hsame : cell.get s'' = cell.get s') : Leads env cell s s''

/-- **Orderly work** touches the breaker by its operations only. -/
def Orderly (env : Cell σ Env) (cell : Cell σ WatchedBreaker) (work : σ → σ) : Prop :=
  ∀ s, Leads env cell s (work s)

/-- The state when all steps are over. -/
def ran (env : Cell σ Env) (cell : Cell σ WatchedBreaker) : List (Step σ Req Resp) → σ → σ
  | [], s => s
  | .meanwhile work :: rest, s => ran env cell rest (work.runFrom s).2
  | .call next ctx req :: rest, s => ran env cell rest (call env cell next ctx req s).finish

section Past

variable {env : Cell σ Env} {cell : Cell σ WatchedBreaker} {config : Breaker.Config}
  {next : Handler σ Req Resp} {ctx : Context} {req : Req} {s s' s'' : σ}

theorem Leads.trans (h : Leads env cell s s') (h' : Leads env cell s' s'') : Leads env cell s s'' := by
  induction h' with
  | refl => exact h
  | operate _ op ih => exact ih.operate op
  | beside _ hsame ih => exact ih.beside hsame

theorem orderly_operate (op : Operation) :
    Orderly env cell fun s => ((operate env cell op).runFrom s).2 := by
  intro s
  exact Leads.refl.operate op

theorem Aside.orderly {work : σ → σ} (h : Aside env cell work) : Orderly env cell work := by
  intro s
  exact Leads.refl.beside (h.breaker s)

theorem leads_recorded (h : Leads env cell s s') (reply : Reply Resp) :
    Leads env cell s (recorded env cell reply s') := by
  unfold recorded
  cases reply with
  | ok a =>
    have hop := h.operate .success
    rwa [acted_operate] at hop
  | error e =>
    dsimp only
    split
    · exact h
    · have hop := h.operate .failure
      rwa [acted_operate] at hop

/-- **A call is a question**, whatever its handler does, and a record of the reply, if there is one. -/
theorem leads_call (hapart : env.Disjoint cell)
    (hnext : Orderly env cell fun s => (next.visit ctx req s).finish) (s : σ) :
    Leads env cell s (call env cell next ctx req s).finish := by
  have hasked : Leads env cell s (asked env cell s) := by
    have hstart : Leads env cell s s := .refl
    have hop := hstart.operate .allow
    rwa [acted_operate] at hop
  by_cases h : (answer env cell s).answer = true
  · rw [call_admitted next ctx req h]
    have hvisit : Leads env cell s (next.visit ctx req (asked env cell s)).finish := hasked.trans (hnext _)
    dsimp only
    unfold settled
    cases (next.visit ctx req (asked env cell s)).outcome with
    | ok reply => exact leads_recorded hvisit reply
    | error e => exact hvisit
  · rw [call_rejected next ctx req h]
    exact hasked.beside (get_noted hapart _ _)

theorem leads_ran (hapart : env.Disjoint cell) {steps : List (Step σ Req Resp)}
    (hsteps : ∀ step ∈ steps, Orderly env cell step.outside) (s : σ) :
    Leads env cell s (ran env cell steps s) := by
  induction steps generalizing s with
  | nil => exact .refl
  | cons step rest ih =>
    have hstep := hsteps step List.mem_cons_self
    have hrest := ih fun step' hmem => hsteps step' (List.mem_cons_of_mem step hmem)
    cases step with
    | meanwhile work => exact (hstep s).trans (hrest _)
    | call next ctx req => exact (leads_call hapart hstep s).trans (hrest _)

/-- **The fields stay coherent**, and the settings what they are. -/
theorem Leads.coherent (hcell : cell.Lawful) (hapart : env.Disjoint cell) (hv : config.validate = .ok ())
    (h : Leads env cell s s') (hconfig : (cell.get s).breaker.config = config)
    (hs : Coherent (cell.get s).breaker) :
    (cell.get s').breaker.config = config ∧ Coherent (cell.get s').breaker := by
  induction h with
  | refl => exact ⟨hconfig, hs⟩
  | beside _ hsame ih => rwa [hsame]
  | operate _ op ih =>
    obtain ⟨hconfig', hcoherent⟩ := ih
    rw [acted_operate, get_carried hcell hapart]
    refine ⟨?_, hcoherent.perform (by rwa [hconfig']) _ op⟩
    rw [Breaker.config_perform, hconfig']

end Past

/-! ## Successful calls in a row -/

/-- **A breaker that so many successes will close**, the first of them now. -/
structure Mending (env : Cell σ Env) (cell : Cell σ WatchedBreaker) (config : Breaker.Config) (n : Nat)
    (s : σ) : Prop where
  settings : (cell.get s).breaker.config = config
  coherent : Coherent (cell.get s).breaker
  ready : (cell.get s).breaker.Ready (time env s)
  lack_le : (cell.get s).breaker.lack ≤ n

/-- **A call that reaches its handler**: the handler is invoked once, and what it comes back with is what the
call comes back with. -/
def Call.Reaches (c : Call σ Req Resp) : Prop := ∃ v, c.visits = [v] ∧ c.result = v.outcome

/-- A call to a handler that comes back with a reply, as often as it is invoked. -/
def Call.Succeeds (c : Call σ Req Resp) : Prop := ∀ v ∈ c.visits, ∃ a, v.outcome = .ok (.ok a)

section Trials

variable {env : Cell σ Env} {cell : Cell σ WatchedBreaker} {config : Breaker.Config} {n : Nat}
  {next : Handler σ Req Resp} {ctx : Context} {req : Req} {s : σ} {work : σ → σ}
  {steps past : List (Step σ Req Resp)}

theorem Mending.aside (h : Mending env cell config n s) (hwork : Aside env cell work) :
    Mending env cell config n (work s) := by
  obtain ⟨hconfig, hcoherent, hready, hlack⟩ := h
  rw [← hwork.breaker s] at hconfig hcoherent hready hlack
  exact ⟨hconfig, hcoherent, hready.mono (hwork.clock s), hlack⟩

variable (henv : env.Lawful) (hcell : cell.Lawful) (hapart : env.Disjoint cell)
include henv hcell hapart

/-- **A successful call** reaches its handler, and then one success less is needed. -/
theorem Mending.call (h : Mending env cell config n s) (hv : config.validate = .ok ())
    (hnext : Aside env cell fun s => (next.visit ctx req s).finish)
    (hok : (WatchedBreaker.call env cell next ctx req s).Succeeds) :
    (WatchedBreaker.call env cell next ctx req s).Reaches ∧
      Mending env cell config (n - 1) (WatchedBreaker.call env cell next ctx req s).finish := by
  obtain ⟨hconfig, hcoherent, hready, hlack⟩ := h
  obtain ⟨hyes, hshut, hless⟩ := Breaker.lack_success hcoherent hready
    (time env (next.visit ctx req (asked env cell s)).finish)
  have hcall := call_admitted next ctx req (show (answer env cell s).answer = true from hyes)
  have hkept : Coherent (cell.get (WatchedBreaker.call env cell next ctx req s).finish).breaker :=
    (Leads.coherent hcell hapart hv (leads_call hapart hnext.orderly s) hconfig hcoherent).2
  have hsettings := (call_keeps henv hcell hapart hnext s).1.trans hconfig
  obtain ⟨a, ha⟩ := hok (next.visit ctx req (asked env cell s)) (by rw [hcall]; exact List.mem_singleton_self _)
  -- the breaker is asked, left alone by the handler, and told of the success
  have hbreaker : (cell.get (WatchedBreaker.call env cell next ctx req s).finish).breaker =
      (((cell.get s).breaker.allow (time env s)).breaker.perform
        (time env (next.visit ctx req (asked env cell s)).finish) .success).breaker := by
    have hbeside := hnext.breaker (asked env cell s)
    rw [hcall]
    simp only [settled, ha, recorded]
    rw [get_carried hcell hapart, hbeside, asked, get_carried hcell hapart]
    rfl
  refine ⟨⟨_, by rw [hcall], by rw [hcall]⟩, hsettings, hkept, ?_, ?_⟩
  · intro hopened
    rw [hbreaker] at hopened
    exact absurd hopened hshut
  · rw [hbreaker, hless]
    exact Nat.sub_le_sub_right hlack 1

/-- **Successful calls in a row** reach their handlers, and each of them is one success less to go. -/
theorem Mending.calls (h : Mending env cell config n s) (hv : config.validate = .ok ())
    (haside : ∀ step ∈ steps, Aside env cell step.outside)
    (hok : ∀ c ∈ calls env cell steps s, c.Succeeds) :
    (∀ c ∈ calls env cell steps s, c.Reaches) ∧
      Mending env cell config (n - (WatchedBreaker.calls env cell steps s).length)
        (ran env cell steps s) := by
  induction steps generalizing n s with
  | nil => exact ⟨by simp [WatchedBreaker.calls], h⟩
  | cons step rest ih =>
    have hstep := haside step List.mem_cons_self
    have hrest := fun step' hmem => haside step' (List.mem_cons_of_mem step hmem)
    cases step with
    | meanwhile work => exact ih (h.aside hstep) hrest hok
    | call next ctx req =>
      obtain ⟨hreaches, hmending⟩ := h.call henv hcell hapart hv hstep (hok _ List.mem_cons_self)
      obtain ⟨hall, hlater⟩ := ih hmending hrest fun c hc => hok c (List.mem_cons_of_mem _ hc)
      refine ⟨List.forall_mem_cons.2 ⟨hreaches, hall⟩, ?_⟩
      rw [WatchedBreaker.calls, List.length_cons, Nat.add_comm, ← Nat.sub_sub]
      exact hlater

/-- **A service that has recovered closes its breaker.** Whatever has happened to a new breaker, if the
timeout has passed since its last failure, then as many successful calls in a row as its settings ask for all
reach their handlers, and leave it closed, with both counters zero. -/
theorem recovers (hv : config.validate = .ok ()) (hnew : cell.get s = .new config)
    (hpast : ∀ step ∈ past, Orderly env cell step.outside)
    (hdue : ∀ t, (cell.get (ran env cell past s)).breaker.lastFailure = some t →
      t.nanos + config.timeout.nanos ≤ (time env (ran env cell past s)).nanos)
    (haside : ∀ step ∈ steps, Aside env cell step.outside)
    (hok : ∀ c ∈ calls env cell steps (ran env cell past s), c.Succeeds)
    (hcount : config.maxRequests.toNat ≤ (calls env cell steps (ran env cell past s)).length) :
    (∀ c ∈ calls env cell steps (ran env cell past s), c.Reaches) ∧
      (cell.get (ran env cell steps (ran env cell past s))).breaker.circuit = .closed ∧
      (cell.get (ran env cell steps (ran env cell past s))).breaker.failures = 0 ∧
      (cell.get (ran env cell steps (ran env cell past s))).breaker.successes = 0 := by
  have hstart : (cell.get s).breaker = .new config := congrArg WatchedBreaker.breaker hnew
  obtain ⟨hconfig, hcoherent⟩ := Leads.coherent hcell hapart hv (leads_ran hapart hpast s)
    (by rw [hstart]; rfl) (by rw [hstart]; exact Breaker.coherent_new hv)
  have hmending : Mending env cell config config.maxRequests.toNat (ran env cell past s) := by
    refine ⟨hconfig, hcoherent, ?_, ?_⟩
    · apply Breaker.ready_of_due
      rwa [hconfig]
    · rw [← hconfig] at hv ⊢
      exact Breaker.lack_le hv
  obtain ⟨hreach, hdone⟩ := hmending.calls henv hcell hapart hv haside hok
  rw [Nat.sub_eq_zero_of_le hcount] at hdone
  refine ⟨hreach, Breaker.mended_of_lack hdone.coherent ?_ (Nat.le_zero.1 hdone.lack_le)⟩
  rwa [hdone.settings]

end Trials

/-- A failure that is reported from elsewhere opens the breaker, and a first trial after the timeout succeeds. -/
def mishap : List (Step (Env × WatchedBreaker) String String) :=
  [.meanwhile (operate (Cell.first _ _) (Cell.second _ _) .failure),
    .meanwhile (Env.advanceClock (Cell.first _ _) (.ofSeconds 10)),
    .call (slow (Cell.first _ _) (.ofSeconds 1) (.ok "up")) .background "a"]

/-- Two more calls to the service, which is up again. -/
def upAgain : List (Step (Env × WatchedBreaker) String String) :=
  List.replicate 2 (.call (slow (Cell.first _ _) (.ofSeconds 1) (.ok "up")) .background "b")

/-- In the middle of its trials, two more successes are enough for a breaker that needs two in all. -/
theorem recovers_mishap :
    let s := ran (Cell.first Env WatchedBreaker) (Cell.second _ _) mishap (.start, .new ⟨"db", 1, .ofSeconds 10, 2⟩)
    let s' := ran (Cell.first Env WatchedBreaker) (Cell.second _ _) upAgain s
    s.2.breaker.circuit = .halfOpen ∧ s.2.breaker.successes = 1 ∧
      (∀ c ∈ calls (Cell.first _ _) (Cell.second _ _) upAgain s, c.Reaches) ∧
      s'.2.breaker.circuit = .closed ∧ s'.2.breaker.failures = 0 ∧ s'.2.breaker.successes = 0 := by
  have henv := Cell.first_lawful Env WatchedBreaker
  have hcell := Cell.second_lawful Env WatchedBreaker
  have hapart := Cell.first_disjoint_second Env WatchedBreaker
  have hpast : ∀ step ∈ mishap, Orderly (Cell.first _ _) (Cell.second _ _) step.outside := by
    intro step hstep
    simp only [mishap, List.mem_cons, List.not_mem_nil, or_false] at hstep
    rcases hstep with rfl | rfl | rfl
    · exact orderly_operate _
    · exact (aside_advance henv hapart _).orderly
    · exact (aside_slow henv hapart _ _ _ _).orderly
  have haside : ∀ step ∈ upAgain, Aside (Cell.first _ _) (Cell.second _ _) step.outside := by
    intro step hstep
    rw [List.eq_of_mem_replicate hstep]
    exact aside_slow henv hapart _ _ _ _
  refine ⟨rfl, rfl, recovers henv hcell hapart rfl rfl hpast ?_ haside ?_ (by decide)⟩
  · intro t ht
    obtain rfl : Instant.origin = t := Option.some.inj ht
    decide
  · obtain ⟨c, d, hcalls, ⟨v, a, hv, ha⟩, w, b, hw, hb⟩ :
        ∃ c d : Call (Env × WatchedBreaker) String String,
          calls (Cell.first _ _) (Cell.second _ _) upAgain
            (ran (Cell.first _ _) (Cell.second _ _) mishap (.start, .new ⟨"db", 1, .ofSeconds 10, 2⟩)) = [c, d] ∧
          (∃ v a, c.visits = [v] ∧ v.outcome = .ok (.ok a)) ∧ ∃ v a, d.visits = [v] ∧ v.outcome = .ok (.ok a) :=
      ⟨_, _, rfl, ⟨_, _, rfl, rfl⟩, _, _, rfl, rfl⟩
    rw [hcalls]
    refine List.forall_mem_cons.2 ⟨?_, List.forall_mem_singleton.2 ?_⟩
    · rw [Call.Succeeds, hv]
      exact List.forall_mem_singleton.2 ⟨a, ha⟩
    · rw [Call.Succeeds, hw]
      exact List.forall_mem_singleton.2 ⟨b, hb⟩

end WatchedBreaker

end CallGuard
