import CallGuard.Proofs.Breaker.Shield
import Mathlib.Data.List.Induction

/-!
# What a breaker tells about its state

Every change of state is reported to the log and told to the observer. Neither of them sees
the breaker, but together the transitions are a path through its states that ends where the
breaker is, so that nobody who listens from the beginning has to ask.

* `Breaker.Arc`: the six changes of state, by the operations that make them.
* `Breaker.perform_moves`: an operation stays in the state or takes one arc from it.
* `WatchedBreaker.acted`: the state of everything when operations have been carried out.
* `WatchedBreaker.tells_path`: **what a breaker tells is a path to its state**, one arc an operation.
-/

namespace CallGuard

/-- **A path** between two states: every transition starts where the one before it ended. -/
def Transition.Path (source : Circuit) : List Transition → Circuit → Prop
  | [], target => source = target
  | t :: rest, target => t.source = source ∧ Path t.target rest target

theorem Transition.Path.snoc {source target : Circuit} {ts : List Transition} {t : Transition}
    (h : Path source ts target) (ht : t.source = target) : Path source (ts ++ [t]) t.target := by
  induction ts generalizing source with
  | nil => exact ⟨ht.trans h.symm, rfl⟩
  | cons first rest ih =>
    obtain ⟨hfirst, hrest⟩ := h
    exact ⟨hfirst, ih hrest⟩

namespace Breaker

/-- **The arcs between the states**, each with an operation that takes it. Only a reset leads from open to
closed. -/
inductive Arc : Operation → Transition → Prop where
  | trip : Arc .failure ⟨.closed, .opened⟩
  | probe : Arc .allow ⟨.opened, .halfOpen⟩
  | relapse : Arc .failure ⟨.halfOpen, .opened⟩
  | recover : Arc .success ⟨.halfOpen, .closed⟩
  | resetTrial : Arc .reset ⟨.halfOpen, .closed⟩
  | resetOpen : Arc .reset ⟨.opened, .closed⟩

theorem Arc.source_ne_target {op : Operation} {t : Transition} (h : Arc op t) : t.source ≠ t.target := by
  cases h <;> decide

/-- **An operation stays in the state or takes an arc from it**, whatever the settings are. -/
theorem perform_moves (b : Breaker) (now : Instant) (op : Operation) :
    ((b.perform now op).transition = none ∧ (b.perform now op).breaker.circuit = b.circuit) ∨
      ∃ t, (b.perform now op).transition = some t ∧ Arc op t ∧ t.source = b.circuit ∧
        t.target = (b.perform now op).breaker.circuit := by
  cases op with
  | allow =>
    cases hcirc : b.circuit with
    | closed =>
      rw [allow_closed hcirc]
      exact .inl ⟨rfl, hcirc⟩
    | halfOpen =>
      rw [allow_halfOpen hcirc]
      exact .inl ⟨rfl, hcirc⟩
    | opened =>
      by_cases htime : b.config.timeout ≤ b.sinceFailure now
      · rw [allow_due hcirc htime]
        exact .inr ⟨_, rfl, .probe, rfl, rfl⟩
      · rw [allow_early hcirc htime]
        exact .inl ⟨rfl, hcirc⟩
  | success =>
    cases hcirc : b.circuit with
    | closed =>
      rw [success_closed hcirc]
      exact .inl ⟨rfl, hcirc⟩
    | opened =>
      rw [success_opened hcirc]
      exact .inl ⟨rfl, hcirc⟩
    | halfOpen =>
      rcases Nat.lt_or_ge (b.successes + 1) b.config.maxRequests.toNat with hmore | henough
      · rw [success_trial hcirc hmore]
        exact .inl ⟨rfl, hcirc⟩
      · rw [success_last hcirc henough]
        exact .inr ⟨_, rfl, .recover, rfl, rfl⟩
  | failure =>
    cases hcirc : b.circuit with
    | closed =>
      -- a threshold of zero, which settings may have, opens at the first failure like one of one
      by_cases hfull : b.config.threshold.toNat ≤ min (b.failures + 1) maxCount
      · simp [perform, failure, countFailure, Outcome.answering, moveTo, hcirc, hfull, Arc.trip]
      · simp [perform, failure, countFailure, Outcome.answering, stay, hcirc, hfull]
    | opened =>
      rw [failure_opened hcirc]
      exact .inl ⟨rfl, hcirc⟩
    | halfOpen =>
      rw [failure_halfOpen hcirc]
      exact .inr ⟨_, rfl, .relapse, rfl, rfl⟩
  | reset =>
    cases hcirc : b.circuit with
    | closed => simp [perform, reset, Outcome.answering, moveTo, hcirc]
    | opened => simp [perform, reset, Outcome.answering, moveTo, hcirc, Arc.resetOpen]
    | halfOpen => simp [perform, reset, Outcome.answering, moveTo, hcirc, Arc.resetTrial]

end Breaker

namespace WatchedBreaker

open Breaker (Operation Action Arc)

variable {σ : Type}

section Acts

variable (env : Cell σ Env) (cell : Cell σ WatchedBreaker)

/-- An operation on the breaker. -/
def operate : Operation → Run σ Unit
  | .allow => do let _ ← carryOut env cell Breaker.allow
  | .success => carryOut env cell fun b _ => b.success
  | .failure => carryOut env cell Breaker.failure
  | .reset => carryOut env cell fun b _ => b.reset

/-- The state when an action is over. -/
def acted (s : σ) : Action → σ
  | .operate op => ((operate env cell op).runFrom s).2
  | .advance span => ((Env.advanceClock env span).runFrom s).2

/-- The state when all actions are over. -/
def played (s : σ) (actions : List Action) : σ := actions.foldl (acted env cell) s

theorem acted_operate (op : Operation) (s : σ) :
    acted env cell s (.operate op) =
      carried env cell ((cell.get s).breaker.perform (time env s) op) s := by
  cases op with
  | allow =>
    have hask : (carryOut env cell Breaker.allow).runFrom s =
        (.ok (answer env cell s).answer, asked env cell s) := runFrom_carryOut env cell Breaker.allow s
    rw [acted, operate, Run.runFrom_bind, hask]
    rfl
  | success => exact congrArg Prod.snd (runFrom_carryOut env cell (fun b _ => b.success) s)
  | failure => exact congrArg Prod.snd (runFrom_carryOut env cell Breaker.failure s)
  | reset => exact congrArg Prod.snd (runFrom_carryOut env cell (fun b _ => b.reset) s)

end Acts

variable {env : Cell σ Env} {cell : Cell σ WatchedBreaker} {config : Breaker.Config}
  {actions : List Action} {s s' : σ}

theorem log_carried {α : Type} (henv : env.Lawful) (hapart : env.Disjoint cell) (o : Breaker.Outcome α)
    (s : σ) : (env.get (carried env cell o s)).log =
      (env.get s).log ++ o.transition.toArray.map (.breakerMoved (cell.get s).breaker.config.name) := by
  unfold carried
  cases o.transition with
  | none => simp [hapart.get_set]
  | some t => simp [Env.noted, henv.get_set, hapart.get_set]

/-- **What a breaker has told** from one state of a run to another, with its settings as they were. The observer was
told a path that starts at closed and ends where the breaker is. Every transition is a change of state, and an arc
of an operation that was carried out. The same transitions were reported to the log, in the name of the breaker and
in the same order. -/
structure Told (env : Cell σ Env) (cell : Cell σ WatchedBreaker) (config : Breaker.Config)
    (actions : List Action) (s s' : σ) : Prop where
  settings : (cell.get s').breaker.config = config
  path : Transition.Path .closed (cell.get s').observed.toList (cell.get s').breaker.circuit
  arcs : ∀ t ∈ (cell.get s').observed, t.source ≠ t.target ∧ ∃ op, .operate op ∈ actions ∧ Arc op t
  logged : (env.get s').log =
    (env.get s).log ++ (cell.get s').observed.map (.breakerMoved config.name)

/-- **What a breaker tells**: what it has told, and of the next operation one arc of its own, or nothing. -/
structure Tells (env : Cell σ Env) (cell : Cell σ WatchedBreaker) (config : Breaker.Config)
    (actions : List Action) (s s' : σ) : Prop extends Told env cell config actions s s' where
  once : ∀ op, ∃ t : Option Transition, (∀ arc ∈ t, Arc op arc) ∧
    (cell.get (acted env cell s' (.operate op))).observed = (cell.get s').observed ++ t.toArray ∧
    (env.get (acted env cell s' (.operate op))).log =
      (env.get s').log ++ t.toArray.map (.breakerMoved config.name)

section Runs

variable (henv : env.Lawful) (hcell : cell.Lawful) (hapart : env.Disjoint cell)
include henv hapart

theorem Told.advance (h : Told env cell config actions s s') (span : Span) :
    Told env cell config (actions ++ [.advance span]) s (acted env cell s' (.advance span)) := by
  have hbreaker : cell.get (acted env cell s' (.advance span)) = cell.get s' :=
    (aside_advance henv hapart span).breaker s'
  have hlog : (env.get (acted env cell s' (.advance span))).log = (env.get s').log := by
    rw [acted]
    rcases advanced_cases env span s' with hsame | ⟨clock, -, hset⟩
    · rw [hsame]
    · rw [hset, henv.get_set]
  refine ⟨?_, ?_, ?_, ?_⟩
  · rw [hbreaker]; exact h.settings
  · rw [hbreaker]; exact h.path
  · rw [hbreaker]
    intro t ht
    obtain ⟨hne, op, hop, harc⟩ := h.arcs t ht
    exact ⟨hne, op, List.mem_append_left _ hop, harc⟩
  · rw [hbreaker, hlog]; exact h.logged

include hcell

theorem Told.operate (h : Told env cell config actions s s') (op : Operation) :
    Told env cell config (actions ++ [.operate op]) s (acted env cell s' (.operate op)) := by
  have hconfig : ((cell.get s').breaker.perform (time env s') op).breaker.config = config := by
    rw [Breaker.config_perform, h.settings]
  have harcs : ∀ t ∈ (cell.get s').observed,
      t.source ≠ t.target ∧ ∃ op', Action.operate op' ∈ actions ++ [.operate op] ∧ Arc op' t := by
    intro t ht
    obtain ⟨hne, op', hop, harc⟩ := h.arcs t ht
    exact ⟨hne, op', List.mem_append_left _ hop, harc⟩
  have hlog := log_carried henv hapart ((cell.get s').breaker.perform (time env s') op) s'
  rw [acted_operate]
  rw [h.logged, h.settings] at hlog
  rcases Breaker.perform_moves (cell.get s').breaker (time env s') op with
    ⟨hnone, hcirc⟩ | ⟨t, hsome, harc, hsource, htarget⟩
  · rw [hnone] at hlog
    refine ⟨?_, ?_, ?_, ?_⟩ <;> rw [get_carried hcell hapart, hnone]
    · exact hconfig
    · simpa [hcirc] using h.path
    · simpa using harcs
    · simpa using hlog
  · rw [hsome] at hlog
    refine ⟨?_, ?_, ?_, ?_⟩ <;> rw [get_carried hcell hapart, hsome]
    · exact hconfig
    · simpa [← htarget] using h.path.snoc hsource
    · intro t' ht'
      simp only [Option.toArray_some, Array.mem_append, List.mem_toArray, List.mem_singleton] at ht'
      rcases ht' with hbefore | rfl
      · exact harcs t' hbefore
      · exact ⟨harc.source_ne_target, op, by simp, harc⟩
    · simpa using hlog

/-- **Whatever is done**, what has been told stays a path. -/
theorem told_played (hnew : cell.get s = .new config) (actions : List Action) :
    Told env cell config actions s (played env cell s actions) := by
  induction actions using List.reverseRecOn with
  | nil =>
    rw [played, List.foldl_nil]
    exact ⟨by rw [hnew]; rfl, by rw [hnew]; rfl, by simp [hnew, new], by simp [hnew, new]⟩
  | append_singleton before a ih =>
    rw [played, List.foldl_append, ← played]
    cases a with
    | operate op => exact ih.operate henv hcell hapart op
    | advance span => exact ih.advance henv hapart span

/-- **The next operation tells one arc**, or nothing. -/
theorem Told.once (h : Told env cell config actions s s') (op : Operation) :
    ∃ t : Option Transition, (∀ arc ∈ t, Arc op arc) ∧
      (cell.get (acted env cell s' (.operate op))).observed = (cell.get s').observed ++ t.toArray ∧
      (env.get (acted env cell s' (.operate op))).log =
        (env.get s').log ++ t.toArray.map (.breakerMoved config.name) := by
  rw [acted_operate, get_carried hcell hapart, log_carried henv hapart, h.settings]
  refine ⟨_, fun arc harc => ?_, rfl, rfl⟩
  rcases Breaker.perform_moves (cell.get s').breaker (time env s') op with ⟨hnone, -⟩ | ⟨t, hsome, ht, -⟩
  · rw [hnone] at harc
    cases harc
  · rw [hsome] at harc
    exact Option.some.inj harc ▸ ht

/-- **What a breaker tells is a path to its state.** -/
theorem tells_path (hnew : cell.get s = .new config) (actions : List Action) :
    Tells env cell config actions s (played env cell s actions) := by
  have h := told_played henv hcell hapart hnew actions
  exact ⟨h, h.once henv hcell hapart⟩

end Runs

/-- A breaker that opens at once and is reset in the middle of its trials, and again while it is open. -/
def interrupted : List Action :=
  [.operate .failure, .operate .success, .advance (.ofSeconds 10), .operate .allow, .operate .reset,
    .operate .reset, .operate .failure, .operate .reset]

theorem tells_path_interrupted :
    let cell := Cell.second Env WatchedBreaker
    let s' := played (Cell.first _ _) cell (Env.start, new ⟨"db", 1, .ofSeconds 10, 2⟩) interrupted
    Tells (Cell.first _ _) cell ⟨"db", 1, .ofSeconds 10, 2⟩ interrupted (Env.start, new ⟨"db", 1, .ofSeconds 10, 2⟩) s' ∧
      (cell.get s').observed.toList =
        [⟨.closed, .opened⟩, ⟨.opened, .halfOpen⟩, ⟨.halfOpen, .closed⟩, ⟨.closed, .opened⟩, ⟨.opened, .closed⟩] :=
  ⟨tells_path (Cell.first_lawful _ _) (Cell.second_lawful _ _) (Cell.first_disjoint_second _ _) rfl _, by decide⟩

end WatchedBreaker

end CallGuard
