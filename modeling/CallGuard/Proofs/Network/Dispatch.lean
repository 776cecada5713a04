import CallGuard.Simulation.Caller
import CallGuard.Simulation.Transport

/-!
# Dispatches in any order

The faults of a network are in a table, and nothing fixes the order in which a dispatch visits
them. A run of a network takes any order for each of its dispatches. What a visit leaves of a
fault, and whether it draws a number, depends on that fault alone. The delay of a call and its
failure are those of the visits that come last.

* `assess_kept`, `assess_generator`: what is left after all visits.
* `assess_delay`, `assess_failure`: the last delay and the last failure count.
* `Transport.perform`, `Transport.Plays`: one action on a network, and runs of them.
* `Transport.act`, `Transport.Acts`: a program acts on its network through its handler.
* `Transport.get_act`, `Transport.seen_dispatch`: what an action leaves, and what is seen of a call.
-/

namespace CallGuard

/-! ## One visit -/

namespace ActiveFault

/-- What a call to a node leaves of a fault. -/
def leftBy (node : String) (f : ActiveFault) : Option ActiveFault :=
  if f.node = node then
    match f.fault with
    | .failNext 0 => none
    | .failNext (count + 1) => if count = 0 then none else some { f with fault := .failNext count }
    | _ => some f
  else some f

/-- The delay that a fault imposes on a call to a node. -/
def delay? (node : String) (f : ActiveFault) : Option Span :=
  if f.node = node then
    match f.fault with
    | .latency ms => some (.ofMillis ms)
    | _ => none
  else none

/-- The failure that a fault causes whatever is drawn. -/
def error? (node : String) (f : ActiveFault) : Option CallError :=
  if f.node = node then
    match f.fault with
    | .crash => some (NetworkError.connectionRefused node).toCallError
    | .status code => some (.status (.new code "INJECTED" (toString code.toNat ++ " injected")))
    | .failNext (_ + 1) => some (NetworkError.connectionRefused node).toCallError
    | _ => none
  else none

/-- The rate at which a fault loses calls to a node. -/
def rate? (node : String) (f : ActiveFault) : Option Float :=
  if f.node = node then
    match f.fault with
    | .loss rate => some rate
    | _ => none
  else none

end ActiveFault

/-- How a lost call fails. -/
def lostCall (node : String) : CallError := (NetworkError.packetLost node).toCallError

namespace Assessment

variable (node : String) (a : Assessment) (f : ActiveFault)

theorem visit_kept : (visit node a f).kept = a.kept ++ (f.leftBy node).toList := by
  unfold visit ActiveFault.leftBy
  by_cases hnode : f.node = node
  · simp only [if_pos hnode]
    rcases f.fault with _ | _ | _ | _ | _ | count <;> try rfl
    · simp
    · by_cases hlast : count = 0
      · simp [hlast]
      · simp only [if_neg hlast]
        rfl
  · simp only [if_neg hnode]
    rfl

theorem visit_delay : (visit node a f).delay = (f.delay? node).or a.delay := by
  unfold visit ActiveFault.delay?
  by_cases hnode : f.node = node
  · simp only [if_pos hnode]
    rcases f.fault with _ | _ | _ | _ | _ | count <;> try rfl
    by_cases hlast : count = 0 <;> simp [hlast]
  · simp only [if_neg hnode]
    rfl

variable {node f}

/-- A fault that loses calls draws a number, and the call is lost if it is below the rate. -/
theorem visit_loss {rate : Float} (h : f.rate? node = some rate) :
    (visit node a f).generator = a.generator.unit.2 ∧
      (visit node a f).failure = if a.generator.unit.1 < rate then some (lostCall node) else a.failure := by
  unfold ActiveFault.rate? at h
  unfold visit
  by_cases hnode : f.node = node
  · rw [if_pos hnode] at h
    simp only [if_pos hnode]
    cases hfault : f.fault <;> rw [hfault] at h <;> cases h
    exact ⟨rfl, rfl⟩
  · rw [if_neg hnode] at h
    cases h

theorem visit_sure (h : f.rate? node = none) :
    (visit node a f).generator = a.generator ∧
      (visit node a f).failure = (f.error? node).or a.failure := by
  unfold ActiveFault.rate? at h
  unfold visit ActiveFault.error?
  by_cases hnode : f.node = node
  · rw [if_pos hnode] at h
    simp only [if_pos hnode]
    rcases hfault : f.fault with _ | _ | _ | _ | _ | count
    case loss =>
      rw [hfault] at h
      cases h
    case failNext.succ => by_cases hlast : count = 0 <;> simp [hlast]
    all_goals exact ⟨rfl, rfl⟩
  · simp only [if_neg hnode]
    exact ⟨trivial, rfl⟩

end Assessment

/-! ## All visits -/

/-- The generator after some draws. -/
def Generator.drawn (g : Generator) (n : Nat) : Generator := { g with position := g.position + n }

namespace ActiveFault

/-- The delays that faults impose on a call to a node. -/
abbrev delays (node : String) (faults : List ActiveFault) : List Span := faults.filterMap (delay? node)

/-- The failures that faults cause whatever is drawn. -/
abbrev errors (node : String) (faults : List ActiveFault) : List CallError := faults.filterMap (error? node)

/-- The rates at which faults lose calls to a node. -/
abbrev rates (node : String) (faults : List ActiveFault) : List Float := faults.filterMap (rate? node)

/-- **All failures that faults cause**, in the order of the visits. -/
def failures (node : String) : Generator → List ActiveFault → List CallError
  | _, [] => []
  | g, f :: rest =>
    match f.rate? node with
    | some rate => (if g.unit.1 < rate then [lostCall node] else []) ++ failures node g.unit.2 rest
    | none => (f.error? node).toList ++ failures node g rest

end ActiveFault

open ActiveFault (leftBy delay? error? rate? delays errors rates failures)

variable {node : String} {faults : List ActiveFault} {g : Generator}

theorem filterMap_cons_toList {α β : Type} (p : α → Option β) (x : α) (l : List α) :
    (x :: l).filterMap p = (p x).toList ++ l.filterMap p := by
  cases h : p x <;> simp [h]

theorem getLast?_eq_of_forall_eq {α : Type} {l : List α} {a : α} (ha : a ∈ l) (hall : ∀ x ∈ l, x = a) :
    l.getLast? = some a := by
  cases hlast : l.getLast? with
  | none =>
    rw [List.getLast?_eq_none_iff] at hlast
    rw [hlast] at ha
    cases ha
  | some x => rw [hall x (List.mem_of_getLast? hlast)]

theorem foldl_visit_kept (a : Assessment) :
    (faults.foldl (Assessment.visit node) a).kept = a.kept ++ faults.filterMap (leftBy node) := by
  induction faults generalizing a with
  | nil => exact (List.append_nil _).symm
  | cons f rest ih =>
    rw [List.foldl_cons, ih, Assessment.visit_kept, List.append_assoc, filterMap_cons_toList]

/-- **What is left of the faults.** -/
theorem assess_kept : (assess node faults g).kept = faults.filterMap (leftBy node) := by
  rw [assess, foldl_visit_kept, Assessment.start, List.nil_append]

theorem foldl_visit_delay (a : Assessment) :
    (faults.foldl (Assessment.visit node) a).delay = ((delays node faults).getLast?).or a.delay := by
  induction faults generalizing a with
  | nil => rfl
  | cons f rest ih =>
    rw [List.foldl_cons, ih, Assessment.visit_delay, delays, delays, filterMap_cons_toList, List.getLast?_append,
      Option.or_assoc]
    cases f.delay? node <;> rfl

/-- **The last delay counts.** -/
theorem assess_delay : (assess node faults g).delay = (delays node faults).getLast? := by
  rw [assess, foldl_visit_delay, Assessment.start, Option.or_none]

theorem foldl_visit_failure (a : Assessment) :
    (faults.foldl (Assessment.visit node) a).failure =
      ((failures node a.generator faults).getLast?).or a.failure := by
  induction faults generalizing a with
  | nil => rfl
  | cons f rest ih =>
    rw [List.foldl_cons, ih, failures]
    cases hrate : f.rate? node with
    | some rate =>
      obtain ⟨hgenerator, hfailure⟩ := Assessment.visit_loss a hrate
      simp only [hgenerator, hfailure, List.getLast?_append, Option.or_assoc]
      congr 1
      split <;> rfl
    | none =>
      obtain ⟨hgenerator, hfailure⟩ := Assessment.visit_sure a hrate
      simp only [hgenerator, hfailure, List.getLast?_append, Option.or_assoc]
      cases f.error? node <;> rfl

/-- **The last failure counts.** -/
theorem assess_failure : (assess node faults g).failure = (failures node g faults).getLast? := by
  rw [assess, foldl_visit_failure, Assessment.start, Option.or_none]

theorem foldl_visit_generator (a : Assessment) :
    (faults.foldl (Assessment.visit node) a).generator = a.generator.drawn (rates node faults).length := by
  induction faults generalizing a with
  | nil => rfl
  | cons f rest ih =>
    rw [List.foldl_cons, ih, rates, rates, filterMap_cons_toList, List.length_append]
    cases hrate : f.rate? node with
    | some rate =>
      rw [(Assessment.visit_loss a hrate).1]
      simp only [Generator.drawn, Generator.unit, Generator.next, Nat.add_assoc]
      rfl
    | none =>
      rw [(Assessment.visit_sure a hrate).1]
      simp

/-- **Every fault that may lose the call draws once.** -/
theorem assess_generator : (assess node faults g).generator = g.drawn (rates node faults).length := by
  rw [assess, foldl_visit_generator, Assessment.start]

theorem failures_eq_errors (h : rates node faults = []) : failures node g faults = errors node faults := by
  induction faults with
  | nil => rfl
  | cons f rest ih =>
    rw [rates, filterMap_cons_toList, List.append_eq_nil_iff, Option.toList_eq_nil_iff] at h
    obtain ⟨hrate, hrest⟩ := h
    rw [errors, filterMap_cons_toList, failures, hrate, ih hrest]

/-! ## Runs -/

namespace Transport

/-- What is done with a network. -/
inductive Action where
  | inject (node : String) (fault : Fault)
  | heal (number : Nat)
  | healAll
  | dispatch (req : Request)

/-- What comes back. -/
inductive Answer where
  | injected (number : Except NetworkError Nat)
  | healed (active : Bool)
  | done
  | replied (delay : Option Span) (reply : Reply Response)

/-- **An action on a network**: the answer, and the network afterwards. A dispatch visits the faults in the
order given. -/
def perform (t : Transport) (order : List ActiveFault) : Action → Answer × Transport
  | .inject node fault =>
    match t.inject node fault with
    | .ok (number, injected) => (.injected (.ok number), injected)
    | .error e => (.injected (.error e), t)
  | .heal number => (.healed (t.heal number).1, (t.heal number).2)
  | .healAll => (.done, t.healAll)
  | .dispatch req =>
    let d := t.dispatch order req
    (.replied d.delay d.reply, d.network)

/-- **A run**: actions with their answers, first one first. Every action may find the faults in another order. -/
inductive Plays : Transport → List (Action × Answer) → Transport → Prop where
  | nil (t : Transport) : Plays t [] t
  | cons {t ending : Transport} {order : List ActiveFault} {action : Action} {log : List (Action × Answer)} :
      order.Perm t.faults → Plays (t.perform order action).2 log ending →
      Plays t ((action, (t.perform order action).1) :: log) ending

/-- Two networks that differ at most in the order of their faults. -/
structure Alike (t u : Transport) : Prop where
  known : t.known = u.known
  faults : t.faults.Perm u.faults
  nextNumber : t.nextNumber = u.nextNumber
  generator : t.generator = u.generator
  calls : t.calls = u.calls

namespace Alike

theorem refl (t : Transport) : Alike t t := ⟨rfl, .refl _, rfl, rfl, rfl⟩

theorem symm {t u : Transport} (h : Alike t u) : Alike u t :=
  ⟨h.known.symm, h.faults.symm, h.nextNumber.symm, h.generator.symm, h.calls.symm⟩

theorem trans {t u v : Transport} (h : Alike t u) (h' : Alike u v) : Alike t v :=
  ⟨h.known.trans h'.known, h.faults.trans h'.faults, h.nextNumber.trans h'.nextNumber,
    h.generator.trans h'.generator, h.calls.trans h'.calls⟩

end Alike

/-! ## Runs of programs -/

variable {σ : Type}

/-- What a program sees of an action on its network. -/
inductive Sight where
  | injected (number : Except NetworkError Nat)
  | healed (active : Bool)
  | done
  | observed (call : Observation Response)

/-- **A program acts on its network.** A dispatch is a call of the network's handler. -/
def act (env : Cell σ Env) (cell : Cell σ Transport) (ctx : Context) : Action → Run σ Sight
  | .inject node fault => do
    match (← Run.read cell).inject node fault with
    | .ok (number, t) =>
      Run.write cell t
      return .injected (.ok number)
    | .error e => return .injected (.error e)
  | .heal number => do
    let (active, t) := (← Run.read cell).heal number
    Run.write cell t
    return .healed active
  | .healAll => do
    Run.update cell healAll
    return .done
  | .dispatch req => return .observed (← Observation.of env (handler env cell ctx req))

/-- **A run of a program**: its actions with what it sees of them, first one first. In between, anything may
happen that leaves the network as it is, and its faults may come to be listed in any other order. -/
inductive Acts (env : Cell σ Env) (cell : Cell σ Transport) :
    σ → List (Action × Except TimeError Sight) → σ → Prop where
  | nil (s : σ) : Acts env cell s [] s
  | act {s ending : σ} {log : List (Action × Except TimeError Sight)} (ctx : Context) (action : Action) :
      Acts env cell ((act env cell ctx action).runFrom s).2 log ending →
      Acts env cell s ((action, ((act env cell ctx action).runFrom s).1) :: log) ending
  | meanwhile {s s' ending : σ} {log : List (Action × Except TimeError Sight)} :
      Alike (cell.get s) (cell.get s') → Acts env cell s' log ending → Acts env cell s log ending

variable {env : Cell σ Env} {cell : Cell σ Transport}

theorem Acts.relisted (hcell : cell.Lawful) {s ending : σ} {order : List ActiveFault}
    {log : List (Action × Except TimeError Sight)} (horder : order.Perm (cell.get s).faults)
    (h : Acts env cell (cell.set s { cell.get s with faults := order }) log ending) :
    Acts env cell s log ending := by
  refine .meanwhile ?_ h
  rw [hcell.get_set]
  exact ⟨rfl, horder.symm, rfl, rfl, rfl⟩

/-- A state after a delay, if there is one. -/
def delayed (env : Cell σ Env) (delay : Option Span) (s : σ) : σ :=
  match delay with
  | some span => ((Env.sleep env span).runFrom s).2
  | none => s

/-- **The handler of a network dispatches**, in the order in which the faults are listed. -/
theorem runFrom_handler (ctx : Context) (req : Request) (s : σ) :
    (handler env cell ctx req).runFrom s =
      (.ok ((cell.get s).dispatch (cell.get s).faults req).reply,
        delayed env ((cell.get s).dispatch (cell.get s).faults req).delay
          (cell.set s ((cell.get s).dispatch (cell.get s).faults req).network)) := by
  simp only [handler, Run.runFrom_bind, Run.runFrom_read, Run.runFrom_write]
  cases ((cell.get s).dispatch (cell.get s).faults req).delay <;> rfl

/-- **What an action leaves of the network.** -/
theorem get_act (hcell : cell.Lawful) (hapart : cell.Disjoint env) (ctx : Context) (action : Action) (s : σ) :
    cell.get ((act env cell ctx action).runFrom s).2 = ((cell.get s).perform (cell.get s).faults action).2 := by
  cases action with
  | inject node fault =>
    simp only [act, perform, Run.runFrom_bind, Run.runFrom_read]
    rcases (cell.get s).inject node fault with e | ⟨number, t⟩
    · rfl
    · exact hcell.get_set s t
  | heal number => exact hcell.get_set s _
  | healAll => exact hcell.get_set s _
  | dispatch req =>
    simp only [act, perform, Observation.of, Run.runFrom_bind, Run.runFrom_read, runFrom_handler,
      Run.runFrom_pure]
    -- a delay is slept through, which is no business of the network
    cases ((cell.get s).dispatch (cell.get s).faults req).delay with
    | none => exact hcell.get_set s _
    | some delay => exact (hapart.get_set _ _).trans (hcell.get_set s _)

/-- **What a program sees of a dispatch** that is not delayed: its reply, at once. -/
theorem seen_dispatch (hapart : cell.Disjoint env) (ctx : Context) (req : Request) (s : σ)
    (hprompt : ((cell.get s).dispatch (cell.get s).faults req).delay = none) :
    ((act env cell ctx (.dispatch req)).runFrom s).1 =
      .ok (.observed ⟨((cell.get s).dispatch (cell.get s).faults req).reply, 0⟩) := by
  simp only [act, Observation.of, Run.runFrom_bind, Run.runFrom_read, runFrom_handler, hprompt, delayed,
    hapart.set_get, Run.runFrom_pure, Nat.sub_self]

end Transport

end CallGuard
