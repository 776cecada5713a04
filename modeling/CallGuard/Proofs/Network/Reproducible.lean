import CallGuard.Proofs.Network.Order

/-!
# Runs that can be reproduced

A run of a network starts with a seed and is made of calls. It can be reproduced if the seed and
the calls fix all answers, in whatever order the faults are visited. The order of the visits makes
no difference to one dispatch if the faults of its node are settled. So a run can be reproduced
exactly if they are at every dispatch, and a crash and a status on one node are enough to break it.

* `Transport.perform_alike`: one action with the faults in two orders.
* `Transport.Steady`: the faults are settled at every dispatch of a run.
* `Transport.fixes_iff`: **the calls fix a run exactly if it is steady**.
* `Transport.reproduces`: what the order of the visits decides, and what it never does.
* `Transport.exists_plays_error`: each sure failure is the reply in some run of the same calls.
* `Transport.unreproducible`: two runs of the same calls with the same seed that end differently.
-/

namespace CallGuard

open Assessment (Agree)
open ActiveFault (Settled)

namespace Transport

/-- **The calls fix a run**: all runs of them give the same answers, and leave the same. -/
def Fixes (t : Transport) (actions : List Action) : Prop :=
  ∀ log log' after after', Plays t log after → Plays t log' after' → log.map Prod.fst = actions →
    log'.map Prod.fst = actions → log = log' ∧ Alike after after'

/-- The answers to actions, if the faults are always visited as they are listed. -/
def listed (t : Transport) : List Action → List (Action × Answer)
  | [] => []
  | action :: rest => (action, (t.perform t.faults action).1) :: (t.perform t.faults action).2.listed rest

/-- The network after actions, if the faults are always visited as they are listed. -/
def ending (t : Transport) : List Action → Transport
  | [] => t
  | action :: rest => (t.perform t.faults action).2.ending rest

/-- An action does the same to a network in whatever order the faults are visited. -/
def Settles (t : Transport) : Action → Prop
  | .dispatch req => Settled req.node.id t.faults t.generator
  | _ => True

/-- **The faults are settled at every dispatch.** -/
def Steady (t : Transport) : List Action → Prop
  | [] => True
  | action :: rest => t.Settles action ∧ (t.perform t.faults action).2.Steady rest

variable {t u after : Transport} {order : List ActiveFault} {action : Action} {actions : List Action}
  {log : List (Action × Answer)} {req : Request}

theorem answer_dispatch (t : Transport) (order order' : List ActiveFault) (req : Request) :
    (t.perform order (.dispatch req)).1 = (t.perform order' (.dispatch req)).1 ↔
      (assess req.node.id order t.generator).delay = (assess req.node.id order' t.generator).delay ∧
        (assess req.node.id order t.generator).failure = (assess req.node.id order' t.generator).failure := by
  simp only [perform, dispatch, Answer.replied.injEq, Assessment.reply]
  apply and_congr_right
  intro _
  cases (assess req.node.id order t.generator).failure <;>
    cases (assess req.node.id order' t.generator).failure <;> simp

/-- **One action on networks that differ in the order of their faults**: the answers are the same, and the
networks afterwards differ in nothing else either. -/
theorem perform_alike (halike : Alike t u) (horder : order.Perm t.faults) (hsettles : u.Settles action) :
    (t.perform order action).1 = (u.perform u.faults action).1 ∧
      Alike (t.perform order action).2 (u.perform u.faults action).2 := by
  obtain ⟨known, faults, nextNumber, generator, calls⟩ := t
  obtain ⟨known', faults', nextNumber', generator', calls'⟩ := u
  obtain ⟨hknown, hfaults, hnumber, hgenerator, hcalls⟩ := halike
  dsimp only at hknown hfaults hnumber hgenerator hcalls horder
  subst hknown hnumber hgenerator hcalls
  cases action with
  | inject node fault =>
    unfold perform inject
    by_cases hknown : known.contains node
    · simp only [hknown, if_true, true_and]
      exact ⟨rfl, hfaults.append_right _, rfl, rfl, rfl⟩
    · simp only [hknown, if_false, Bool.false_eq_true, true_and]
      exact ⟨rfl, hfaults, rfl, rfl, rfl⟩
  | heal number =>
    have hfound : (faults.any fun f => f.number == number) = faults'.any fun f => f.number == number :=
      hfaults.any_eq
    exact ⟨congrArg Answer.healed hfound, rfl, hfaults.filter _, rfl, rfl, rfl⟩
  | healAll => exact ⟨rfl, rfl, .refl _, rfl, rfl, rfl⟩
  | dispatch req =>
    have hagree := hsettles.agree (horder.trans hfaults)
    refine ⟨(answer_dispatch _ _ _ _).2 ⟨hagree.delay, hagree.failure⟩, rfl, hagree.kept, rfl, ?_, rfl⟩
    exact hagree.generator

theorem plays_listed (t : Transport) (actions : List Action) : Plays t (t.listed actions) (t.ending actions) := by
  induction actions generalizing t with
  | nil => exact .nil t
  | cons action rest ih => exact .cons (.refl _) (ih _)

theorem map_fst_listed (t : Transport) (actions : List Action) : (t.listed actions).map Prod.fst = actions := by
  induction actions generalizing t with
  | nil => rfl
  | cons action rest ih => rw [listed, List.map_cons, ih]

/-- **A steady run** gives the answers that it gives when the faults are visited as they are listed. -/
theorem Plays.eq_listed (hplays : Plays t log after) (halike : Alike t u) (hsteady : u.Steady (log.map Prod.fst)) :
    log = u.listed (log.map Prod.fst) ∧ Alike after (u.ending (log.map Prod.fst)) := by
  induction hplays generalizing u with
  | nil t => exact ⟨rfl, halike⟩
  | cons horder _ ih =>
    obtain ⟨hsettles, hrest⟩ := hsteady
    obtain ⟨hanswer, hnext⟩ := perform_alike halike horder hsettles
    obtain ⟨hlog, hending⟩ := ih hnext hrest
    refine ⟨?_, hending⟩
    rw [List.map_cons, listed, ← hlog, hanswer]

/-- If the calls fix the answers, the faults are settled at the first dispatch. -/
theorem settles_of_plays (hall : ∀ log after, Plays t log after → log.map Prod.fst = action :: actions →
    log = t.listed (action :: actions)) : t.Settles action := by
  cases action with
  | inject _ _ => trivial
  | heal _ => trivial
  | healAll => trivial
  | dispatch req =>
    refine .of_agree fun order horder => ?_
    -- only the first dispatch visits the faults in another order than they are listed in
    have hplays : Plays t ((.dispatch req, (t.perform order (.dispatch req)).1) ::
        (t.perform order (.dispatch req)).2.listed actions) _ := .cons horder (plays_listed _ actions)
    have hlog := hall _ _ hplays (congrArg (Action.dispatch req :: ·) (map_fst_listed _ _))
    obtain ⟨hanswer, -⟩ := List.cons.inj hlog
    obtain ⟨hdelay, hfailure⟩ := (answer_dispatch _ _ _ _).1 (Prod.mk.inj hanswer).2
    obtain ⟨hkept, hgenerator⟩ := @ActiveFault.kept_of_perm req.node.id _ _ horder t.generator
    exact ⟨hdelay, hfailure, hkept, hgenerator⟩

theorem steady_of_plays (hall : ∀ log after, Plays t log after → log.map Prod.fst = actions →
    log = t.listed actions) : t.Steady actions := by
  induction actions generalizing t with
  | nil => trivial
  | cons action rest ih =>
    refine ⟨settles_of_plays hall, ih fun log after hplays hactions => ?_⟩
    have hlog := hall _ _ (.cons (.refl _) hplays) (congrArg (action :: ·) hactions)
    exact (List.cons.inj hlog).2

/-- **The calls fix a run exactly if it is steady.** -/
theorem fixes_iff (t : Transport) (actions : List Action) : t.Fixes actions ↔ t.Steady actions := by
  constructor
  · intro hfixes
    refine steady_of_plays fun log after hplays hactions => ?_
    have hlisted := plays_listed t actions
    exact (hfixes log _ after _ hplays hlisted hactions (map_fst_listed t actions)).1
  · rintro hsteady log log' after after' hplays hplays' rfl hactions
    obtain ⟨hlog, hafter⟩ := hplays.eq_listed (.refl t) hsteady
    rw [← hactions] at hsteady
    obtain ⟨hlog', hafter'⟩ := hplays'.eq_listed (.refl t) hsteady
    rw [hactions] at hlog' hafter'
    exact ⟨hlog.trans hlog'.symm, hafter.trans hafter'.symm⟩

instance (node : String) (faults : List ActiveFault) (g : Generator) : Decidable (Settled node faults g) :=
  decidable_of_iff (_ ∧ _ ∧ _) ⟨fun h => ⟨h.1, h.2.1, h.2.2⟩, fun h => ⟨h.delay, h.error, h.loss⟩⟩

instance (t : Transport) : (action : Action) → Decidable (t.Settles action)
  | .inject _ _ => .isTrue trivial
  | .heal _ => .isTrue trivial
  | .healAll => .isTrue trivial
  | .dispatch req => inferInstanceAs (Decidable (Settled req.node.id t.faults t.generator))

def decideSteady (t : Transport) : (actions : List Action) → Decidable (t.Steady actions)
  | [] => .isTrue trivial
  | action :: rest =>
    have := decideSteady (t.perform t.faults action).2 rest
    inferInstanceAs (Decidable (t.Settles action ∧ (t.perform t.faults action).2.Steady rest))

instance (t : Transport) (actions : List Action) : Decidable (t.Steady actions) := t.decideSteady actions

/-- **Seeded runs.** All orders of visiting the faults do the same to a call exactly if the faults of its node are
settled. What is left of the faults and what is drawn is the same in any case. So the seed and the calls fix
a run exactly if the faults are settled at each of its dispatches. -/
theorem reproduces (node : String) (faults : List ActiveFault) (g : Generator) (t : Transport)
    (actions : List Action) :
    ((∀ first second : List ActiveFault, first.Perm faults → second.Perm faults →
      Agree (assess node first g) (assess node second g)) ↔ Settled node faults g) ∧
    (∀ order : List ActiveFault, order.Perm faults →
      (assess node order g).kept.Perm (assess node faults g).kept ∧
        (assess node order g).generator = (assess node faults g).generator) ∧
    (t.Fixes actions ↔ t.Steady actions) := by
  refine ⟨ActiveFault.forall_agree_iff node faults g, ?_, fixes_iff t actions⟩
  intro order horder
  exact ActiveFault.kept_of_perm horder g

/-- Two nodes, and several faults on each. -/
def rough : List Action :=
  [.inject "n1" .crash, .inject "n2" (.loss 1.0), .inject "n1" (.latency 5), .inject "n1" (.failNext 1),
    .inject "n2" (.loss 0.0), .inject "n1" (.latency 5), .dispatch ⟨.new "n1" "n1:80", "a"⟩,
    .dispatch ⟨.new "n2" "n2:80", "b"⟩]

theorem reproduces_rough :
    (Transport.new [.new "n1" "n1:80", .new "n2" "n2:80"] 7).Steady rough ∧
    ∀ log after, Plays (.new [.new "n1" "n1:80", .new "n2" "n2:80"] 7) log after → log.map Prod.fst = rough →
      log.drop 6 = [
        (.dispatch ⟨.new "n1" "n1:80", "a"⟩,
          .replied (some (.ofMillis 5)) (.error (NetworkError.connectionRefused "n1").toCallError)),
        (.dispatch ⟨.new "n2" "n2:80", "b"⟩, .replied none (.error (lostCall "n2")))] := by
  obtain ⟨-, -, hfixes⟩ := reproduces "n1" [] (.ofSeed 7) (.new [.new "n1" "n1:80", .new "n2" "n2:80"] 7) rough
  have hsteady : (Transport.new [.new "n1" "n1:80", .new "n2" "n2:80"] 7).Steady rough := by decide +kernel
  refine ⟨hsteady, fun log after hplays hactions => ?_⟩
  rw [(hfixes.2 hsteady log _ after _ hplays (plays_listed _ rough) hactions (map_fst_listed _ rough)).1]
  rfl

/-! ## Runs that differ -/

theorem Plays.append {t middle after : Transport} {log more : List (Action × Answer)} (h : Plays t log middle)
    (hmore : Plays middle more after) : Plays t (log ++ more) after := by
  induction h with
  | nil _ => exact hmore
  | cons horder _ ih => exact .cons horder (ih hmore)

/-- **Any sure failure is the reply to some dispatch**, with the same calls before it. -/
theorem exists_plays_error {e : CallError}
    (he : e ∈ ActiveFault.errors req.node.id (t.ending actions).faults)
    (hprompt : ActiveFault.delays req.node.id (t.ending actions).faults = []) :
    ∃ log after, Plays t log after ∧ log.map Prod.fst = actions ++ [.dispatch req] ∧
      log.getLast? = some (.dispatch req, .replied none (.error e)) := by
  obtain ⟨order, horder, hfailure⟩ := ActiveFault.exists_order_error he (t.ending actions).generator
  have hdelay : (assess req.node.id order (t.ending actions).generator).delay = none := by
    have hperm := horder.filterMap (ActiveFault.delay? req.node.id)
    rw [← ActiveFault.delays, ← ActiveFault.delays, hprompt] at hperm
    rw [assess_delay, hperm.eq_nil, List.getLast?_nil]
  have hanswer : ((t.ending actions).perform order (.dispatch req)).1 = .replied none (.error e) := by
    simp only [perform, dispatch, Assessment.reply, hdelay, hfailure]
  have hlast : Plays (t.ending actions) [(.dispatch req, ((t.ending actions).perform order (.dispatch req)).1)] _ :=
    .cons horder (.nil _)
  rw [hanswer] at hlast
  refine ⟨_, _, (plays_listed t actions).append hlast, ?_, List.getLast?_concat⟩
  rw [List.map_append, map_fst_listed]
  rfl

def lone : Transport := .new [.new "n1" "n1:80"] 7

/-- The node refuses every connection. Then it is made to answer with a status, again and again. -/
def outage (n : Nat) : List Action := .inject "n1" .crash :: List.replicate n (.inject "n1" (.status 503))

theorem ending_replicate {node : String} (fault : Fault) (hknown : t.known.contains node) (n : Nat) :
    t.ending (List.replicate n (.inject node fault)) = { t with
      faults := t.faults ++ (List.range' t.nextNumber n).map (⟨·, node, fault⟩)
      nextNumber := t.nextNumber + n } := by
  induction n generalizing t with
  | zero => simp [ending]
  | succ n ih =>
    have hinject : (t.perform t.faults (.inject node fault)).2 = { t with
        faults := t.faults ++ [⟨t.nextNumber, node, fault⟩]
        nextNumber := t.nextNumber + 1 } := by
      simp only [perform, inject, hknown, if_true]
    rw [List.replicate_succ, ending, hinject, ih (by exact hknown)]
    simp only [List.range'_succ, List.map_cons, List.append_assoc, List.singleton_append, Nat.add_assoc,
      Nat.add_comm 1 n]

theorem faults_outage (n : Nat) : (lone.ending (outage n)).faults =
    ⟨0, "n1", .crash⟩ :: (List.range' 1 n).map (⟨·, "n1", .status 503⟩) := by
  rw [outage, ending, ending_replicate _ (by decide)]
  rfl

/-- **The seed and the calls do not fix a run.** A node that refuses every connection answers with a status, or does
not, as the faults are visited. -/
theorem unreproducible :
    (∃ first second : List ActiveFault, first.Perm (lone.ending (outage 1000)).faults ∧
      second.Perm (lone.ending (outage 1000)).faults ∧
      (assess "n1" first (.ofSeed 7)).failure = some (.status (.new 503 "INJECTED" "503 injected")) ∧
      (assess "n1" second (.ofSeed 7)).failure = some (.call "connection refused by n1")) ∧
    ¬lone.Fixes (outage 1000 ++ [.dispatch ⟨.new "n1" "n1:80", "x"⟩]) := by
  have hcrash : CallError.call "connection refused by n1" ∈
      ActiveFault.errors "n1" (lone.ending (outage 1000)).faults := by
    rw [faults_outage]
    exact List.mem_filterMap.2 ⟨_, List.mem_cons_self, rfl⟩
  have hstatus : CallError.status (.new 503 "INJECTED" "503 injected") ∈
      ActiveFault.errors "n1" (lone.ending (outage 1000)).faults := by
    rw [faults_outage]
    have hone : 1 ∈ List.range' 1 1000 := List.mem_range'_1.2 ⟨by decide, by decide⟩
    exact List.mem_filterMap.2 ⟨_, List.mem_cons_of_mem _ (List.mem_map_of_mem hone), rfl⟩
  have hprompt : ActiveFault.delays "n1" (lone.ending (outage 1000)).faults = [] := by
    rw [faults_outage, ActiveFault.delays, List.filterMap_eq_nil_iff]
    intro f hf
    rcases List.mem_cons.1 hf with rfl | hf
    · rfl
    · obtain ⟨number, -, rfl⟩ := List.mem_map.1 hf
      rfl
  constructor
  · obtain ⟨first, hfirst, hinjected⟩ := ActiveFault.exists_order_error hstatus (.ofSeed 7)
    obtain ⟨second, hsecond, hrefused⟩ := ActiveFault.exists_order_error hcrash (.ofSeed 7)
    exact ⟨first, second, hfirst, hsecond, hinjected, hrefused⟩
  · intro hfixes
    obtain ⟨log, after, hplays, hactions, hinjected⟩ :=
      @exists_plays_error lone _ ⟨.new "n1" "n1:80", "x"⟩ _ hstatus hprompt
    obtain ⟨log', after', hplays', hactions', hrefused⟩ :=
      @exists_plays_error lone _ ⟨.new "n1" "n1:80", "x"⟩ _ hcrash hprompt
    obtain ⟨hsame, -⟩ := hfixes log log' after after' hplays hplays' hactions hactions'
    rw [hsame, hrefused] at hinjected
    cases hinjected

end Transport

end CallGuard
