import CallGuard.Proofs.Network.Deals
import CallGuard.Proofs.Network.Dispatch
import Mathlib.Data.List.Basic

/-!
# When the order of the visits makes no difference

The order in which the faults of a node are visited decides which delay and which failure come
last, and which number is drawn for which rate. So a call may go differently with the same faults
and the same numbers. It cannot if all delays are the same, all sure failures are the same, and
the draws lose no call at all, or lose it however they are dealt out and nothing else fails it.

* `ActiveFault.mem_failures`: a call is lost if a number is below the rate it is drawn for.
* `ActiveFault.Settled`: what makes the order of the visits insignificant.
* `ActiveFault.Settled.agree`, `ActiveFault.Settled.of_agree`: it is enough, and nothing less is.
* `ActiveFault.forall_agree_iff`: **all orders agree exactly if the faults are settled**.
-/

namespace CallGuard

/-! ## Last members -/

section Last

variable {α β : Type} {l l' : List α}

/-- If all members are the same, the last one does not depend on the order. -/
theorem getLast?_eq_of_perm (h : l'.Perm l) (hall : ∀ x ∈ l, ∀ y ∈ l, x = y) : l'.getLast? = l.getLast? := by
  cases hlast : l.getLast? with
  | none =>
    rw [List.getLast?_eq_none_iff] at hlast ⊢
    rw [hlast] at h
    exact h.eq_nil
  | some a =>
    have ha := List.mem_of_getLast? hlast
    exact getLast?_eq_of_forall_eq (h.mem_iff.2 ha) fun x hx => hall x (h.mem_iff.1 hx) a ha

/-- Any member can be the last one. -/
theorem exists_perm_last {p : α → Option β} {d : β} (hd : d ∈ l.filterMap p) :
    ∃ (rest : List α) (a : α), (rest ++ [a]).Perm l ∧ p a = some d := by
  obtain ⟨a, ha, hp⟩ := List.mem_filterMap.1 hd
  obtain ⟨before, after, rfl⟩ := List.append_of_mem ha
  refine ⟨before ++ after, a, ?_, hp⟩
  exact (List.perm_append_singleton a (before ++ after)).trans List.perm_middle.symm

/-- Any number can be dealt to any member. -/
theorem exists_perm_zip {x : β} {r : α} {numbers : List β} (hlength : numbers.length = l.length)
    (hx : x ∈ numbers) (hr : r ∈ l) : ∃ dealt : List α, dealt.Perm l ∧ (x, r) ∈ numbers.zip dealt := by
  obtain ⟨before, after, rfl⟩ := List.append_of_mem hx
  obtain ⟨front, back, rfl⟩ := List.append_of_mem hr
  have hrest : before.length ≤ (front ++ back).length := by
    simp only [List.length_append, List.length_cons] at hlength ⊢
    omega
  have hfront : before.length = ((front ++ back).take before.length).length := by
    rw [List.length_take, Nat.min_eq_left hrest]
  refine ⟨(front ++ back).take before.length ++ r :: (front ++ back).drop before.length, ?_, ?_⟩
  · have hperm : (r :: ((front ++ back).take before.length ++ (front ++ back).drop before.length)).Perm
        (front ++ r :: back) := by
      rw [List.take_append_drop]
      exact List.perm_middle.symm
    exact List.perm_middle.trans hperm
  · rw [List.zip_append hfront, List.zip_cons_cons]
    exact List.mem_append_right _ List.mem_cons_self

end Last

/-- Two orders of visits led to the same. -/
structure Assessment.Agree (a b : Assessment) : Prop where
  delay : a.delay = b.delay
  failure : a.failure = b.failure
  kept : a.kept.Perm b.kept
  generator : a.generator = b.generator

/-! ## Failures in order -/

namespace ActiveFault

variable {node : String} {f : ActiveFault} {faults order : List ActiveFault} {g : Generator}

/-- A number is drawn below the rate it is drawn for. -/
def Loses (node : String) (order : List ActiveFault) (g : Generator) : Prop :=
  ∃ p ∈ (g.draws (rates node order).length).zip (rates node order), p.1 < p.2

theorem error?_eq_none {rate : Float} (h : f.rate? node = some rate) : f.error? node = none := by
  unfold rate? at h
  unfold error?
  by_cases hnode : f.node = node
  · rw [if_pos hnode] at h ⊢
    cases hfault : f.fault <;> rw [hfault] at h <;> first | rfl | cases h
  · exact if_neg hnode

theorem rate?_eq_none {e : CallError} (h : f.error? node = some e) : f.rate? node = none := by
  cases hrate : f.rate? node with
  | none => rfl
  | some rate =>
    rw [error?_eq_none hrate] at h
    cases h

/-- A sure failure is told apart from a lost call. -/
theorem error?_ne_lostCall {e : CallError} (h : f.error? node = some e) : e ≠ lostCall node := by
  have hrefused : (NetworkError.connectionRefused node).toCallError ≠ lostCall node := by
    intro heq
    have htexts : "connection refused by " ++ node = "request to " ++ node ++ " lost" := CallError.call.inj heq
    have hfirst := congrArg (fun text : String => text.toList.head?) htexts
    simp at hfirst
  unfold error? at h
  split at h
  · split at h <;> cases h
    all_goals first | exact hrefused | exact nofun
  · cases h

theorem loses_cons_loss {rate : Float} (h : f.rate? node = some rate) :
    Loses node (f :: order) g ↔ g.unit.1 < rate ∨ Loses node order g.unit.2 := by
  unfold Loses
  rw [rates, List.filterMap_cons_some h, List.length_cons, Generator.draws, List.zip_cons_cons]
  simp only [List.mem_cons, exists_eq_or_imp]

theorem loses_cons_sure (h : f.rate? node = none) : Loses node (f :: order) g ↔ Loses node order g := by
  unfold Loses
  rw [rates, List.filterMap_cons_none h]

/-- **What fails a call**: a sure failure, or a number below its rate. -/
theorem mem_failures {e : CallError} :
    e ∈ failures node g order ↔ e ∈ errors node order ∨ e = lostCall node ∧ Loses node order g := by
  induction order generalizing g with
  | nil => simp [failures, errors, Loses, rates]
  | cons f rest ih =>
    have herrors : e ∈ errors node (f :: rest) ↔ f.error? node = some e ∨ e ∈ errors node rest := by
      rw [errors, filterMap_cons_toList, List.mem_append, Option.mem_toList]
    rw [failures, herrors]
    cases hrate : f.rate? node with
    | some rate =>
      rw [List.mem_append, ih, loses_cons_loss hrate, error?_eq_none hrate]
      by_cases hlost : g.unit.1 < rate
      · simp only [hlost, if_true, List.mem_singleton, true_or, and_true, reduceCtorEq, false_or]
        exact ⟨fun h => h.elim .inr fun h => h.imp_right And.left, fun h => h.symm.imp_right .inl⟩
      · simp [hlost]
    | none => rw [List.mem_append, ih, loses_cons_sure hrate, Option.mem_toList, or_assoc]

theorem failures_of_not_loses (hkeeps : ¬Loses node order g) : failures node g order = errors node order := by
  induction order generalizing g with
  | nil => rfl
  | cons f rest ih =>
    rw [failures, errors, filterMap_cons_toList]
    cases hrate : f.rate? node with
    | some rate =>
      rw [loses_cons_loss hrate, not_or] at hkeeps
      simp only [if_neg hkeeps.1, ih hkeeps.2, error?_eq_none hrate, Option.toList_none, List.nil_append]
    | none =>
      rw [loses_cons_sure hrate] at hkeeps
      simp only [ih hkeeps]

theorem failures_append (g : Generator) (before after : List ActiveFault) :
    failures node g (before ++ after) =
      failures node g before ++ failures node (g.drawn (rates node before).length) after := by
  induction before generalizing g with
  | nil => rfl
  | cons f rest ih =>
    rw [List.cons_append, failures, failures]
    cases hrate : f.rate? node with
    | some rate =>
      have hdrawn : g.unit.2.drawn (rates node rest).length = g.drawn (rates node (f :: rest)).length := by
        rw [rates, rates, List.filterMap_cons_some hrate, List.length_cons, Nat.add_comm]
        exact congrArg (Generator.mk g.key) (Nat.add_assoc _ _ _)
      simp only [ih, hdrawn, List.append_assoc]
    | none => simp only [ih, rates, List.filterMap_cons_none hrate, List.append_assoc]

theorem failure_of_loses (hsure : errors node order = []) (hloses : Loses node order g) :
    (assess node order g).failure = some (lostCall node) := by
  rw [assess_failure]
  apply getLast?_eq_of_forall_eq
  · exact mem_failures.2 (.inr ⟨rfl, hloses⟩)
  · intro e he
    rcases mem_failures.1 he with he | ⟨he, -⟩
    · rw [hsure] at he
      cases he
    · exact he

/-- The faults that lose no calls to a node. -/
def others (node : String) (order : List ActiveFault) : List ActiveFault :=
  order.filter fun f => (f.rate? node).isNone

/-- The faults that lose calls to a node. -/
def losses (node : String) (order : List ActiveFault) : List ActiveFault :=
  order.filter fun f => !(f.rate? node).isNone

theorem rates_others : rates node (others node order) = [] := by
  rw [rates, List.filterMap_eq_nil_iff]
  intro f hf
  exact Option.isNone_iff_eq_none.1 (List.mem_filter.1 hf).2

theorem rates_losses : rates node (losses node order) = rates node order := by
  rw [rates, losses, List.filterMap_filter]
  apply List.filterMap_congr
  intro f _
  cases f.rate? node <;> rfl

theorem errors_losses : errors node (losses node order) = [] := by
  rw [errors, List.filterMap_eq_nil_iff]
  intro f hf
  have hloss := (List.mem_filter.1 hf).2
  cases hrate : f.rate? node with
  | some rate => exact error?_eq_none hrate
  | none =>
    rw [hrate] at hloss
    cases hloss

/-- If the faults that lose calls are visited last, a number below its rate loses the call. -/
theorem failure_of_losses_last (hloses : Loses node order g) :
    (assess node (others node order ++ losses node order) g).failure = some (lostCall node) := by
  have hlast : Loses node (losses node order) g := by
    rw [Loses, rates_losses]
    exact hloses
  have hlost := failure_of_loses errors_losses hlast
  rw [assess_failure] at hlost ⊢
  rw [failures_append, rates_others, List.getLast?_append]
  show (failures node g (losses node order)).getLast?.or _ = _
  rw [hlost, Option.some_or]

/-- **The order of the visits makes no difference** to a call to a node. All delays are the same, and so are all
failures that are sure. No number that is drawn is below a rate; or nothing else fails the call, and fewer numbers
reach some rate than rates do, so that one is below its rate in every order. -/
structure Settled (node : String) (faults : List ActiveFault) (g : Generator) : Prop where
  delay : ∀ d ∈ delays node faults, ∀ d' ∈ delays node faults, d = d'
  error : ∀ e ∈ errors node faults, ∀ e' ∈ errors node faults, e = e'
  loss : (∀ x ∈ g.draws (rates node faults).length, ∀ r ∈ rates node faults, ¬x < r) ∨
    errors node faults = [] ∧ ∃ r ∈ rates node faults,
      (g.draws (rates node faults).length).countP (fun x => ¬x < r) < (rates node faults).countP (fun s => r ≤ s)

/-! ## All orders -/

open Assessment (Agree)

/-- **What is left and what is drawn never depends on the order.** -/
theorem kept_of_perm (horder : order.Perm faults) (g : Generator) :
    (assess node order g).kept.Perm (assess node faults g).kept ∧
      (assess node order g).generator = (assess node faults g).generator := by
  rw [assess_kept, assess_kept, assess_generator, assess_generator, (horder.filterMap _).length_eq]
  exact ⟨horder.filterMap _, rfl⟩

theorem exists_order_delay {d : Span} (hd : d ∈ delays node faults) (g : Generator) :
    ∃ order, order.Perm faults ∧ (assess node order g).delay = some d := by
  obtain ⟨rest, f, hperm, hf⟩ := exists_perm_last hd
  refine ⟨rest ++ [f], hperm, ?_⟩
  rw [assess_delay, delays, List.filterMap_append, List.filterMap_cons_some hf]
  exact List.getLast?_concat

/-- Any sure failure is the last one in some order. -/
theorem exists_order_error {e : CallError} (he : e ∈ errors node faults) (g : Generator) :
    ∃ order, order.Perm faults ∧ (assess node order g).failure = some e := by
  obtain ⟨rest, f, hperm, hf⟩ := exists_perm_last he
  refine ⟨rest ++ [f], hperm, ?_⟩
  rw [assess_failure, failures_append, failures, rate?_eq_none hf, hf]
  exact List.getLast?_concat

theorem loses_iff (horder : order.Perm faults) :
    Loses node order g ↔ ∃ p ∈ (g.draws (rates node faults).length).zip (rates node order), p.1 < p.2 := by
  rw [Loses, (horder.filterMap _).length_eq]

/-- A number below any rate loses the call in some order. -/
theorem exists_order_lost {x r : Float} (hx : x ∈ g.draws (rates node faults).length)
    (hr : r ∈ rates node faults) (hlt : x < r) :
    ∃ order, order.Perm faults ∧ (assess node order g).failure = some (lostCall node) := by
  obtain ⟨dealt, hdealt, hp⟩ := exists_perm_zip (Generator.length_draws g _) hx hr
  obtain ⟨order, horder, rfl⟩ := exists_perm_filterMap hdealt
  have hloses : Loses node order g := (loses_iff horder).2 ⟨(x, r), hp, hlt⟩
  have hlast : (others node order ++ losses node order).Perm order := List.filter_append_perm _ _
  exact ⟨_, hlast.trans horder, failure_of_losses_last hloses⟩

theorem not_loses (hkeeps : ∀ x ∈ g.draws (rates node faults).length, ∀ r ∈ rates node faults, ¬x < r)
    (horder : order.Perm faults) : ¬Loses node order g := by
  rw [loses_iff horder]
  rintro ⟨⟨x, r⟩, hp, hlt⟩
  obtain ⟨hx, hr⟩ := List.of_mem_zip hp
  exact hkeeps x hx r ((horder.filterMap _).mem_iff.1 hr) hlt

/-- **Every order has a number below its rate** exactly if fewer numbers reach some rate than rates do. -/
theorem forall_loses_iff (node : String) (faults : List ActiveFault) (g : Generator) :
    (∀ order, order.Perm faults → Loses node order g) ↔ ∃ r ∈ rates node faults,
      (g.draws (rates node faults).length).countP (fun x => ¬x < r) <
        (rates node faults).countP (fun s => r ≤ s) := by
  rw [← Generator.certain_iff]
  constructor
  · intro hall dealt hdealt
    obtain ⟨order, horder, rfl⟩ := exists_perm_filterMap hdealt
    exact (loses_iff horder).1 (hall order horder)
  · intro hall order horder
    exact (loses_iff horder).2 (hall _ (horder.filterMap _))

/-- **Settled faults** do the same to a call in all orders. -/
theorem Settled.agree (h : Settled node faults g) (horder : order.Perm faults) :
    Agree (assess node order g) (assess node faults g) := by
  obtain ⟨hkept, hgenerator⟩ := kept_of_perm horder g
  refine ⟨?_, ?_, hkept, hgenerator⟩
  · rw [assess_delay, assess_delay]
    exact getLast?_eq_of_perm (horder.filterMap _) h.delay
  · rcases h.loss with hkeeps | ⟨hsure, hfew⟩
    · rw [assess_failure, assess_failure, failures_of_not_loses (not_loses hkeeps horder),
        failures_of_not_loses (not_loses hkeeps (.refl _))]
      exact getLast?_eq_of_perm (horder.filterMap _) h.error
    · have hall := (forall_loses_iff node faults g).2 hfew
      have hperm : (errors node order).Perm (errors node faults) := horder.filterMap _
      rw [hsure] at hperm
      rw [failure_of_loses hperm.eq_nil (hall order horder), failure_of_loses hsure (hall faults (.refl _))]

/-- **Nothing less is enough**: faults that do the same to a call in all orders are settled. -/
theorem Settled.of_agree
    (hagree : ∀ order, order.Perm faults → Agree (assess node order g) (assess node faults g)) :
    Settled node faults g := by
  have hdelay : ∀ d ∈ delays node faults, (assess node faults g).delay = some d := by
    intro d hd
    obtain ⟨order, horder, hlast⟩ := exists_order_delay hd g
    exact (hagree order horder).delay.symm.trans hlast
  have herror : ∀ e ∈ errors node faults, (assess node faults g).failure = some e := by
    intro e he
    obtain ⟨order, horder, hlast⟩ := exists_order_error he g
    exact (hagree order horder).failure.symm.trans hlast
  refine ⟨?_, ?_, ?_⟩
  · intro d hd d' hd'
    exact Option.some.inj ((hdelay d hd).symm.trans (hdelay d' hd'))
  · intro e he e' he'
    exact Option.some.inj ((herror e he).symm.trans (herror e' he'))
  · by_cases hkeeps : ∀ x ∈ g.draws (rates node faults).length, ∀ r ∈ rates node faults, ¬x < r
    · exact .inl hkeeps
    -- a number below a rate loses the call in some order, so the call is lost in all of them
    have hlost : (assess node faults g).failure = some (lostCall node) := by
      simp only [not_forall, not_not] at hkeeps
      obtain ⟨x, hx, r, hr, hlt⟩ := hkeeps
      obtain ⟨order, horder, hlost⟩ := exists_order_lost hx hr hlt
      exact (hagree order horder).failure.symm.trans hlost
    have hsure : errors node faults = [] := by
      rw [List.eq_nil_iff_forall_not_mem]
      intro e he
      obtain ⟨f, -, hf⟩ := List.mem_filterMap.1 he
      exact error?_ne_lostCall hf (Option.some.inj ((herror e he).symm.trans hlost))
    refine .inr ⟨hsure, (forall_loses_iff node faults g).1 ?_⟩
    intro order horder
    have hfailure := (hagree order horder).failure.trans hlost
    have hperm : (errors node order).Perm (errors node faults) := horder.filterMap _
    rw [hsure] at hperm
    rw [assess_failure] at hfailure
    rcases mem_failures.1 (List.mem_of_getLast? hfailure) with he | ⟨-, hloses⟩
    · rw [hperm.eq_nil] at he
      cases he
    · exact hloses

/-- **All orders agree exactly if the faults are settled.** -/
theorem forall_agree_iff (node : String) (faults : List ActiveFault) (g : Generator) :
    (∀ first second, first.Perm faults → second.Perm faults →
      Agree (assess node first g) (assess node second g)) ↔ Settled node faults g := by
  constructor
  · intro hall
    exact .of_agree fun order horder => hall order faults horder (.refl _)
  · intro h first second hfirst hsecond
    have ha := h.agree hfirst
    have hb := h.agree hsecond
    exact ⟨ha.delay.trans hb.delay.symm, ha.failure.trans hb.failure.symm, ha.kept.trans hb.kept.symm,
      ha.generator.trans hb.generator.symm⟩

end ActiveFault

end CallGuard
