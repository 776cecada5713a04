import CallGuard.Proofs.Calls.Visits
import CallGuard.Proofs.Network.Dispatch
import Mathlib.Data.List.Basic

/-!
# Faults that run out

A fault may fail only the next calls to its node, up to a count. If a node has no other faults,
a dispatch to it takes one from every count, whatever the order of the visits. So the calls to
the node fail until the largest count is used up, and from then on they succeed. Whatever is done
with other nodes in between makes no difference.

* `ActiveFault.after`: what so many calls leave of a fault.
* `Transport.own_perform`: one action takes one from every count, or nothing.
* `Transport.dispatch_counting`: one dispatch fails exactly if there is a count left.
* `Transport.weathers`: **a node fails as many calls as its largest count says**, in every run of a program.
-/

namespace CallGuard

/-- How many calls a fault still fails. -/
def Fault.count : Fault → Nat
  | .failNext count => count
  | _ => 0

namespace ActiveFault

variable {node other : String} {f left : ActiveFault} {faults order : List ActiveFault} {g : Generator}
  {n k : Nat}

/-- The faults of a node. -/
def own (node : String) (faults : List ActiveFault) : List ActiveFault := faults.filter fun f => f.node = node

/-- **What so many calls leave of a fault** that fails the next ones. -/
def after (n : Nat) (f : ActiveFault) : Option ActiveFault :=
  if n = 0 then some f
  else if f.fault.count ≤ n then none
  else some { f with fault := .failNext (f.fault.count - n) }

def most (faults : List ActiveFault) : Nat := (faults.map fun f => f.fault.count).foldr max 0

/-- A node has no other faults than those that fail its next calls. -/
def Counting (node : String) (faults : List ActiveFault) : Prop :=
  ∀ f ∈ own node faults, ∃ count, f.fault = .failNext count

theorem mem_own : f ∈ own node faults ↔ f ∈ faults ∧ f.node = node := by
  simp [own]

theorem lt_most_iff : n < most faults ↔ ∃ f ∈ faults, n < f.fault.count := by
  induction faults with
  | nil => simp [most]
  | cons f rest ih =>
    have hmost : most (f :: rest) = max f.fault.count (most rest) := rfl
    have hlt : n < max f.fault.count (most rest) ↔ n < f.fault.count ∨ n < most rest := by omega
    rw [hmost, hlt, ih]
    simp only [List.mem_cons, exists_eq_or_imp]

/-! ## Counts -/

/-- What is left fails so many calls less. -/
theorem of_after (hf : ∃ count, f.fault = .failNext count) (h : f.after k = some left) :
    left.node = f.node ∧ left.number = f.number ∧ (∃ count, left.fault = .failNext count) ∧
      left.fault.count + k = f.fault.count := by
  unfold after at h
  split at h
  · rename_i hk
    cases h
    exact ⟨rfl, rfl, hf, by omega⟩
  · split at h
    · cases h
    · rename_i hcount
      cases h
      refine ⟨rfl, rfl, ⟨_, rfl⟩, ?_⟩
      show f.fault.count - k + k = _
      omega

theorem exists_after (h : k < f.fault.count) : ∃ left, f.after k = some left := by
  unfold after
  split
  · exact ⟨_, rfl⟩
  · exact ⟨_, if_neg (by omega)⟩

/-- **So many calls and then so many more.** -/
theorem after_add (hf : ∃ count, f.fault = .failNext count) (k n : Nat) :
    f.after (k + n) = (f.after k).bind (after n) := by
  obtain ⟨count, hcount⟩ := hf
  have hf : f.fault.count = count := by rw [hcount, Fault.count]
  unfold after
  by_cases hk : k = 0
  · simp [hk]
  · by_cases hn : n = 0
    · simp [hn]
    · rw [if_neg hk, if_neg (by omega), hf]
      by_cases hfew : count ≤ k
      · rw [if_pos hfew, if_pos (by omega), Option.bind_none]
      · have hleft : ({ f with fault := .failNext (count - k) } : ActiveFault).fault.count = count - k := rfl
        rw [if_neg hfew, Option.bind_some, if_neg hn, hleft]
        by_cases hmany : count ≤ k + n
        · rw [if_pos hmany, if_pos (by omega)]
        · rw [if_neg hmany, if_neg (by omega), Nat.sub_add_eq]

/-- A call to its node takes one from the count. -/
theorem leftBy_own (hf : ∃ count, f.fault = .failNext count) (hnode : f.node = node) :
    f.leftBy node = f.after 1 := by
  obtain ⟨count, hcount⟩ := hf
  unfold leftBy after
  rw [if_pos hnode, if_neg Nat.one_ne_zero, hcount]
  rcases count with _ | _ | count
  · rfl
  · rfl
  · simp [Fault.count]

theorem leftBy_other (hnode : f.node ≠ node) : f.leftBy node = some f := if_neg hnode

theorem node_of_leftBy (h : f.leftBy node = some left) : left.node = f.node := by
  unfold leftBy at h
  split at h
  · split at h
    · cases h
    · split at h
      · cases h
      · cases h
        rfl
    · cases h
      rfl
  · cases h
    rfl

theorem own_filterMap_leftBy (node other : String) (order : List ActiveFault) :
    own node (order.filterMap (leftBy other)) = (own node order).filterMap (leftBy other) := by
  unfold own
  rw [List.filter_filterMap, List.filterMap_filter]
  congr 1
  funext f
  cases hleft : f.leftBy other with
  | none => simp
  | some left =>
    have hnode := node_of_leftBy hleft
    by_cases hown : f.node = node <;> simp [hnode, hown]

/-- What a node's faults become, all fail the next calls, with so many calls less. -/
theorem lt_most_after (hcounting : Counting node faults) :
    n < most ((own node faults).filterMap (after k)) ↔ n + k < most (own node faults) := by
  rw [lt_most_iff, lt_most_iff]
  constructor
  · rintro ⟨left, hleft, hn⟩
    obtain ⟨f, hf, hafter⟩ := List.mem_filterMap.1 hleft
    obtain ⟨-, -, -, hcount⟩ := of_after (hcounting f hf) hafter
    exact ⟨f, hf, by omega⟩
  · rintro ⟨f, hf, hn⟩
    obtain ⟨left, hafter⟩ := exists_after (show k < f.fault.count by omega)
    obtain ⟨-, -, -, hcount⟩ := of_after (hcounting f hf) hafter
    exact ⟨left, List.mem_filterMap.2 ⟨f, hf, hafter⟩, by omega⟩

theorem lt_most_of_perm (h : faults.Perm order) : n < most faults ↔ n < most order := by
  simp only [lt_most_iff, h.mem_iff]

theorem Counting.of_perm (h : (own node faults).Perm (own node order)) (hcounting : Counting node order) :
    Counting node faults :=
  fun f hf => hcounting f (h.mem_iff.1 hf)

/-! ## One call -/

/-- Faults that fail the next calls neither delay nor draw. -/
theorem Counting.quiet (hcounting : Counting node faults) : delays node faults = [] ∧ rates node faults = [] := by
  have hquiet : ∀ f ∈ faults, f.delay? node = none ∧ f.rate? node = none := by
    intro f hf
    unfold delay? rate?
    by_cases hnode : f.node = node
    · obtain ⟨count, hcount⟩ := hcounting f (mem_own.2 ⟨hf, hnode⟩)
      rw [if_pos hnode, if_pos hnode, hcount]
      exact ⟨rfl, rfl⟩
    · exact ⟨if_neg hnode, if_neg hnode⟩
  exact ⟨List.filterMap_eq_nil_iff.2 fun f hf => (hquiet f hf).1,
    List.filterMap_eq_nil_iff.2 fun f hf => (hquiet f hf).2⟩

/-- **A call fails exactly if there is a count left.** -/
theorem Counting.failure (hcounting : Counting node faults) :
    (assess node faults g).failure =
      if 0 < most (own node faults) then some (NetworkError.connectionRefused node).toCallError else none := by
  rw [assess_failure, failures_eq_errors hcounting.quiet.2]
  have herror : ∀ f ∈ faults, ∀ e, f.error? node = some e ↔
      f.node = node ∧ 0 < f.fault.count ∧ e = (NetworkError.connectionRefused node).toCallError := by
    intro f hf e
    unfold error?
    by_cases hnode : f.node = node
    · obtain ⟨count, hcount⟩ := hcounting f (mem_own.2 ⟨hf, hnode⟩)
      rw [if_pos hnode, hcount]
      cases count <;> simp [hnode, Fault.count, eq_comm]
    · rw [if_neg hnode]
      simp [hnode]
  split
  · rename_i hleft
    obtain ⟨f, hf, hcount⟩ := lt_most_iff.1 hleft
    obtain ⟨hf, hnode⟩ := mem_own.1 hf
    apply getLast?_eq_of_forall_eq
    · exact List.mem_filterMap.2 ⟨f, hf, (herror f hf _).2 ⟨hnode, hcount, rfl⟩⟩
    · intro e he
      obtain ⟨f', hf', he⟩ := List.mem_filterMap.1 he
      exact ((herror f' hf' e).1 he).2.2
  · rename_i hnone
    rw [List.getLast?_eq_none_iff, List.filterMap_eq_nil_iff]
    intro f hf
    rw [Option.eq_none_iff_forall_ne_some]
    intro e he
    obtain ⟨hnode, hcount, -⟩ := (herror f hf e).1 he
    exact hnone (lt_most_iff.2 ⟨f, mem_own.2 ⟨hf, hnode⟩, hcount⟩)

end ActiveFault

open ActiveFault (own after most Counting)

namespace Transport

variable {node : String} {t ending : Transport} {order : List ActiveFault} {action : Action}
  {log : List (Action × Answer)}

/-- An action leaves the faults of a node alone. Dispatches may be to any node. -/
def Action.Spares (node : String) (faults : List ActiveFault) : Action → Prop
  | .inject other _ => other ≠ node
  | .heal number => ∀ f ∈ own node faults, f.number ≠ number
  | .healAll => False
  | .dispatch _ => True

/-- How many calls to a node an action is. -/
def Action.calls (node : String) : Action → Nat
  | .inject _ _ => 0
  | .heal _ => 0
  | .healAll => 0
  | .dispatch req => if req.node.id = node then 1 else 0

theorem filterMap_after_zero (faults : List ActiveFault) : faults.filterMap (after 0) = faults := by
  have hafter : after 0 = some := funext fun f => if_pos rfl
  rw [hafter, List.filterMap_some]

theorem own_inject {other : String} {fault : Fault} {number : Nat} {injected : Transport} (hother : other ≠ node)
    (h : t.inject other fault = .ok (number, injected)) : own node injected.faults = own node t.faults := by
  unfold inject at h
  split at h
  · cases h
    have hnone : own node [⟨t.nextNumber, other, fault⟩] = [] := by
      simp only [own, List.filter_eq_nil_iff, List.mem_singleton, decide_eq_true_eq, forall_eq]
      exact hother
    rw [own, List.filter_append, ← own, ← own, hnone, List.append_nil]
  · cases h

theorem own_heal {number : Nat} (hnumbers : ∀ f ∈ own node t.faults, f.number ≠ number) :
    own node (t.heal number).2.faults = own node t.faults := by
  unfold heal own
  rw [List.filter_filter]
  apply List.filter_congr
  intro f hf
  by_cases hnode : f.node = node
  · have hnumber : f.number ≠ number := hnumbers f (ActiveFault.mem_own.2 ⟨hf, hnode⟩)
    simp [hnode, hnumber]
  · simp [hnode]

theorem own_dispatch (horder : order.Perm t.faults) (hcounting : Counting node t.faults) (req : Request) :
    (own node (t.dispatch order req).network.faults).Perm
      ((own node t.faults).filterMap (after ((Action.dispatch req).calls node))) := by
  have hkept : (t.dispatch order req).network.faults = order.filterMap (ActiveFault.leftBy req.node.id) := assess_kept
  have hown : (own node order).Perm (own node t.faults) := horder.filter _
  rw [hkept, ActiveFault.own_filterMap_leftBy]
  refine (hown.filterMap _).trans (List.Perm.of_eq (List.filterMap_congr fun f hf => ?_))
  have hnode := (ActiveFault.mem_own.1 hf).2
  by_cases hcall : req.node.id = node
  · rw [Action.calls, if_pos hcall]
    exact ActiveFault.leftBy_own (hcounting f hf) (hnode.trans hcall.symm)
  · rw [Action.calls, if_neg hcall, ActiveFault.leftBy_other fun h => hcall (h.symm.trans hnode)]
    exact (if_pos rfl).symm

/-- **An action takes one from every count of a node** if it is a call to it, and leaves its faults as they are
if it is not. -/
theorem own_perform (horder : order.Perm t.faults) (hcounting : Counting node t.faults)
    (hspares : action.Spares node t.faults) :
    (own node (t.perform order action).2.faults).Perm
      ((own node t.faults).filterMap (after (action.calls node))) := by
  cases action with
  | inject other fault =>
    rw [Action.calls, filterMap_after_zero, perform]
    split
    · exact List.Perm.of_eq (own_inject hspares ‹_›)
    · exact List.Perm.refl _
  | heal number =>
    rw [Action.calls, filterMap_after_zero]
    exact List.Perm.of_eq (own_heal hspares)
  | healAll => exact hspares.elim
  | dispatch req => exact own_dispatch horder hcounting req

/-- What an action leaves are faults that fail the next calls too, with the numbers they had. -/
theorem own_of_perform (horder : order.Perm t.faults) (hcounting : Counting node t.faults)
    (hspares : action.Spares node t.faults) {left : ActiveFault}
    (hleft : left ∈ own node (t.perform order action).2.faults) :
    (∃ count, left.fault = .failNext count) ∧ ∃ f ∈ own node t.faults, left.number = f.number := by
  obtain ⟨f, hf, hafter⟩ := List.mem_filterMap.1 ((own_perform horder hcounting hspares).mem_iff.1 hleft)
  obtain ⟨-, hnumber, hcount, -⟩ := ActiveFault.of_after (hcounting f hf) hafter
  exact ⟨hcount, f, hf, hnumber⟩

/-- **A dispatch to the node fails exactly if there is a count left**, without delay. -/
theorem dispatch_counting (horder : order.Perm t.faults) (req : Request)
    (hcounting : Counting req.node.id t.faults) :
    (t.dispatch order req).delay = none ∧ (t.dispatch order req).reply =
      if 0 < most (own req.node.id t.faults) then .error (NetworkError.connectionRefused req.node.id).toCallError
        else .ok ⟨req.node.id, req.body⟩ := by
  have hown : (own req.node.id order).Perm (own req.node.id t.faults) := horder.filter _
  have horder_counting := hcounting.of_perm hown
  constructor
  · show (assess req.node.id order t.generator).delay = none
    rw [assess_delay, horder_counting.quiet.1, List.getLast?_nil]
  · show (assess req.node.id order t.generator).reply req = _
    rw [Assessment.reply, horder_counting.failure]
    simp only [ActiveFault.lt_most_of_perm hown]
    by_cases hleft : 0 < most (own req.node.id t.faults)
    · rw [if_pos hleft, if_pos hleft]
    · rw [if_neg hleft, if_neg hleft]

/-- The dispatch to a node that an entry of a run is, with what is seen of it. -/
def dispatched? (node : String) : Action × Except TimeError Sight → Option (Request × Except TimeError Sight)
  | (.dispatch req, seen) => if req.node.id = node then some (req, seen) else none
  | _ => none

/-- The dispatches of a run to a node, first one first. -/
def dispatches (node : String) (log : List (Action × Except TimeError Sight)) :
    List (Request × Except TimeError Sight) :=
  log.filterMap (dispatched? node)

theorem dispatches_cons (node : String) (entry : Action × Except TimeError Sight)
    (log : List (Action × Except TimeError Sight)) :
    dispatches node (entry :: log) = (dispatched? node entry).toList ++ dispatches node log :=
  filterMap_cons_toList _ _ _

theorem length_dispatched? (node : String) (action : Action) (seen : Except TimeError Sight) :
    (dispatched? node (action, seen)).toList.length = action.calls node := by
  cases action with
  | inject _ _ => rfl
  | heal _ => rfl
  | healAll => rfl
  | dispatch req =>
    rw [dispatched?, Action.calls]
    split <;> rfl

/-- **A node recovers** in a run that finds a network and leaves another: the dispatches to it fail until the
largest count of its faults is used up, all later ones send the request back, and none is delayed. Each
takes one from all counts, and nothing else takes any. So the node has no fault any more when they are
used up, and after one dispatch at least. -/
structure Recovers (node : String) (found : Transport) (log : List (Action × Except TimeError Sight))
    (ending : Transport) : Prop where
  replies : ∀ (k : Nat) req seen, (dispatches node log)[k]? = some (req, seen) → seen = .ok (.observed
    ⟨if k < most (own node found.faults) then .error (NetworkError.connectionRefused node).toCallError
      else .ok ⟨node, req.body⟩, 0⟩)
  left : (own node ending.faults).Perm ((own node found.faults).filterMap (after (dispatches node log).length))
  gone : max 1 (most (own node found.faults)) ≤ (dispatches node log).length → own node ending.faults = []

theorem filterMap_after_eq_nil {faults : List ActiveFault} {n : Nat} (hn : max 1 (most faults) ≤ n) :
    faults.filterMap (after n) = [] := by
  rw [List.filterMap_eq_nil_iff]
  intro f hf
  have hmost := mt ActiveFault.lt_most_iff.2 (Nat.lt_irrefl (most faults))
  have hnot : ¬most faults < f.fault.count := fun hlt => hmost ⟨f, hf, hlt⟩
  unfold ActiveFault.after
  rw [if_neg (by omega), if_pos (by omega)]

/-- The counts that a run leaves, from those that its first action leaves. -/
theorem left_cons {node : String} {t next ending : Transport} {k n : Nat} (hcounting : Counting node t.faults)
    (hfirst : (own node next.faults).Perm ((own node t.faults).filterMap (after k)))
    (hrest : (own node ending.faults).Perm ((own node next.faults).filterMap (after n))) :
    (own node ending.faults).Perm ((own node t.faults).filterMap (after (k + n))) := by
  refine (hrest.trans (hfirst.filterMap _)).trans (List.Perm.of_eq ?_)
  rw [List.filterMap_filterMap]
  apply List.filterMap_congr
  intro f hf
  exact (ActiveFault.after_add (hcounting f hf) k n).symm

/-- An action that leaves the faults of a node alone still does so later, when they have the same numbers. -/
theorem Action.Spares.later {faults later : List ActiveFault} (h : action.Spares node faults)
    (hnumbers : ∀ left ∈ own node later, ∃ f ∈ own node faults, left.number = f.number) :
    action.Spares node later := by
  cases action with
  | inject other fault => exact h
  | heal number =>
    intro left hleft
    obtain ⟨f, hf, hnumber⟩ := hnumbers left hleft
    rw [hnumber]
    exact h f hf
  | healAll => exact h
  | dispatch req => trivial

section Programs

variable {σ : Type} {env : Cell σ Env} {cell : Cell σ Transport} {s ending : σ}
  {log : List (Action × Except TimeError Sight)}

/-- What is seen of a dispatch to the node: it fails exactly if there is a count left. -/
theorem dispatched?_act (hapart : cell.Disjoint env) (ctx : Context) (action : Action)
    (hcounting : Counting node (cell.get s).faults) {req : Request} {seen : Except TimeError Sight}
    (h : dispatched? node (action, ((act env cell ctx action).runFrom s).1) = some (req, seen)) :
    seen = .ok (.observed ⟨if 0 < most (own node (cell.get s).faults)
      then .error (NetworkError.connectionRefused node).toCallError else .ok ⟨node, req.body⟩, 0⟩) := by
  cases action with
  | inject _ _ => cases h
  | heal _ => cases h
  | healAll => cases h
  | dispatch req =>
    rw [dispatched?] at h
    split at h
    · rename_i hcall
      subst hcall
      cases h
      obtain ⟨hprompt, hreply⟩ := dispatch_counting (.refl _) req hcounting
      rw [seen_dispatch hapart ctx req s hprompt, hreply]
    · cases h

/-- What holds of the dispatches of a run by their places, from what holds of the first action and of the rest. -/
theorem forall_dispatches_cons {P : Nat → Request → Except TimeError Sight → Prop}
    {entry : Action × Except TimeError Sight}
    (hfirst : ∀ req seen, dispatched? node entry = some (req, seen) → P 0 req seen)
    (hrest : ∀ (k : Nat) req seen, (dispatches node log)[k]? = some (req, seen) →
      P (k + entry.1.calls node) req seen) :
    ∀ (k : Nat) req seen, (dispatches node (entry :: log))[k]? = some (req, seen) → P k req seen := by
  intro k req seen hk
  have hcalls := length_dispatched? node entry.1 entry.2
  rw [← hcalls] at hrest
  rw [dispatches_cons] at hk
  cases hentry : dispatched? node entry with
  | none =>
    rw [hentry, Option.toList_none, List.nil_append] at hk
    simpa [hentry] using hrest k req seen hk
  | some shown =>
    rw [hentry, Option.toList_some, List.singleton_append] at hk
    cases k with
    | zero => exact hfirst req seen (hentry.trans hk)
    | succ k => simpa [hentry] using hrest k req seen hk

/-- The two laws of a run, each from those of its first action and of the rest. -/
theorem acts_counts (hcell : cell.Lawful) (hapart : cell.Disjoint env) (hacts : Acts env cell s log ending)
    (hcounting : Counting node (cell.get s).faults)
    (hspares : ∀ entry ∈ log, entry.1.Spares node (cell.get s).faults) :
    (∀ (k : Nat) req seen, (dispatches node log)[k]? = some (req, seen) → seen = .ok (.observed
      ⟨if k < most (own node (cell.get s).faults) then .error (NetworkError.connectionRefused node).toCallError
        else .ok ⟨node, req.body⟩, 0⟩)) ∧
    (own node (cell.get ending).faults).Perm
      ((own node (cell.get s).faults).filterMap (after (dispatches node log).length)) := by
  induction hacts with
  | nil s =>
    refine ⟨by simp [dispatches], ?_⟩
    rw [dispatches, List.filterMap_nil, List.length_nil, filterMap_after_zero]
  | @meanwhile s s' ending log halike _ ih =>
    -- the faults of the node are the same, in another order
    have hown : (own node (cell.get s').faults).Perm (own node (cell.get s).faults) :=
      halike.faults.symm.filter _
    obtain ⟨hreplies, hleft⟩ := ih (hcounting.of_perm hown) fun entry hentry =>
      (hspares entry hentry).later fun left hleft => ⟨left, hown.mem_iff.1 hleft, rfl⟩
    simp only [ActiveFault.lt_most_of_perm hown] at hreplies
    exact ⟨hreplies, hleft.trans (hown.filterMap _)⟩
  | @act s ending log ctx action _ ih =>
    have hfirst := hspares _ List.mem_cons_self
    have hnext := own_perform (.refl _) hcounting hfirst
    have hkept := fun left => @own_of_perform node (cell.get s) _ action (.refl _) hcounting hfirst left
    rw [← get_act hcell hapart ctx action s] at hnext hkept
    obtain ⟨hreplies, hending⟩ := ih (fun left h => (hkept left h).1) fun entry hentry =>
      (hspares entry (List.mem_cons_of_mem _ hentry)).later fun left h => (hkept left h).2
    refine ⟨forall_dispatches_cons (fun req seen => dispatched?_act hapart ctx action hcounting) ?_, ?_⟩
    · -- what is left after the first action fails fewer calls by one, or as many
      have hmost : ∀ n, n < most (own node (cell.get ((Transport.act env cell ctx action).runFrom s).2).faults) ↔
          n + action.calls node < most (own node (cell.get s).faults) := by
        intro n
        rw [ActiveFault.lt_most_of_perm hnext, ActiveFault.lt_most_after hcounting]
      simpa only [hmost] using hreplies
    · rw [dispatches_cons, List.length_append, length_dispatched?]
      exact left_cons hcounting hnext hending

/-- **A node that only fails its next calls recovers**, in any run of a program that leaves its faults alone. They
may be visited in another order at every dispatch, and anything may be done with other nodes in between. -/
theorem weathers (hcell : cell.Lawful) (hapart : cell.Disjoint env) (node : String) (s ending : σ)
    (log : List (Action × Except TimeError Sight)) (hcounting : Counting node (cell.get s).faults)
    (hacts : Acts env cell s log ending) (hspares : ∀ entry ∈ log, entry.1.Spares node (cell.get s).faults) :
    Recovers node (cell.get s) log (cell.get ending) := by
  obtain ⟨hreplies, hleft⟩ := acts_counts hcell hapart hacts hcounting hspares
  refine ⟨hreplies, hleft, ?_⟩
  intro hmany
  rw [filterMap_after_eq_nil hmany] at hleft
  exact hleft.eq_nil

end Programs

/-- Two nodes. One fails its next two calls, its next one and none, the other refuses all. -/
def stormy : Transport :=
  ⟨["n1", "n2"], [⟨0, "n2", .failNext 2⟩, ⟨1, "n1", .crash⟩, ⟨2, "n2", .failNext 0⟩, ⟨3, "n2", .failNext 1⟩], 4,
    .ofSeed 7, .empty⟩

/-- Calls to both nodes, while the second one's faults are left alone. -/
def weathered : List (Action × Except TimeError Sight) :=
  [(.dispatch ⟨.new "n2" "n2:80", "a"⟩,
      .ok (.observed ⟨.error (NetworkError.connectionRefused "n2").toCallError, 0⟩)),
    (.dispatch ⟨.new "n1" "n1:80", "b"⟩,
      .ok (.observed ⟨.error (NetworkError.connectionRefused "n1").toCallError, 0⟩)),
    (.heal 1, .ok (.healed true)),
    (.dispatch ⟨.new "n2" "n2:80", "c"⟩,
      .ok (.observed ⟨.error (NetworkError.connectionRefused "n2").toCallError, 0⟩)),
    (.inject "n1" (.latency 5), .ok (.injected (.ok 4))),
    (.dispatch ⟨.new "n2" "n2:80", "d"⟩, .ok (.observed ⟨.ok ⟨"n2", "d"⟩, 0⟩)),
    (.dispatch ⟨.new "n1" "n1:80", "e"⟩, .ok (.observed ⟨.ok ⟨"n1", "e"⟩, 5⟩))]

theorem weathers_storm : (Cell.second Env Transport).Lawful ∧
    (Cell.second Env Transport).Disjoint (Cell.first Env Transport) ∧
    Counting "n2" stormy.faults ∧ most (own "n2" stormy.faults) = 2 ∧
    (∀ entry ∈ weathered, entry.1.Spares "n2" stormy.faults) ∧
    ∃ ending, Acts (Cell.first Env Transport) (Cell.second Env Transport) (.start, stormy) weathered ending ∧
      Recovers "n2" stormy weathered ending.2 := by
  have hcell := Cell.second_lawful Env Transport
  have hapart : (Cell.second Env Transport).Disjoint (Cell.first Env Transport) :=
    ⟨fun _ _ => rfl, fun _ _ => rfl, fun _ _ _ => rfl⟩
  have hcounting : Counting "n2" stormy.faults := by simp [Counting, own, stormy]
  have hspares : ∀ entry ∈ weathered, entry.1.Spares "n2" stormy.faults := by
    simp [weathered, Action.Spares, own, stormy]
  -- the faults come to be listed in reverse now and then
  obtain ⟨ending, hacts⟩ : ∃ ending,
      Acts (Cell.first Env Transport) (Cell.second Env Transport) (.start, stormy) weathered ending :=
    ⟨_, .relisted hcell (List.reverse_perm _) <| .act .background _ <| .act .background _ <|
      .relisted hcell (List.reverse_perm _) <| .act .background _ <| .act .background _ <|
      .relisted hcell (List.reverse_perm _) <| .act .background _ <| .act .background _ <|
      .act .background _ <| .nil _⟩
  exact ⟨hcell, hapart, hcounting, by decide, hspares, ending, hacts,
    weathers hcell hapart "n2" (.start, stormy) ending weathered hcounting hacts hspares⟩

end Transport

end CallGuard
