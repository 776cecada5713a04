import CallGuard.Proofs.Binary.Products
import CallGuard.Random.Generator
import Mathlib.Data.List.Forall2
import Mathlib.Data.List.Perm.Basic

/-!
# Numbers dealt out

A call draws a number for every fault that may lose it, and is lost if a number is below the
rate of its fault. The numbers are fixed by the generator, and the order of the visits deals them
out. Whether every deal has a number below its rate can be told by counting.

* `exists_deal`: numbers can be dealt out so that all reach their bounds, if enough of them reach each bound.
* `Binary.lt_iff_bound`: a float that is not negative is below another just as their units say.
* `Generator.units_unit`: a drawn number is a float that is not negative.
* `Generator.certain_iff`: **every deal has a number below its rate** exactly if fewer numbers reach some
  rate than rates do.
-/

namespace CallGuard

/-! ## Orders of a list -/

/-- Any order of what is read from a list comes from an order of the list. -/
theorem exists_perm_filterMap {α β : Type} {p : α → Option β} {l : List α} {d : List β}
    (h : d.Perm (l.filterMap p)) : ∃ order : List α, order.Perm l ∧ order.filterMap p = d := by
  induction d generalizing l with
  | nil => exact ⟨l, .refl l, h.nil_eq.symm⟩
  | cons x d ih =>
    obtain ⟨a, ha, hx⟩ := List.mem_filterMap.1 (h.subset List.mem_cons_self)
    obtain ⟨before, rest, rfl⟩ := List.append_of_mem ha
    have hmiddle : (before ++ a :: rest).Perm (a :: (before ++ rest)) := List.perm_middle
    have hrest : d.Perm ((before ++ rest).filterMap p) := by
      have hall := h.trans (hmiddle.filterMap p)
      rw [List.filterMap_cons_some hx] at hall
      exact hall.cons_inv
    obtain ⟨order, horder, hd⟩ := ih hrest
    refine ⟨a :: order, (horder.cons a).trans hmiddle.symm, ?_⟩
    rw [List.filterMap_cons_some hx, hd]

/-! ## Bounds -/

section Bounds

variable {numbers bounds : List Nat}

/-- If all numbers reach their bounds, as many reach any other one as bounds do. -/
theorem countP_le_of_reach (h : List.Forall₂ (fun n bound => bound ≤ n) numbers bounds) (t : Nat) :
    bounds.countP (t ≤ ·) ≤ numbers.countP (t ≤ ·) := by
  induction h with
  | nil => exact Nat.le_refl _
  | cons hreach _ ih =>
    simp only [List.countP_cons, decide_eq_true_eq]
    split <;> split <;> omega

/-- **Numbers that can be dealt out**: enough reach every bound. -/
theorem exists_deal (hlength : numbers.length = bounds.length)
    (henough : ∀ t ∈ bounds, bounds.countP (t ≤ ·) ≤ numbers.countP (t ≤ ·)) :
    ∃ dealt : List Nat, dealt.Perm bounds ∧ List.Forall₂ (fun n bound => bound ≤ n) numbers dealt := by
  induction hn : bounds.length generalizing numbers bounds with
  | zero =>
    rw [List.eq_nil_of_length_eq_zero hn, List.eq_nil_of_length_eq_zero (hlength.trans hn)]
    exact ⟨[], .refl _, .nil⟩
  | succ n ih =>
    obtain ⟨largest, hlargest⟩ : ∃ t, bounds.max? = some t := by
      cases hmax : bounds.max? with
      | some t => exact ⟨t, rfl⟩
      | none =>
        rw [List.max?_eq_none_iff] at hmax
        rw [hmax] at hn
        cases hn
    obtain ⟨hmem, hle⟩ := List.max?_eq_some_iff.1 hlargest
    -- the largest bound gets any number that reaches it, and the rest is dealt out in the same way
    have hreached : 0 < numbers.countP (largest ≤ ·) := by
      have hself : 0 < bounds.countP (largest ≤ ·) := List.countP_pos_iff.2 ⟨largest, hmem, by simp⟩
      exact Nat.lt_of_lt_of_le hself (henough largest hmem)
    obtain ⟨x, hx, hreach⟩ := List.countP_pos_iff.1 hreached
    have hreach : largest ≤ x := of_decide_eq_true hreach
    -- the number also reaches every other bound, so each count of both sides falls by one
    have hbounds := List.perm_cons_erase hmem
    have hnumbers := List.perm_cons_erase hx
    have hrest : (bounds.erase largest).length = n := by rw [List.length_erase_of_mem hmem, hn, Nat.add_sub_cancel]
    have hfewer : (numbers.erase x).length = (bounds.erase largest).length := by
      rw [List.length_erase_of_mem hx, List.length_erase_of_mem hmem, hlength]
    have hothers : ∀ t ∈ bounds.erase largest,
        (bounds.erase largest).countP (t ≤ ·) ≤ (numbers.erase x).countP (t ≤ ·) := by
      intro t ht
      have hmem_t := List.mem_of_mem_erase ht
      have ht_le : t ≤ largest := hle t hmem_t
      have hall := henough t hmem_t
      rw [hbounds.countP_eq, hnumbers.countP_eq, List.countP_cons, List.countP_cons, if_pos (by simpa using ht_le),
        if_pos (by simpa using Nat.le_trans ht_le hreach)] at hall
      exact Nat.le_of_succ_le_succ hall
    obtain ⟨dealt, hdealt, hdeals⟩ := ih hfewer hothers hrest
    obtain ⟨all, hall, hperm⟩ := List.perm_comp_forall₂ hnumbers (List.Forall₂.cons hreach hdeals)
    exact ⟨all, (hperm.trans (hdealt.cons largest)).trans hbounds.symm, hall⟩

/-- **Every deal has a number below its bound** exactly if fewer numbers reach some bound than bounds do. -/
theorem forall_deal_iff (hlength : numbers.length = bounds.length) :
    (∀ dealt : List Nat, dealt.Perm bounds → ∃ p ∈ numbers.zip dealt, p.1 < p.2) ↔
      ∃ t ∈ bounds, numbers.countP (t ≤ ·) < bounds.countP (t ≤ ·) := by
  constructor
  · intro hall
    by_contra hfew
    have henough : ∀ t ∈ bounds, bounds.countP (t ≤ ·) ≤ numbers.countP (t ≤ ·) := by
      intro t ht
      by_contra hlt
      exact hfew ⟨t, ht, Nat.lt_of_not_le hlt⟩
    obtain ⟨dealt, hdealt, hdeals⟩ := exists_deal hlength henough
    obtain ⟨p, hp, hlt⟩ := hall dealt hdealt
    have hreach := (List.forall₂_iff_zip.1 hdeals).2 hp
    omega
  · rintro ⟨t, -, hfew⟩ dealt hdealt
    by_contra hnone
    have hdeals : List.Forall₂ (fun n bound => bound ≤ n) numbers dealt := by
      refine List.forall₂_iff_zip.2 ⟨hlength.trans hdealt.length_eq.symm, ?_⟩
      intro a b hp
      by_contra hlt
      exact hnone ⟨(a, b), hp, Nat.lt_of_not_le hlt⟩
    have hcount := countP_le_of_reach hdeals t
    rw [hdealt.countP_eq] at hcount
    omega

end Bounds

/-! ## Draws and rates -/

namespace Binary

variable {x y r s : Float} {a b : Nat}

/-- The units that a float that is not negative must reach. -/
def bound (x : Float) : Nat := (units x).getD 0

theorem bound_eq (hx : units x = some a) : bound x = a := by rw [bound, hx, Option.getD_some]

/-- A float without units is not above one that has them. -/
theorem compare_of_no_units (hx : units x = some a) (hy : units y = none) :
    x.toModel.unpack.compare y.toModel.unpack = none ∨ x.toModel.unpack.compare y.toModel.unpack = some .gt := by
  by_cases hfin : y.isFinite
  · cases hcompare : x.toModel.unpack.compare y.toModel.unpack with
    | none => exact .inl rfl
    | some o =>
      by_cases ho : o = .gt
      · exact .inr (by rw [ho])
      · obtain ⟨b, hb, -⟩ := exists_units hx hcompare ho hfin
        rw [hb] at hy
        cases hy
  · have hfin : ¬y.toModel.unpack.isFinite = true := hfin
    have hnone : unitsOf y.toModel.unpack = none := hy
    cases hunpack : y.toModel.unpack with
    | zero sign => rw [hunpack] at hfin; exact absurd rfl hfin
    | finite sign m e hp => rw [hunpack] at hfin; exact absurd rfl hfin
    | notANumber =>
      rcases units_cases hx with ⟨_, hux, -⟩ | ⟨hux, -⟩ | ⟨_, _, _, hux, -⟩ <;> rw [hux] <;> exact .inl rfl
    | infinity sign =>
      cases sign with
      | positive => rw [hunpack] at hnone; cases hnone
      | negative =>
        rcases units_cases hx with ⟨_, hux, -⟩ | ⟨hux, -⟩ | ⟨_, _, _, hux, -⟩ <;> rw [hux] <;> exact .inr rfl

/-- **A float that is not negative is below another** just if it is in units. -/
theorem lt_iff_bound (hx : units x = some a) (y : Float) : x < y ↔ a < bound y := by
  cases hy : units y with
  | some b => rw [bound_eq hy, lt_iff hx hy]
  | none =>
    have hbound : bound y = 0 := by rw [bound, hy, Option.getD_none]
    have hnot : ¬x < y := by
      intro hlt
      have hlt := beq_iff_eq.1 (of_decide_eq_true
        (show decide ((x.toModel.unpack.compare y.toModel.unpack == some .lt) = true) = true from hlt))
      rcases compare_of_no_units hx hy with h | h <;> rw [h] at hlt <;> cases hlt
    rw [hbound]
    exact ⟨fun h => absurd h hnot, fun h => absurd h (Nat.not_lt_zero _)⟩

/-- A positive float is at most another just if it is in units. -/
theorem le_iff_bound (hr : 0 < bound r) (s : Float) : r ≤ s ↔ bound r ≤ bound s := by
  cases hunits : units r with
  | none =>
    rw [bound, hunits] at hr
    exact absurd hr (Nat.lt_irrefl 0)
  | some a =>
    rw [bound_eq hunits] at hr ⊢
    cases hs : units s with
    | some b => rw [bound_eq hs, le_iff hunits hs]
    | none =>
      have hbound : bound s = 0 := by rw [bound, hs, Option.getD_none]
      have hnot : ¬r ≤ s := by
        intro hle
        have hle := of_decide_eq_true
          (show decide ((r.toModel.unpack.compare s.toModel.unpack).any (·.isLE)) = true from hle)
        rcases compare_of_no_units hunits hs with h | h <;> rw [h] at hle <;> cases hle
      rw [hbound]
      exact ⟨fun h => absurd h hnot, fun h => absurd (Nat.lt_of_lt_of_le hr h) (Nat.lt_irrefl 0)⟩

theorem pow_lt_infinite {k : Nat} (hk : k < 52 + lastShift) : 2 ^ k < infinite := by
  rw [infinite, ← Nat.pow_add]
  exact Nat.pow_lt_pow_right Nat.one_lt_two hk

end Binary

namespace Generator

open Binary (units bound)

/-- The numbers drawn next. -/
def draws (g : Generator) : Nat → List Float
  | 0 => []
  | n + 1 => g.unit.1 :: g.unit.2.draws n

@[simp] theorem length_draws (g : Generator) (n : Nat) : (g.draws n).length = n := by
  induction n generalizing g with
  | zero => rfl
  | succ n ih => rw [draws, List.length_cons, ih]

/-- **A drawn number has units.** -/
theorem units_unit (g : Generator) : ∃ a, units g.unit.1 = some a := by
  have hstep : units (Float.ofBits 0x3ca0000000000000) = some (2 ^ 1021) := by decide +kernel
  obtain ⟨c, hc, -⟩ := Binary.units_toFloat (g.next.1 >>> 11)
  have hsmall : 1021 < 52 + Binary.lastShift := by rw [Binary.lastShift_eq]; decide
  obtain ⟨a, ha, -⟩ := Binary.units_mul hc hstep (pow_pos Nat.zero_lt_two 1021) (Binary.pow_lt_infinite hsmall)
  exact ⟨a, ha⟩

theorem units_draws (g : Generator) (n : Nat) {x : Float} (hx : x ∈ g.draws n) : ∃ a, units x = some a := by
  induction n generalizing g with
  | zero => cases hx
  | succ n ih =>
    rcases List.mem_cons.1 hx with rfl | hx
    · exact units_unit g
    · exact ih _ hx

variable {g : Generator}

theorem draw_lt_iff {n : Nat} {x : Float} (hx : x ∈ g.draws n) (r : Float) : x < r ↔ bound x < bound r := by
  obtain ⟨a, ha⟩ := units_draws g n hx
  rw [Binary.lt_iff_bound ha r, Binary.bound_eq ha]

theorem countP_draws (g : Generator) (n : Nat) (r : Float) :
    (g.draws n).countP (fun x => ¬x < r) = ((g.draws n).map bound).countP (bound r ≤ ·) := by
  rw [List.countP_map]
  apply List.countP_congr
  intro x hx
  simp only [Function.comp_apply, decide_eq_true_eq, draw_lt_iff hx, Nat.not_lt]

theorem countP_rates {r : Float} (hr : 0 < bound r) (rates : List Float) :
    rates.countP (fun s => r ≤ s) = (rates.map bound).countP (bound r ≤ ·) := by
  rw [List.countP_map]
  apply List.countP_congr
  intro s _
  simp only [Function.comp_apply, decide_eq_true_eq, Binary.le_iff_bound hr]

/-- A rate that is above one of the drawn numbers is positive. -/
theorem bound_pos {n : Nat} {r : Float} (hfew : ((g.draws n).map bound).countP (bound r ≤ ·) < n) :
    0 < bound r := by
  by_contra hzero
  have hall : ((g.draws n).map bound).countP (bound r ≤ ·) = ((g.draws n).map bound).length := by
    rw [List.countP_eq_length]
    intro x _
    simp only [decide_eq_true_eq]
    omega
  rw [hall, List.length_map, length_draws] at hfew
  exact Nat.lt_irrefl _ hfew

theorem forall_deal_map (g : Generator) (n : Nat) (rates : List Float) :
    (∀ dealt : List Float, dealt.Perm rates → ∃ p ∈ (g.draws n).zip dealt, p.1 < p.2) ↔
      ∀ dealt : List Nat, dealt.Perm (rates.map bound) →
        ∃ p ∈ ((g.draws n).map bound).zip dealt, p.1 < p.2 := by
  constructor
  · intro h dealt hdealt
    rw [← List.filterMap_eq_map] at hdealt
    obtain ⟨order, horder, rfl⟩ := exists_perm_filterMap hdealt
    obtain ⟨p, hp, hlt⟩ := h order horder
    refine ⟨(bound p.1, bound p.2), ?_, (draw_lt_iff (List.of_mem_zip hp).1 p.2).1 hlt⟩
    rw [List.filterMap_eq_map, List.zip_map]
    exact List.mem_map_of_mem hp
  · intro h dealt hdealt
    obtain ⟨p, hp, hlt⟩ := h (dealt.map bound) (hdealt.map bound)
    rw [List.zip_map] at hp
    obtain ⟨q, hq, rfl⟩ := List.mem_map.1 hp
    exact ⟨q, hq, (draw_lt_iff (List.of_mem_zip hq).1 q.2).2 hlt⟩

/-- **Every deal has a number below its rate** exactly if fewer numbers reach some rate than rates do. -/
theorem certain_iff (g : Generator) (rates : List Float) :
    (∀ dealt : List Float, dealt.Perm rates → ∃ p ∈ (g.draws rates.length).zip dealt, p.1 < p.2) ↔
      ∃ r ∈ rates, (g.draws rates.length).countP (fun x => ¬x < r) < rates.countP (fun s => r ≤ s) := by
  have hlength : ((g.draws rates.length).map bound).length = (rates.map bound).length := by
    rw [List.length_map, List.length_map, length_draws]
  rw [forall_deal_map, forall_deal_iff hlength]
  constructor
  · rintro ⟨t, ht, hfew⟩
    obtain ⟨r, hr, rfl⟩ := List.mem_map.1 ht
    have hless : (rates.map bound).countP (bound r ≤ ·) ≤ rates.length := by
      rw [← List.length_map bound]
      exact List.countP_le_length
    refine ⟨r, hr, ?_⟩
    rw [countP_draws, countP_rates (bound_pos (Nat.lt_of_lt_of_le hfew hless))]
    exact hfew
  · rintro ⟨r, hr, hfew⟩
    rw [countP_draws] at hfew
    have hpositive := bound_pos (Nat.lt_of_lt_of_le hfew List.countP_le_length)
    rw [countP_rates hpositive] at hfew
    exact ⟨bound r, List.mem_map_of_mem hr, hfew⟩

end Generator

end CallGuard
