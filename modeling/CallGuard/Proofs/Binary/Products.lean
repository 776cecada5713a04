import CallGuard.Proofs.Binary.Units

/-!
# Products and quotients of floats

The exact product or quotient of two floats need not be a whole number of units. Rounding
still passes no float that the exact value reaches, and floats are dense: a result is less
than the exact value by one part in `2 ^ 52` at most.

* `Binary.units_roundWithAccuracy`: what rounding does in units, below the smallest float too.
* `Binary.units_mul`, `Binary.units_div`: products and quotients pass no float that the exact values reach.
* `Binary.exists_below`, `Binary.exists_above`: next to every number of units there is a float.
* `Binary.Near.relative`, `Binary.quotient_relative`: how much rounding takes away.
-/

open Float.Model Float.Model.UnpackedFloat

namespace CallGuard.Binary

/-! ## Rounding with an accuracy -/

/-- The exponent that a rounded mantissa gets, if it does not carry. -/
def target (m : Nat) (e : Int) : Int := max (m.log2 + e - 52) (-1074)

/-- The bits that are kept when a mantissa is shifted to its exponent. -/
def kept (m : Nat) (e : Int) : Nat := m / 2 ^ (target m e - e).toNat

theorem mantissa_ofMantissaAndAccuracy (m : Nat) (a : Accuracy) :
    (ExtendedMantissa.ofMantissaAndAccuracy m a).mantissa = m := by
  cases a with
  | exact => rfl
  | inexact o => cases o <;> rfl

theorem kept_lt_pow (m : Nat) (e : Int) : kept m e < 2 ^ 53 := by
  rw [kept, Nat.div_lt_iff_lt_mul (Nat.two_pow_pos _), ← Nat.pow_add]
  exact Nat.lt_of_lt_of_le Nat.lt_log2_self (Nat.pow_le_pow_right (by decide) (by rw [target]; omega))

/-- A mantissa that is long enough keeps 53 bits, unless its exponent is the least. -/
theorem le_kept {m : Nat} {e : Int} (hm : 52 ≤ m.log2 ∨ e ≤ -1074) :
    2 ^ 52 ≤ kept m e ∨ target m e = -1074 := by
  by_cases hleast : target m e = -1074
  · exact .inr hleast
  · refine .inl ?_
    rw [target] at hleast
    have hlog : 52 + (target m e - e).toNat = m.log2 := by rw [target]; omega
    rw [kept, Nat.le_div_iff_mul_le (Nat.two_pow_pos _), ← Nat.pow_add, hlog]
    exact Nat.log2_self_le (by rintro rfl; simp at hlog)

/-- **What rounding does in units**: the bits that are kept are rounded up or not. -/
theorem units_roundWithAccuracy {m : Nat} {e : Int} (a : Accuracy) (hm : 52 ≤ m.log2 ∨ e ≤ -1074) :
    ∃ r, kept m e ≤ r ∧
      unitsOf (Float.Model.pack (roundWithAccuracy Format.binary64 .positive m e a)).unpack =
        some (min (r * 2 ^ (target m e + 1074).toNat) infinite) := by
  have hleast : -1074 ≤ target m e := Int.le_max_right _ _
  have hlong : e ≤ target m e := by rw [target]; omega
  obtain ⟨em, hem⟩ : ∃ em, em = (shiftToTargetExponent Format.binary64 m e a).1 := ⟨_, rfl⟩
  have hmantissa : em.mantissa = kept m e := by
    rw [hem, shiftToTargetExponent, target_eq, shiftToExponent, shifted_mantissa,
      mantissa_ofMantissaAndAccuracy]
    rfl
  have hfirst : shiftToTargetExponent Format.binary64 m e a = (em, target m e) := by
    refine Prod.ext hem.symm ?_
    rw [shiftToTargetExponent, target_eq, shiftToExponent]
    show e + ((target m e - e).toNat : Int) = target m e
    omega
  obtain ⟨hlow, hhigh⟩ := rounded_bounds em
  obtain ⟨r, hr⟩ : ∃ r, r = em.roundedMantissa := ⟨_, rfl⟩
  rw [hmantissa, ← hr] at hlow hhigh
  have hsecond := shiftToTargetExponent_rounded (r := r) (by have := kept_lt_pow m e; omega) hleast
  refine ⟨r, hlow, ?_⟩
  simp only [roundWithAccuracy, hfirst, ← hr, hsecond]
  rcases Nat.eq_zero_or_pos r with hzero | hpos
  · subst hzero
    simp only [show 0 < 2 ^ 53 by decide, if_true, dif_pos]
    rw [unpack_pack_zero, Nat.zero_mul, Nat.zero_min]
    rfl
  have hnormal := (le_kept hm).imp_left fun h => Nat.le_trans h hlow
  by_cases hlt : r < 2 ^ 53
  · simp only [if_pos hlt, dif_neg (Nat.ne_of_gt hpos)]
    exact unitsOf_pack_finite hpos ⟨hlt, hleast, hnormal⟩
  · -- half the mantissa at twice the unit is the same number
    have hcarry : r = 2 ^ 53 := by have := kept_lt_pow m e; omega
    have hexp : (target m e + 1 + 1074).toNat = (target m e + 1074).toNat + 1 := by omega
    simp only [if_neg hlt]
    rw [dif_neg (by decide), unitsOf_pack_finite (by decide) ⟨by decide, by omega, .inl (Nat.le_refl _)⟩,
      hexp, ← carry_eq, hcarry]

/-- **Rounding passes no float that the exact value reaches.** The exact value may be larger than its
mantissa says, by less than one. -/
theorem le_roundWithAccuracy {m : Nat} {e : Int} (a : Accuracy) (hm : 52 ≤ m.log2 ∨ e ≤ -1074) :
    ∃ c, unitsOf (Float.Model.pack (roundWithAccuracy Format.binary64 .positive m e a)).unpack = some c ∧
      ∀ n, Representable n → n ≤ infinite →
        (∀ d k : Nat, (k : Int) = e + 1074 + d → n * 2 ^ d < (m + 1) * 2 ^ k) → n ≤ c := by
  obtain ⟨r, hr, hunits⟩ := units_roundWithAccuracy a hm
  refine ⟨_, hunits, fun n hn hinf hlt => Nat.le_min.2 ⟨?_, hinf⟩⟩
  obtain ⟨μ, κ, hμ, rfl⟩ := hn
  obtain ⟨k, hk⟩ : ∃ k, k = (target m e + 1074).toNat := ⟨_, rfl⟩
  obtain ⟨d, hd⟩ : ∃ d, d = (target m e - e).toNat := ⟨_, rfl⟩
  have hleast : -1074 ≤ target m e := Int.le_max_right _ _
  have hlong : e ≤ target m e := by rw [target]; omega
  rw [← hk]
  rcases Nat.lt_or_ge κ k with hfine | hcoarse
  · -- what rounding keeps is larger than `n` with its bits further down
    have hr : 2 ^ 52 ≤ r := Nat.le_trans ((le_kept hm).resolve_right (by omega)) hr
    calc μ * 2 ^ κ ≤ 2 ^ 53 * 2 ^ κ := Nat.mul_le_mul_right _ (Nat.le_of_lt hμ)
      _ = 2 ^ 52 * 2 ^ (κ + 1) := carry_eq κ
      _ ≤ r * 2 ^ k := Nat.mul_le_mul hr (Nat.pow_le_pow_right (by decide) hfine)
  · obtain ⟨more, rfl⟩ : ∃ more, κ = k + more := ⟨κ - k, by omega⟩
    have hsplit : μ * 2 ^ (k + more) = μ * 2 ^ more * 2 ^ k := by
      rw [Nat.pow_add, Nat.mul_comm (2 ^ k), Nat.mul_assoc]
    have hlt := hlt d k (by omega)
    rw [hsplit, Nat.mul_right_comm] at hlt
    have hfits := Nat.le_of_lt_succ (Nat.lt_of_mul_lt_mul_right hlt)
    rw [kept, ← hd] at hr
    rw [hsplit]
    exact Nat.mul_le_mul_right _ (Nat.le_trans ((Nat.le_div_iff_mul_le (Nat.two_pow_pos _)).2 hfits) hr)

/-! ## Products and quotients -/

/-- A product of canonical mantissas is long enough. -/
theorem log2_mul_canonical {m m' : Nat} {e e' : Int} (hc : Canonical m e) (hc' : Canonical m' e') (hp : 0 < m)
    (hp' : 0 < m') : 52 ≤ (m * m').log2 ∨ e + e' ≤ -1074 := by
  have hlong : ∀ {a b : Nat}, 2 ^ 52 ≤ a → 0 < b → 52 ≤ (a * b).log2 := fun ha hb =>
    (Nat.le_log2 (Nat.ne_of_gt (Nat.mul_pos (by omega) hb))).2 (Nat.le_trans ha (Nat.le_mul_of_pos_right _ hb))
  rcases hc.normal with hm | he
  · exact .inl (hlong hm hp')
  · rcases hc'.normal with hm' | he'
    · exact .inl (Nat.mul_comm m' m ▸ hlong hm' hp)
    · exact .inr (by omega)

/-- **Products pass no float that the exact product reaches**, with a positive finite float. -/
theorem units_mul {x y : Float} {a b : Nat} (hx : units x = some a) (hy : units y = some b) (hb : 0 < b)
    (hfin : b < infinite) :
    ∃ c, units (x * y) = some c ∧ (a = 0 → c = 0) ∧
      ∀ n, Representable n → n ≤ infinite → n * one ≤ a * b → n ≤ c := by
  show ∃ c, unitsOf (Float.Model.pack
    (UnpackedFloat.mul Format.binary64 x.toModel.unpack y.toModel.unpack)).unpack = some c ∧ _
  rcases units_cases hy with ⟨s', huy, rfl⟩ | ⟨-, rfl⟩ | ⟨m', e', hp', huy, hc', he', rfl⟩
  · omega
  · omega
  · rcases units_cases hx with ⟨s, hux, rfl⟩ | ⟨hux, rfl⟩ | ⟨m, e, hp, hux, hc, he, rfl⟩ <;> rw [hux, huy]
    · refine ⟨0, congrArg unitsOf (unpack_pack_zero _), fun _ => rfl, fun n _ _ hle => ?_⟩
      rw [Nat.zero_mul] at hle
      exact Nat.le_of_eq ((Nat.mul_eq_zero.1 (Nat.le_zero.1 hle)).resolve_right (Nat.ne_of_gt one_pos))
    · have hinf : 0 < infinite := Nat.mul_pos (by decide) (Nat.two_pow_pos _)
      exact ⟨infinite, congrArg unitsOf (unpack_pack_infinity .positive), by omega, fun _ _ h _ => h⟩
    · have hpos := Nat.mul_pos hp (Nat.two_pow_pos (e + 1074).toNat)
      obtain ⟨c, hunits, hreach⟩ := le_roundWithAccuracy .exact (log2_mul_canonical hc hc' hp hp')
      refine ⟨c, hunits, by omega, fun n hn hinf hle => hreach n hn hinf fun d k hk => ?_⟩
      have hexp : (e + 1074).toNat + (e' + 1074).toNat + d = oneShift + k := by
        have := hc.least
        have := hc'.least
        rw [oneShift]
        omega
      refine Nat.lt_of_le_of_lt (m := m * m' * 2 ^ k) ?_ ((Nat.mul_lt_mul_right (Nat.two_pow_pos k)).2 (by omega))
      refine Nat.le_of_mul_le_mul_right ?_ one_pos
      calc n * 2 ^ d * one = n * one * 2 ^ d := Nat.mul_right_comm _ _ _
        _ ≤ m * 2 ^ (e + 1074).toNat * (m' * 2 ^ (e' + 1074).toNat) * 2 ^ d := Nat.mul_le_mul_right _ hle
        _ = m * m' * 2 ^ ((e + 1074).toNat + (e' + 1074).toNat + d) := by ring
        _ = m * m' * 2 ^ k * one := by rw [hexp, one]; ring

theorem log2_quotient {m m' shift : Nat} (hp : 0 < m) (hp' : 0 < m') (h : m'.log2 + 53 ≤ m.log2 + shift) :
    52 ≤ (m * 2 ^ shift / m').log2 := by
  have hle : 2 ^ 52 ≤ m * 2 ^ shift / m' := by
    rw [Nat.le_div_iff_mul_le hp']
    calc 2 ^ 52 * m' ≤ 2 ^ 52 * 2 ^ (m'.log2 + 1) := Nat.mul_le_mul_left _ (Nat.le_of_lt Nat.lt_log2_self)
      _ = 2 ^ (m'.log2 + 53) := by ring
      _ ≤ 2 ^ (m.log2 + shift) := Nat.pow_le_pow_right (by decide) h
      _ = 2 ^ m.log2 * 2 ^ shift := Nat.pow_add _ _ _
      _ ≤ m * 2 ^ shift := Nat.mul_le_mul_right _ (Nat.log2_self_le (Nat.ne_of_gt hp))
  exact (Nat.le_log2 (by omega)).2 hle

/-- **Division shifts the dividend** so far that the quotient of the mantissas is long enough. -/
theorem divCore_eq {m m' : Nat} (hp : 0 < m) (hp' : 0 < m') (e e' : Int) :
    ∃ (shift : Nat) (a : Accuracy), divCore Format.binary64 m e m' e' = (m * 2 ^ shift / m', e - e' - shift, a) ∧
      (52 ≤ (m * 2 ^ shift / m').log2 ∨ e - e' - shift ≤ -1074) := by
  obtain ⟨t, ht⟩ : ∃ t, t = Format.binary64.targetExponent (totalExponent m e - totalExponent m' e') := ⟨_, rfl⟩
  have htarget : t = max ((m.log2 + e) - (m'.log2 + e') - 53) (-1074) := by
    rw [ht]
    show max ((m.log2 : Int) + 1 + e - (m'.log2 + 1 + e') - ((1 + 52 : Nat) : Int))
      (3 - 2 ^ 10 - ((1 + 52 : Nat) : Int)) = _
    omega
  obtain ⟨shift, hshift⟩ : ∃ shift : Nat, shift = (e - e' - min (e - e') t).toNat := ⟨_, rfl⟩
  have hexp : min (e - e') t = e - e' - shift := by omega
  refine ⟨shift, accuracyOfFraction (m * 2 ^ shift % m') m', ?_, ?_⟩
  · rw [divCore, ← ht, ← hshift, hexp, Nat.shiftLeft_eq]
  · rcases Int.lt_or_le (-1074) (e - e' - shift) with hlow | hhigh
    · exact .inl (log2_quotient hp hp' (by omega))
    · exact .inr hhigh

/-- **Quotients pass no float that the exact quotient reaches**, by a positive finite float. -/
theorem units_div {x y : Float} {a b : Nat} (hx : units x = some a) (hy : units y = some b) (hb : 0 < b)
    (hfin : b < infinite) :
    ∃ c, units (x / y) = some c ∧
      ∀ n, Representable n → n ≤ infinite → n * b ≤ a * one → n ≤ c := by
  show ∃ c, unitsOf (Float.Model.pack
    (UnpackedFloat.div Format.binary64 x.toModel.unpack y.toModel.unpack)).unpack = some c ∧ _
  rcases units_cases hy with ⟨s', huy, rfl⟩ | ⟨-, rfl⟩ | ⟨m', e', hp', huy, hc', he', rfl⟩
  · omega
  · omega
  · rcases units_cases hx with ⟨s, hux, rfl⟩ | ⟨hux, rfl⟩ | ⟨m, e, hp, hux, hc, he, rfl⟩ <;> rw [hux, huy]
    · refine ⟨0, congrArg unitsOf (unpack_pack_zero _), fun n _ _ hle => ?_⟩
      rw [Nat.zero_mul] at hle
      exact Nat.le_of_eq ((Nat.mul_eq_zero.1 (Nat.le_zero.1 hle)).resolve_right (Nat.ne_of_gt hb))
    · exact ⟨infinite, congrArg unitsOf (unpack_pack_infinity .positive), fun _ _ h _ => h⟩
    · -- the dividend is shifted, and what division leaves over is less than the divisor
      obtain ⟨shift, acc, hcore, hlong⟩ := divCore_eq hp hp' e e'
      obtain ⟨c, hunits, hreach⟩ := le_roundWithAccuracy acc hlong
      refine ⟨c, ?_, fun n hn hinf hle => hreach n hn hinf fun d k hk => ?_⟩
      · rw [UnpackedFloat.div, hcore]
        exact hunits
      · have hexp : (e + 1074).toNat + oneShift + d = k + shift + (e' + 1074).toNat := by
          have := hc.least
          have := hc'.least
          rw [oneShift]
          omega
        have hexact : n * 2 ^ d * m' ≤ m * 2 ^ shift * 2 ^ k := by
          refine Nat.le_of_mul_le_mul_right ?_ (Nat.two_pow_pos (e' + 1074).toNat)
          calc n * 2 ^ d * m' * 2 ^ (e' + 1074).toNat = n * (m' * 2 ^ (e' + 1074).toNat) * 2 ^ d := by ring
            _ ≤ m * 2 ^ (e + 1074).toNat * one * 2 ^ d := Nat.mul_le_mul_right _ hle
            _ = m * 2 ^ ((e + 1074).toNat + oneShift + d) := by rw [one]; ring
            _ = m * 2 ^ shift * 2 ^ k * 2 ^ (e' + 1074).toNat := by rw [hexp]; ring
        have hrest : m * 2 ^ shift < (m * 2 ^ shift / m' + 1) * m' := Nat.lt_mul_of_div_lt (Nat.lt_succ_self _) hp'
        refine Nat.lt_of_mul_lt_mul_right (a := m') ?_
        calc n * 2 ^ d * m' ≤ m * 2 ^ shift * 2 ^ k := hexact
          _ < (m * 2 ^ shift / m' + 1) * m' * 2 ^ k := (Nat.mul_lt_mul_right (Nat.two_pow_pos k)).2 hrest
          _ = (m * 2 ^ shift / m' + 1) * 2 ^ k * m' := Nat.mul_right_comm _ _ _

/-! ## How much rounding takes away -/

/-- **Below every number of units there is a float**, by one part in `2 ^ 52` at most. -/
theorem exists_below (x : Nat) : ∃ n, Representable n ∧ n ≤ x ∧ 2 ^ 52 * x ≤ (2 ^ 52 + 1) * n := by
  obtain ⟨k, hk⟩ : ∃ k, k = x.log2 - 52 := ⟨_, rfl⟩
  have hlt := kept_lt x
  have hkept := kept_bits (n := x)
  rw [← hk] at hlt hkept
  refine ⟨x / 2 ^ k * 2 ^ k, ⟨x / 2 ^ k, k, hlt, rfl⟩, Nat.div_mul_le_self _ _, ?_⟩
  rcases Nat.eq_zero_or_pos k with rfl | hpos
  · rw [Nat.pow_zero, Nat.div_one, Nat.mul_one]
    omega
  · have hfew := Nat.lt_div_mul_add (a := x) (Nat.two_pow_pos k)
    have hmany : 2 ^ 52 * 2 ^ k ≤ x / 2 ^ k * 2 ^ k :=
      Nat.mul_le_mul_right _ ((Nat.le_div_iff_mul_le (Nat.two_pow_pos k)).2 (hkept hpos))
    omega

/-- **Above every number of units there is a float**, by one part in `2 ^ 52` at most. -/
theorem exists_above (x : Nat) : ∃ n, Representable n ∧ x ≤ n ∧ 2 ^ 52 * n ≤ (2 ^ 52 + 1) * x := by
  obtain ⟨k, hk⟩ : ∃ k, k = x.log2 - 52 := ⟨_, rfl⟩
  have hlt := kept_lt x
  have hkept := kept_bits (n := x)
  rw [← hk] at hlt hkept
  rcases Nat.eq_zero_or_pos k with rfl | hpos
  · rw [Nat.pow_zero, Nat.div_one] at hlt
    exact ⟨x, ⟨x, 0, hlt, (Nat.mul_one x).symm⟩, Nat.le_refl _, by omega⟩
  · have hdiv := Nat.div_mul_le_self x (2 ^ k)
    have hfew := Nat.lt_div_mul_add (a := x) (Nat.two_pow_pos k)
    have hmany := hkept hpos
    have hsucc := Nat.add_one_mul (x / 2 ^ k) (2 ^ k)
    refine ⟨(x / 2 ^ k + 1) * 2 ^ k, ?_, by omega, by omega⟩
    rcases Nat.lt_or_ge (x / 2 ^ k + 1) (2 ^ 53) with hless | hcarry
    · exact ⟨x / 2 ^ k + 1, k, hless, rfl⟩
    · exact ⟨2 ^ 52, k + 1, by decide, by rw [← carry_eq, show x / 2 ^ k + 1 = 2 ^ 53 by omega]⟩

/-- **A rounded result is less by one part in `2 ^ 52`** at most. -/
theorem Near.relative {exact result : Nat} (h : Near exact result) (hinf : exact ≤ infinite) :
    2 ^ 52 * exact ≤ (2 ^ 52 + 1) * result := by
  obtain ⟨n, hn, hle, hbound⟩ := exists_below exact
  have hreach := h.le n hn (Nat.le_trans hle hinf) hle
  omega

/-- **A quotient is less by one part in `2 ^ 52`** at most, and by a unit, where floats are sparse. -/
theorem quotient_relative {a b c : Nat} (hb : 0 < b) (hle : a * one ≤ infinite * b)
    (h : ∀ n, Representable n → n ≤ infinite → n * b ≤ a * one → n ≤ c) :
    2 ^ 52 * (a * one) ≤ (2 ^ 52 + 1) * ((c + 1) * b) := by
  obtain ⟨x, hx⟩ : ∃ x, x = a * one / b := ⟨_, rfl⟩
  have hexact : x * b ≤ a * one := hx ▸ Nat.div_mul_le_self _ _
  have hrest : a * one < x * b + b := hx ▸ Nat.lt_div_mul_add hb
  obtain ⟨n, hn, hnx, hbound⟩ := exists_below x
  have hinf : x ≤ infinite := Nat.le_of_mul_le_mul_right (Nat.le_trans hexact hle) hb
  have hreach := h n hn (Nat.le_trans hnx hinf) (Nat.le_trans (Nat.mul_le_mul_right _ hnx) hexact)
  calc 2 ^ 52 * (a * one) ≤ 2 ^ 52 * (x * b + b) := Nat.mul_le_mul_left _ (Nat.le_of_lt hrest)
    _ = (2 ^ 52 * x + 2 ^ 52) * b := by ring
    _ ≤ ((2 ^ 52 + 1) * c + (2 ^ 52 + 1)) * b := Nat.mul_le_mul_right _ (by omega)
    _ = (2 ^ 52 + 1) * ((c + 1) * b) := by ring

end CallGuard.Binary
