import CallGuard.Proofs.Binary.Packing

/-!
# Rounding in units

A float that is not negative is a whole number of units of `2 ^ -1074`, the smallest
positive float. Rounding a number of units keeps its first 53 bits.

* `Binary.Rounds`: what rounding does to a number of units.
* `Binary.Rounds.eq`: a number that floats have is rounded to itself.
* `Binary.Rounds.le`: rounding does not pass a number that floats have.
* `Binary.round_units`: this is what the arithmetic of floats does.
-/

open Float.Model Float.Model.UnpackedFloat

namespace CallGuard.Binary

theorem shifted_mantissa (em : ExtendedMantissa) (k : Nat) :
    (em >>> k).mantissa = em.mantissa / 2 ^ k := by
  show (k.repeat ExtendedMantissa.shiftRightOne em).mantissa = _
  induction k with
  | zero => simp [Nat.repeat]
  | succ k ih => rw [Nat.repeat, ExtendedMantissa.shiftRightOne, ih, Nat.div_div_eq_div_mul, Nat.pow_succ]

/-- Shifting out zeros loses nothing. -/
theorem shifted_exact (m k : Nat) :
    (⟨m * 2 ^ k, false, false⟩ : ExtendedMantissa) >>> k = ⟨m, false, false⟩ := by
  show k.repeat ExtendedMantissa.shiftRightOne _ = _
  induction k generalizing m with
  | zero => simp [Nat.repeat]
  | succ k ih =>
    rw [Nat.repeat, Nat.pow_succ, Nat.mul_comm (2 ^ k) 2, ← Nat.mul_assoc, ih]
    simp [ExtendedMantissa.shiftRightOne]

theorem rounded_bounds (em : ExtendedMantissa) :
    em.mantissa ≤ em.roundedMantissa ∧ em.roundedMantissa ≤ em.mantissa + 1 := by
  obtain ⟨m, r, s⟩ := em
  cases r <;> cases s <;>
    simp only [ExtendedMantissa.roundedMantissa, ExtendedMantissa.accuracy, Accuracy.roundToNearestEven] <;> omega

theorem target_eq (m : Nat) (e : Int) :
    Format.binary64.targetExponent (totalExponent m e) = max (m.log2 + e - 52) (-1074) := by
  show max ((m.log2 : Int) + 1 + e - ((1 + 52 : Nat) : Int)) (3 - 2 ^ 10 - ((1 + 52 : Nat) : Int)) = _
  omega

/-- A mantissa of 53 bits stays, and one more carries into the exponent. -/
theorem shiftToTargetExponent_rounded {r : Nat} {e : Int} (hr : r ≤ 2 ^ 53) (he : -1074 ≤ e) :
    shiftToTargetExponent Format.binary64 r e .exact =
      if r < 2 ^ 53 then (⟨r, false, false⟩, e) else (⟨2 ^ 52, false, false⟩, e + 1) := by
  rw [shiftToTargetExponent, target_eq, shiftToExponent]
  split
  · rename_i hlt
    have hlog : r.log2 ≤ 52 := by
      by_cases hzero : r = 0
      · subst hzero; decide
      · have := (Nat.log2_lt (k := 53) hzero).2 hlt
        omega
    have hshift : (max ((r.log2 : Int) + e - 52) (-1074) - e).toNat = 0 := by omega
    rw [hshift]
    simp [ExtendedMantissa.ofMantissaAndAccuracy, HShiftRight.hShiftRight, Nat.repeat]
  · obtain rfl : r = 2 ^ 53 := by omega
    have hshift : (max (((2 ^ 53 : Nat).log2 : Int) + e - 52) (-1074) - e).toNat = 1 := by
      rw [Nat.log2_two_pow]
      omega
    rw [hshift]
    have hexact := shifted_exact (2 ^ 52) 1
    exact Prod.ext hexact rfl

/-- A number of units that some float has, if it is not too large. -/
def Representable (n : Nat) : Prop := ∃ m k, m < 2 ^ 53 ∧ n = m * 2 ^ k

/-- **Rounding in units**: the last 53 bits are kept, rounded up or not, and exactly if no other is set. -/
def Rounds (exact rounded : Nat) : Prop :=
  ∃ r, rounded = r * 2 ^ (exact.log2 - 52) ∧ exact / 2 ^ (exact.log2 - 52) ≤ r ∧
    (2 ^ (exact.log2 - 52) ∣ exact → r = exact / 2 ^ (exact.log2 - 52))

/-- The bits that rounding keeps are at least 52, if it drops any. -/
theorem kept_bits {n : Nat} (h : 0 < n.log2 - 52) : 2 ^ 52 * 2 ^ (n.log2 - 52) ≤ n := by
  have hn : n ≠ 0 := by rintro rfl; simp at h
  rw [← Nat.pow_add, show 52 + (n.log2 - 52) = n.log2 by omega]
  exact Nat.log2_self_le hn

theorem dvd_of_representable {n : Nat} (h : Representable n) : 2 ^ (n.log2 - 52) ∣ n := by
  obtain ⟨m, k, hm, rfl⟩ := h
  rcases Nat.lt_or_ge k ((m * 2 ^ k).log2 - 52) with hlt | hge
  · have hkept := kept_bits (n := m * 2 ^ k) (by omega)
    have hpow : 2 ^ (k + 1) ≤ 2 ^ ((m * 2 ^ k).log2 - 52) := Nat.pow_le_pow_right (by decide) hlt
    have hlarge : m * 2 ^ k < 2 ^ 53 * 2 ^ k := (Nat.mul_lt_mul_right (Nat.two_pow_pos k)).2 hm
    rw [Nat.pow_succ] at hpow
    omega
  · exact Nat.dvd_trans (Nat.pow_dvd_pow 2 hge) (Nat.dvd_mul_left _ _)

/-- **A number that floats have is rounded to itself.** -/
theorem Rounds.eq {exact rounded : Nat} (h : Rounds exact rounded) (hexact : Representable exact) :
    rounded = exact := by
  obtain ⟨r, rfl, -, hr⟩ := h
  have hdvd := dvd_of_representable hexact
  rw [hr hdvd, Nat.div_mul_cancel hdvd]

/-- A carry doubles the unit of the last place. -/
theorem carry_eq (k : Nat) : 2 ^ 53 * 2 ^ k = 2 ^ 52 * 2 ^ (k + 1) := by
  rw [Nat.pow_succ 2 k]
  omega

/-- **Rounding does not pass a number that floats have.** -/
theorem Rounds.le {exact rounded n : Nat} (h : Rounds exact rounded) (hn : Representable n)
    (hle : n ≤ exact) : n ≤ rounded := by
  obtain ⟨r, rfl, hr, -⟩ := h
  obtain ⟨m, k, hm, rfl⟩ := hn
  rcases Nat.lt_or_ge k (exact.log2 - 52) with hlt | hge
  · -- what rounding keeps is larger than `n` with its bits further down
    have hkept := kept_bits (n := exact) (by omega)
    have hr : 2 ^ 52 ≤ r := Nat.le_trans ((Nat.le_div_iff_mul_le (Nat.two_pow_pos _)).2 hkept) hr
    calc m * 2 ^ k ≤ 2 ^ 53 * 2 ^ k := Nat.mul_le_mul_right _ (Nat.le_of_lt hm)
      _ = 2 ^ 52 * 2 ^ (k + 1) := carry_eq k
      _ ≤ r * 2 ^ (exact.log2 - 52) := Nat.mul_le_mul hr (Nat.pow_le_pow_right (by decide) hlt)
  · obtain ⟨d, rfl⟩ : ∃ d, k = exact.log2 - 52 + d := ⟨k - (exact.log2 - 52), by omega⟩
    have hmul : m * 2 ^ (exact.log2 - 52 + d) = m * 2 ^ d * 2 ^ (exact.log2 - 52) := by
      rw [Nat.pow_add, Nat.mul_comm (2 ^ (exact.log2 - 52)), Nat.mul_assoc]
    rw [hmul] at hle ⊢
    exact Nat.mul_le_mul_right _
      (Nat.le_trans ((Nat.le_div_iff_mul_le (Nat.two_pow_pos _)).2 hle) hr)

theorem log2_mul_two_pow {m : Nat} (hm : 0 < m) (k : Nat) : (m * 2 ^ k).log2 = m.log2 + k := by
  refine (Nat.log2_eq_iff (Nat.ne_of_gt (Nat.mul_pos hm (Nat.two_pow_pos k)))).2 ⟨?_, ?_⟩
  · rw [Nat.pow_add]
    exact Nat.mul_le_mul_right _ (Nat.log2_self_le (by omega))
  · rw [show m.log2 + k + 1 = m.log2 + 1 + k by omega, Nat.pow_add]
    exact (Nat.mul_lt_mul_right (Nat.two_pow_pos k)).2 Nat.lt_log2_self

/-- Where rounding begins: the exponent is at most the target one, and nothing is lost yet. -/
theorem decreased {m : Nat} {e : Int} {k : Nat} (hm : 0 < m) (he : -1074 ≤ e) :
    ∃ m' d : Nat, decreaseExponent m e (k - 1074) = (m', (k : Int) - 1074 - d) ∧ 0 < m' ∧ d ≤ k ∧
      m * 2 ^ (e + 1074).toNat = m' * 2 ^ (k - d) := by
  rw [decreaseExponent, Nat.shiftLeft_eq]
  -- an exponent below the target one stays, a larger one comes down to it
  rcases Int.lt_or_le e ((k : Int) - 1074) with hlt | hge
  · obtain ⟨d, hd⟩ : ∃ d : Nat, (d : Int) = (k : Int) - 1074 - e := ⟨((k : Int) - 1074 - e).toNat, by omega⟩
    have hzero : (e - ((k : Int) - 1074)).toNat = 0 := by omega
    refine ⟨m, d, ?_, hm, by omega, ?_⟩
    · rw [hzero, Nat.pow_zero, Nat.mul_one]
      exact Prod.ext rfl (by show e - ((0 : Nat) : Int) = _; omega)
    · congr 2
      omega
  · obtain ⟨d, hd⟩ : ∃ d : Nat, (d : Int) = e - ((k : Int) - 1074) := ⟨(e - ((k : Int) - 1074)).toNat, by omega⟩
    have hpow : (e - ((k : Int) - 1074)).toNat = d := by omega
    refine ⟨m * 2 ^ d, 0, ?_, Nat.mul_pos hm (Nat.two_pow_pos d), Nat.zero_le _, ?_⟩
    · rw [hpow]
      exact Prod.ext rfl (by show e - (d : Int) = k - 1074 - ((0 : Nat) : Int); omega)
    · rw [Nat.mul_assoc, ← Nat.pow_add]
      congr 2
      omega

/-- The bits that are kept, before rounding. -/
theorem kept_lt (n : Nat) : n / 2 ^ (n.log2 - 52) < 2 ^ 53 := by
  rw [Nat.div_lt_iff_lt_mul (Nat.two_pow_pos _), ← Nat.pow_add]
  exact Nat.lt_of_lt_of_le Nat.lt_log2_self (Nat.pow_le_pow_right (by decide) (by omega))

/-- A rounded mantissa and its exponent are canonical, after a carry if need be. -/
theorem canonical_carried {n r : Nat} (hr : n / 2 ^ (n.log2 - 52) ≤ r) :
    if r < 2 ^ 53 then Canonical r ((n.log2 - 52 : Nat) - 1074)
    else Canonical (2 ^ 52) ((n.log2 - 52 : Nat) - 1074 + 1) := by
  split
  · rename_i hlt
    refine ⟨hlt, by omega, ?_⟩
    rcases Nat.eq_zero_or_pos (n.log2 - 52) with hzero | hpos
    · exact .inr (by omega)
    · exact .inl (Nat.le_trans ((Nat.le_div_iff_mul_le (Nat.two_pow_pos _)).2 (kept_bits hpos)) hr)
  · exact ⟨by decide, by omega, .inl (Nat.le_refl _)⟩

/-- The first step of rounding finds the bits that are kept, and whether others are set. -/
theorem round_first {m : Nat} {e : Int} {n k : Nat} (hm : 0 < m) (he : -1074 ≤ e)
    (hn : n = m * 2 ^ (e + 1074).toNat) (hk : k = n.log2 - 52) :
    ∃ m' e' em, UnpackedFloat.round Format.binary64 .positive m e =
        roundWithAccuracy Format.binary64 .positive m' e' .exact ∧
      shiftToTargetExponent Format.binary64 m' e' .exact = (em, (k : Int) - 1074) ∧
      em.mantissa = n / 2 ^ k ∧ (2 ^ k ∣ n → em.roundedMantissa = n / 2 ^ k) := by
  have hlog : n.log2 = m.log2 + (e + 1074).toNat := by rw [hn, log2_mul_two_pow hm]
  have htarget : max ((m.log2 : Int) + e - 52) (-1074) = (k : Int) - 1074 := by omega
  obtain ⟨m', d, hdecrease, hm', hd, hunits⟩ := decreased (k := k) hm he
  rw [← hn] at hunits
  rw [hunits, log2_mul_two_pow hm'] at hlog
  have hpow : 2 ^ k = 2 ^ d * 2 ^ (k - d) := by rw [← Nat.pow_add]; congr 1; omega
  have hkept : ((⟨m', false, false⟩ : ExtendedMantissa) >>> d).mantissa = n / 2 ^ k := by
    rw [shifted_mantissa, hunits, hpow, Nat.mul_div_mul_right _ _ (Nat.two_pow_pos _)]
  refine ⟨m', (k : Int) - 1074 - d, (⟨m', false, false⟩ : ExtendedMantissa) >>> d, ?_, ?_, hkept, ?_⟩
  · rw [UnpackedFloat.round, target_eq, htarget, hdecrease]
  · have hshift : (max ((m'.log2 : Int) + (k - 1074 - d) - 52) (-1074) - (k - 1074 - d)).toNat = d := by
      omega
    rw [shiftToTargetExponent, target_eq, shiftToExponent, hshift]
    exact Prod.ext rfl (by show (k : Int) - 1074 - d + d = _; omega)
  · intro hdvd
    rw [hpow, hunits] at hdvd
    obtain ⟨c, rfl⟩ := Nat.dvd_of_mul_dvd_mul_right (Nat.two_pow_pos _) hdvd
    rw [← hkept, Nat.mul_comm, shifted_exact]
    rfl

/-- The second step of rounding carries. -/
theorem round_second {m m' : Nat} {e e₁ e' : Int} {em : ExtendedMantissa} {low high : Bool}
    (hfirst : shiftToTargetExponent Format.binary64 m e .exact = (em, e₁))
    (hsecond : shiftToTargetExponent Format.binary64 em.roundedMantissa e₁ .exact =
      (⟨m', low, high⟩, e')) (hp : 0 < m') :
    roundWithAccuracy Format.binary64 .positive m e .exact = .finite .positive m' e' hp := by
  simp only [roundWithAccuracy, hfirst, hsecond]
  exact dif_neg (Nat.ne_of_gt hp)

/-- **What rounding does in units**, to an exponent that only a carry takes past the last place that is kept. -/
theorem round_units {m : Nat} {e : Int} (hm : 0 < m) (he : -1074 ≤ e) :
    ∃ m' e', ∃ hp : 0 < m', UnpackedFloat.round Format.binary64 .positive m e = .finite .positive m' e' hp ∧
      Canonical m' e' ∧ Rounds (m * 2 ^ (e + 1074).toNat) (m' * 2 ^ (e' + 1074).toNat) ∧
      e' ≤ ((m * 2 ^ (e + 1074).toNat).log2 - 52 : Nat) - 1073 := by
  obtain ⟨n, hn⟩ : ∃ n, n = m * 2 ^ (e + 1074).toNat := ⟨_, rfl⟩
  obtain ⟨k, hk⟩ : ∃ k, k = n.log2 - 52 := ⟨_, rfl⟩
  obtain ⟨m₁, e₁, em, hround, hfirst, hkept, hexact⟩ := round_first hm he hn hk
  obtain ⟨hlow, hhigh⟩ := rounded_bounds em
  obtain ⟨r, hr⟩ : ∃ r, r = em.roundedMantissa := ⟨_, rfl⟩
  rw [hkept, ← hr] at hlow hhigh
  rw [← hr] at hexact
  -- a carry makes 54 bits at most, and all of them but the first are zero then
  have hmost : r ≤ 2 ^ 53 := by
    have := kept_lt n
    rw [← hk] at this
    omega
  have hpos : 0 < r := by
    rcases Nat.eq_zero_or_pos k with hzero | hkpos
    · rw [hzero, Nat.pow_zero, Nat.div_one] at hlow
      have hn : 0 < n := by rw [hn]; exact Nat.mul_pos hm (Nat.two_pow_pos _)
      omega
    · have := (Nat.le_div_iff_mul_le (Nat.two_pow_pos k)).2 (hk ▸ kept_bits (hk ▸ hkpos))
      omega
  have hcanonical := canonical_carried (hk ▸ hlow)
  have hsecond : shiftToTargetExponent Format.binary64 em.roundedMantissa (k - 1074) .exact =
      if r < 2 ^ 53 then (⟨r, false, false⟩, (k : Int) - 1074) else (⟨2 ^ 52, false, false⟩, k - 1074 + 1) := by
    rw [← hr]
    exact shiftToTargetExponent_rounded hmost (by omega)
  have hrounds : Rounds n (r * 2 ^ k) :=
    ⟨r, by rw [← hk], by rw [← hk]; exact hlow, by rw [← hk]; exact hexact⟩
  rw [← hk] at hcanonical
  rw [hround, ← hn]
  by_cases hlt : r < 2 ^ 53
  · rw [if_pos hlt] at hsecond hcanonical
    refine ⟨r, k - 1074, hpos, round_second hfirst hsecond hpos, hcanonical, ?_, by omega⟩
    have hexp : ((k : Int) - 1074 + 1074).toNat = k := by omega
    rw [hexp]
    exact hrounds
  · rw [if_neg hlt] at hsecond hcanonical
    refine ⟨2 ^ 52, k - 1074 + 1, by decide, round_second hfirst hsecond (by decide), hcanonical, ?_, by omega⟩
    -- half the mantissa at twice the unit is the same number
    have hexp : ((k : Int) - 1074 + 1 + 1074).toNat = k + 1 := by omega
    rw [hexp, ← carry_eq, show 2 ^ 53 = r by omega]
    exact hrounds

end CallGuard.Binary
