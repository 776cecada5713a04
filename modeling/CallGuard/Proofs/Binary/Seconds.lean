import CallGuard.Proofs.Binary.Products
import CallGuard.Time.Seconds

/-!
# Seconds in units

A span is read as a float and written back from one. Reading loses one part in `2 ^ 51`
and writing half a nanosecond, so that a span which is longer than the one written, by a
nanosecond and by one part in `2 ^ 48`, is read as more seconds than were written.

* `Binary.ofFloat?_units`: the exact value of a float is its units.
* `Span.units_toFloat`: what reading a span as seconds loses.
* `Span.le_ofFloat`: what writing a span from seconds loses.
* `Span.outlasts`: **a span that is a little longer is read as more seconds.**
-/

open Float.Model Float.Model.UnpackedFloat

namespace CallGuard

namespace Binary

/-! ## The exact value of a float -/

theorem toNat_unpackMantissa (b : BitVec 64) :
    (@unpackMantissa Format.binary64 b).toNat = b.toNat % implicitBit := by
  show (b.extractLsb 51 0).toNat = _
  rw [BitVec.extractLsb_toNat, Nat.shiftRight_zero]
  rfl

theorem toNat_unpackExponent (b : BitVec 64) :
    (@unpackExponent Format.binary64 b).toNat = b.toNat / implicitBit % 2048 := by
  show (b.extractLsb 62 52).toNat = _
  rw [BitVec.extractLsb_toNat, Nat.shiftRight_eq_div_pow]
  rfl

theorem unpackSign_positive {b : BitVec 64} (h : Sign.ofBitVec (@unpackSign Format.binary64 b) = .positive) :
    b.toNat < 2048 * implicitBit := by
  have hbit : @unpackSign Format.binary64 b = 0#1 := by
    rw [Sign.ofBitVec] at h
    split at h
    · assumption
    · cases h
  have hzero : (b.extractLsb 63 63).toNat = 0 := congrArg BitVec.toNat hbit
  rw [BitVec.extractLsb_toNat, Nat.shiftRight_eq_div_pow] at hzero
  have := b.isLt
  rw [implicitBit]
  omega

/-- A float with units has its sign bit clear, unless it is zero. -/
theorem sign_of_units {s : Sign} {m : Nat} {e : Int} {hp : 0 < m} {q : Nat}
    (h : unitsOf (.finite s m e hp) = some q) : s = .positive ∧ q = m * 2 ^ (e + 1074).toNat := by
  cases s with
  | negative => cases h
  | positive => exact ⟨rfl, (Option.some.inj h).symm⟩

/-- **The exact value of a float is its units**, unless it is infinite. Only a zero may have its sign bit
set. -/
theorem ofFloat?_units {x : Float} {q : Nat} (hx : units x = some q) :
    (q = infinite ∧ ofFloat? x = none) ∨
      ∃ v, ofFloat? x = some v ∧ (v.negative && !v.isZero) = false ∧ -1074 ≤ v.exponent ∧
        q = v.mantissa * 2 ^ (v.exponent + 1074).toNat := by
  obtain ⟨b, hb⟩ : ∃ b, b = x.toModel.toBits.toBitVec := ⟨_, rfl⟩
  obtain ⟨field, hfield⟩ : ∃ f : BitVec 11, f = @unpackExponent Format.binary64 b := ⟨_, rfl⟩
  obtain ⟨frac, hfrac⟩ : ∃ f : BitVec 52, f = @unpackMantissa Format.binary64 b := ⟨_, rfl⟩
  have hbits : x.toBits.toNat = b.toNat := by rw [hb]; rfl
  have hbiased : b.toNat / implicitBit % 2048 = field.toNat := by rw [hfield, toNat_unpackExponent]
  have hfraction : b.toNat % implicitBit = frac.toNat := by rw [hfrac, toNat_unpackMantissa]
  have hbias : ((Format.binary64.exponentBias : Nat) : Int) = 1023 := rfl
  rw [units, Float.Model.unpack, UnpackedFloat.unpack] at hx
  simp only [← hb, ← hfield, ← hfrac, hbias] at hx
  simp only [ofFloat?, hbits, hbiased, hfraction]
  by_cases hones : field = -1#11
  · have hmost : field.toNat = 2047 := by rw [hones]; rfl
    rw [if_pos hones] at hx
    rw [if_pos hmost]
    split at hx
    · refine .inl ⟨?_, rfl⟩
      cases hs : Sign.ofBitVec (@unpackSign Format.binary64 b) with
      | negative => rw [hs] at hx; cases hx
      | positive => rw [hs] at hx; exact (Option.some.inj hx).symm
    · cases hx
  · have hmost : field.toNat ≠ 2047 := fun h => hones (BitVec.toNat_inj.1 h)
    rw [if_neg hones] at hx
    rw [if_neg hmost]
    refine .inr ?_
    by_cases hzero : field = 0#11
    · have hleast : field.toNat = 0 := by rw [hzero]; rfl
      rw [if_pos hzero] at hx
      rw [if_pos hleast]
      split at hx
      · rename_i hnone
        have hnone : frac.toNat = 0 := by rw [hnone]; rfl
        refine ⟨_, rfl, by simp [Binary.isZero, hnone], Int.le_refl _, ?_⟩
        rw [hnone, Nat.zero_mul]
        exact (Option.some.inj hx).symm
      · obtain ⟨hs, rfl⟩ := sign_of_units hx
        have := unpackSign_positive hs
        refine ⟨_, rfl, by simp [show ¬2048 * implicitBit ≤ b.toNat by omega], Int.le_refl _, ?_⟩
        rw [hzero]
        rfl
    · have hleast : field.toNat ≠ 0 := fun h => hzero (BitVec.toNat_inj.1 h)
      rw [if_neg hzero] at hx
      rw [if_neg hleast]
      obtain ⟨hs, rfl⟩ := sign_of_units hx
      have := unpackSign_positive hs
      refine ⟨_, rfl, by simp [show ¬2048 * implicitBit ≤ b.toNat by omega], by dsimp only; omega, ?_⟩
      rw [toNat_implicit]
      rfl

end Binary

namespace Span

open Binary

/-! ## Writing seconds -/

/-- Rounding to the nearest whole number takes away a half at most. -/
theorem le_roundEven (num : Nat) {den : Nat} (hden : 0 < den) :
    2 * num ≤ (2 * roundEven num den + 1) * den := by
  have hdiv := Nat.div_add_mod num den
  have hmod := Nat.mod_lt num hden
  rw [roundEven]
  split
  · rw [Nat.add_mul, Nat.mul_assoc, Nat.mul_comm (num / den) den]
    omega
  · split
    · rw [Nat.add_mul, Nat.mul_assoc, Nat.add_mul, Nat.mul_comm (num / den) den]
      omega
    · rw [Nat.add_mul, Nat.mul_assoc, Nat.add_mul, Nat.mul_comm (num / den) den]
      omega

/-- Half a nanosecond at most is lost when units are written as nanoseconds. -/
theorem le_nanosOfBinary (m : Nat) {e : Int} (he : -1074 ≤ e) :
    2 * (nanosPerSecond * (m * 2 ^ (e + 1074).toNat)) ≤ (2 * nanosOfBinary m e + 1) * one := by
  rw [nanosOfBinary]
  split
  · have hone : one = 2 ^ e.natAbs * 2 ^ (e + 1074).toNat := by
      rw [one, oneShift, ← Nat.pow_add]
      congr 1
      omega
    have hround := le_roundEven (nanosPerSecond * m) (Nat.two_pow_pos e.natAbs)
    rw [hone]
    calc 2 * (nanosPerSecond * (m * 2 ^ (e + 1074).toNat))
        = 2 * (nanosPerSecond * m) * 2 ^ (e + 1074).toNat := by ring
      _ ≤ (2 * roundEven (nanosPerSecond * m) (2 ^ e.natAbs) + 1) * 2 ^ e.natAbs * 2 ^ (e + 1074).toNat :=
        Nat.mul_le_mul_right _ hround
      _ = _ := Nat.mul_assoc _ _ _
  · have hexp : 2 ^ (e + 1074).toNat = 2 ^ e.natAbs * one := by
      rw [one, oneShift, ← Nat.pow_add]
      congr 1
      omega
    rw [hexp]
    calc 2 * (nanosPerSecond * (m * (2 ^ e.natAbs * one)))
        = 2 * (nanosPerSecond * m * 2 ^ e.natAbs) * one := by ring
      _ ≤ (2 * (nanosPerSecond * m * 2 ^ e.natAbs) + 1) * one := Nat.mul_le_mul_right _ (Nat.le_succ _)

/-- **Writing a span loses half a nanosecond at most**, if it is shorter than the longest one. -/
theorem le_ofFloat {x : Float} {q : Nat} (hx : units x = some q) (hshort : (ofFloat x).nanos < maxNanos) :
    q < infinite ∧ 2 * (nanosPerSecond * q) ≤ (2 * (ofFloat x).nanos + 1) * one := by
  rcases ofFloat?_units hx with ⟨-, hnone⟩ | ⟨v, hv, hsign, hleast, hq⟩
  · rw [ofFloat, ofFloat?, hnone] at hshort
    exact absurd hshort (Nat.lt_irrefl _)
  · have hspan : ofFloat? x = if h : nanosOfBinary v.mantissa v.exponent ≤ maxNanos then
        some ⟨nanosOfBinary v.mantissa v.exponent, h⟩ else none := by
      rw [ofFloat?, hv]
      simp only [hsign]
      rfl
    by_cases hn : nanosOfBinary v.mantissa v.exponent ≤ maxNanos
    · rw [ofFloat, hspan, dif_pos hn, Option.getD_some]
      have hle := le_nanosOfBinary v.mantissa hleast
      rw [← hq] at hle
      refine ⟨?_, hle⟩
      have hfew := lt_infinite_of_le (n := 2 ^ 65) (by decide)
      have hmost : (2 * nanosOfBinary v.mantissa v.exponent + 1) * one ≤ nanosPerSecond * 2 ^ 65 * one := by
        refine Nat.mul_le_mul_right _ ?_
        rw [maxNanos] at hn
        rw [nanosPerSecond]
        omega
      rw [Nat.mul_assoc] at hmost
      rw [nanosPerSecond] at hmost hle
      omega
    · rw [ofFloat, hspan, dif_neg hn] at hshort
      exact absurd hshort (Nat.lt_irrefl _)

/-! ## Reading seconds -/

theorem units_billion : units 1000000000.0 = some (nanosPerSecond * one) := by decide +kernel

theorem seconds_lt (s : Span) : s.seconds < 2 ^ 64 := by
  have h := s.nanos_le
  rw [maxNanos] at h
  rw [seconds, nanosPerSecond]
  omega

theorem subsecond_lt (s : Span) : s.subsecond < nanosPerSecond := Nat.mod_lt _ (by decide)

/-- **The fraction of a second** loses one part in `2 ^ 52` at most, and a unit. -/
theorem units_subsecond (s : Span) :
    ∃ f, units (s.subsecond.toUInt64.toFloat / 1000000000.0) = some f ∧
      2 ^ 52 * (s.subsecond * one) ≤ (2 ^ 52 + 1) * (nanosPerSecond * (f + 1)) := by
  have hlt := s.subsecond_lt
  rw [nanosPerSecond] at hlt
  obtain ⟨b, hb, hnear⟩ := Binary.units_toFloat s.subsecond.toUInt64
  rw [show s.subsecond.toUInt64.toNat = s.subsecond from Nat.mod_eq_of_lt (by omega)] at hnear
  have hfew := lt_infinite_of_le (n := s.subsecond) (by omega)
  -- few nanoseconds are a float exactly
  rw [hnear.eq ⟨s.subsecond, oneShift, by omega, rfl⟩ (Nat.le_of_lt hfew)] at hb
  have hpos : 0 < nanosPerSecond * one := Nat.mul_pos (by decide) Binary.one_pos
  obtain ⟨f, hf, hreach⟩ := units_div hb units_billion hpos (lt_infinite_of_le (by decide))
  refine ⟨f, hf, ?_⟩
  have hle : s.subsecond * one * one ≤ infinite * (nanosPerSecond * one) := by
    rw [← Nat.mul_assoc]
    exact Nat.mul_le_mul_right _ (Nat.le_trans (Nat.le_of_lt hfew) (Nat.le_mul_of_pos_right _ (by decide)))
  refine Nat.le_of_mul_le_mul_right ?_ Binary.one_pos
  calc 2 ^ 52 * (s.subsecond * one) * one = 2 ^ 52 * (s.subsecond * one * one) := Nat.mul_assoc _ _ _
    _ ≤ (2 ^ 52 + 1) * ((f + 1) * (nanosPerSecond * one)) := quotient_relative hpos hle hreach
    _ = (2 ^ 52 + 1) * (nanosPerSecond * (f + 1)) * one := by ring

/-- **Reading a span loses one part in `2 ^ 51`** or so, and a unit. -/
theorem units_seconds (s : Span) :
    ∃ t, units s.toFloat = some t ∧
      2 ^ 104 * (s.nanos * one) ≤ (2 ^ 52 + 1) ^ 2 * (nanosPerSecond * (t + 1)) := by
  have hlt := s.seconds_lt
  obtain ⟨w, hw, hwhole⟩ := Binary.units_toFloat s.seconds.toUInt64
  rw [show s.seconds.toUInt64.toNat = s.seconds from Nat.mod_eq_of_lt hlt] at hwhole
  have hwhole := hwhole.relative (Nat.le_of_lt (lt_infinite_of_le (by omega)))
  obtain ⟨f, hf, hfraction⟩ := s.units_subsecond
  obtain ⟨t, ht, hsum⟩ := units_add hw hf
  refine ⟨t, ht, ?_⟩
  have hnanos : s.nanos = nanosPerSecond * s.seconds + s.subsecond := (Nat.div_add_mod _ _).symm
  rcases Nat.le_total (w + f) infinite with hle | hge
  · have hsum := hsum.relative hle
    calc 2 ^ 104 * (s.nanos * one)
        = 2 ^ 52 * (nanosPerSecond * (2 ^ 52 * (s.seconds * one)) + 2 ^ 52 * (s.subsecond * one)) := by
          rw [hnanos]; ring
      _ ≤ 2 ^ 52 * (nanosPerSecond * ((2 ^ 52 + 1) * w) + (2 ^ 52 + 1) * (nanosPerSecond * (f + 1))) :=
          Nat.mul_le_mul_left _ (Nat.add_le_add (Nat.mul_le_mul_left _ hwhole) hfraction)
      _ = (2 ^ 52 + 1) * (nanosPerSecond * (2 ^ 52 * (w + f) + 2 ^ 52)) := by ring
      _ ≤ (2 ^ 52 + 1) * (nanosPerSecond * ((2 ^ 52 + 1) * t + (2 ^ 52 + 1))) :=
          Nat.mul_le_mul_left _ (Nat.mul_le_mul_left _ (Nat.add_le_add hsum (by decide)))
      _ = (2 ^ 52 + 1) ^ 2 * (nanosPerSecond * (t + 1)) := by ring
  · -- no span is that long
    have hinf := hsum.le infinite representable_infinite (Nat.le_refl _) hge
    have hlong : s.nanos * one ≤ nanosPerSecond * infinite := by
      have hsec := lt_infinite_of_le (n := s.seconds + 1) (by omega)
      have hsub := s.subsecond_lt
      calc s.nanos * one ≤ nanosPerSecond * (s.seconds + 1) * one := Nat.mul_le_mul_right _ (by rw [Nat.mul_add_one]; omega)
        _ = nanosPerSecond * ((s.seconds + 1) * one) := Nat.mul_assoc _ _ _
        _ ≤ nanosPerSecond * infinite := Nat.mul_le_mul_left _ (Nat.le_of_lt hsec)
    refine Nat.mul_le_mul (by decide) (Nat.le_trans hlong (Nat.mul_le_mul_left _ (by omega)))

/-- **A span that is a little longer than the one written is read as more seconds**, also if it is read
with three further roundings. -/
theorem outlasts {x : Float} {q : Nat} (hx : units x = some q) (hshort : (ofFloat x).nanos < maxNanos)
    {s : Span} (hs : (ofFloat x).nanos + 1 + (ofFloat x).nanos / 2 ^ 48 ≤ s.nanos) :
    ∃ t, units s.toFloat = some t ∧ (2 ^ 52 + 1) ^ 3 * (q + 1) ≤ 2 ^ 156 * t := by
  obtain ⟨-, hwrite⟩ := le_ofFloat hx hshort
  obtain ⟨t, ht, hread⟩ := s.units_seconds
  refine ⟨t, ht, ?_⟩
  obtain ⟨w, hw⟩ : ∃ w, w = (ofFloat x).nanos := ⟨_, rfl⟩
  rw [← hw] at hwrite hs
  rw [nanosPerSecond] at hwrite hread
  have hone : 2 ^ 40 ≤ one := Nat.pow_le_pow_right (by decide) (by rw [oneShift]; decide)
  -- five roundings in all lose six parts in `2 ^ 52` at most
  have hmargin : (2 ^ 52 + 6) * ((2 * w + 1) * one + 2000000000) + 2 ^ 54 * 1000000000 ≤
      2 ^ 53 * (s.nanos * one) := by
    have hlong := Nat.mul_le_mul_right one hs
    have hfew := Nat.mul_le_mul_right one (show w + 1 ≤ 2 ^ 48 * (w / 2 ^ 48 + 1) by omega)
    rw [Nat.add_mul, Nat.add_mul, Nat.one_mul] at hlong
    rw [Nat.add_mul, Nat.one_mul, Nat.mul_assoc, Nat.add_mul, Nat.one_mul] at hfew
    rw [Nat.add_mul (2 * w), Nat.one_mul, Nat.mul_assoc 2 w]
    omega
  refine Nat.le_of_mul_le_mul_left (c := 2000000000 * (2 ^ 52 + 1) ^ 2) ?_ (by norm_num)
  refine Nat.le_of_add_le_add_right (b := 2 ^ 208 * (2 ^ 54 * 1000000000)) ?_
  calc 2000000000 * (2 ^ 52 + 1) ^ 2 * ((2 ^ 52 + 1) ^ 3 * (q + 1)) + 2 ^ 208 * (2 ^ 54 * 1000000000)
      = (2 ^ 52 + 1) ^ 5 * (2 * (1000000000 * q) + 2000000000) + 2 ^ 208 * (2 ^ 54 * 1000000000) := by ring
    _ ≤ 2 ^ 208 * (2 ^ 52 + 6) * ((2 * w + 1) * one + 2000000000) + 2 ^ 208 * (2 ^ 54 * 1000000000) :=
        Nat.add_le_add_right (Nat.mul_le_mul (by norm_num) (Nat.add_le_add_right hwrite _)) _
    _ = 2 ^ 208 * ((2 ^ 52 + 6) * ((2 * w + 1) * one + 2000000000) + 2 ^ 54 * 1000000000) := by ring
    _ ≤ 2 ^ 208 * (2 ^ 53 * (s.nanos * one)) := Nat.mul_le_mul_left _ hmargin
    _ = 2 ^ 157 * (2 ^ 104 * (s.nanos * one)) := by ring
    _ ≤ 2 ^ 157 * ((2 ^ 52 + 1) ^ 2 * (1000000000 * (t + 1))) := Nat.mul_le_mul_left _ hread
    _ = 2000000000 * (2 ^ 52 + 1) ^ 2 * (2 ^ 156 * t) + 2 ^ 157 * ((2 ^ 52 + 1) ^ 2 * 1000000000) := by ring
    _ ≤ 2000000000 * (2 ^ 52 + 1) ^ 2 * (2 ^ 156 * t) + 2 ^ 208 * (2 ^ 54 * 1000000000) :=
        Nat.add_le_add_left (by norm_num) _

end Span

end CallGuard
