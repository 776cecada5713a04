import Mathlib

/-!
# Packed floats

A float is 64 bits, and arithmetic is done on an unpacked form: a sign, a mantissa and
an exponent. A form with at most 53 bits of mantissa, and fewer only at the least
exponent, is packed and unpacked without loss.

* `Binary.unpack_pack`: packing keeps a canonical float, unless it is too large to be finite.
* `Binary.canonical_unpack`: every float is unpacked canonically.
-/

open Float.Model Float.Model.UnpackedFloat

namespace CallGuard.Binary

/-- **The form in which every float is unpacked**: 53 bits at most, and fewer only at the least exponent. -/
structure Canonical (m : Nat) (e : Int) : Prop where
  lt : m < 2 ^ 53
  least : -1074 ≤ e
  normal : 2 ^ 52 ≤ m ∨ e = -1074

/-- The implicit bit of a normal float counts. -/
theorem toNat_implicit (m : BitVec 52) : (1#1 ++ m).toNat = 2 ^ 52 + m.toNat := by
  rw [BitVec.toNat_append, ← Nat.shiftLeft_add_eq_or_of_lt m.isLt]
  rfl

/-- The bits of a finite float, by its exponent field. -/
theorem pack_finite (s : Sign) {m b : Nat} {e : Int} (hp : 0 < m) (hb : b = (e + 1075).toNat) :
    UnpackedFloat.pack Format.binary64 (.finite s m e hp) =
      if 2048 ≤ b + 1 then packedInfinity Format.binary64 s
      else if m.log2 + 1 = 53 then
        packComponents Format.binary64 s (BitVec.ofNat 11 b) (BitVec.ofNat 52 m)
      else packComponents Format.binary64 s 0#11 (BitVec.ofNat 52 m) := by
  have hfield : (e + Format.binary64.exponentBias + Format.binary64.mantissaBitsWithoutImplicit).toNat = b := by
    show (e + ((1023 : Nat) : Int) + ((52 : Nat) : Int)).toNat = b
    omega
  rw [UnpackedFloat.pack]
  simp only [hfield]
  rfl

/-- A normal float is read back from its fields. -/
theorem unpack_normal (s : Sign) (e : BitVec 11) (m : BitVec 52) (hinf : e ≠ -1#11) (hsub : e ≠ 0#11) :
    UnpackedFloat.unpack Format.binary64 (packComponents Format.binary64 s e m) =
      .finite s (2 ^ 52 + m.toNat) (e.toNat - 1075) (by omega) := by
  unfold UnpackedFloat.unpack
  simp only [unpackMantissa_packComponents, unpackExponent_packComponents, unpackSign_packComponents,
    Sign.ofBitVec_toBitVec, toNat_implicit]
  rw [if_neg hinf, if_neg hsub]
  rfl

/-- A float below the normal ones is read back from its fields. -/
theorem unpack_subnormal (s : Sign) (m : BitVec 52) (hm : 0 < m.toNat) :
    UnpackedFloat.unpack Format.binary64 (packComponents Format.binary64 s 0#11 m) =
      .finite s m.toNat (-1074) hm := by
  have hzero : m ≠ 0#52 := by
    rintro rfl
    exact absurd hm (by decide)
  unfold UnpackedFloat.unpack
  simp only [unpackMantissa_packComponents, unpackExponent_packComponents, unpackSign_packComponents,
    Sign.ofBitVec_toBitVec]
  rw [if_neg (by decide), if_pos trivial, dif_neg hzero]
  rfl

theorem unpack_packedInfinity (s : Sign) :
    UnpackedFloat.unpack Format.binary64 (packedInfinity Format.binary64 s) = .infinity s := by
  simp [UnpackedFloat.unpack, packedInfinity]

/-- **Packing keeps a canonical float**, unless it is too large to be finite. -/
theorem unpack_pack (s : Sign) {m : Nat} {e : Int} (hp : 0 < m) (hc : Canonical m e) :
    (Float.Model.pack (.finite s m e hp)).unpack =
      if e ≤ 971 then .finite s m e hp else .infinity s := by
  obtain ⟨hlt, hleast, hnormal⟩ := hc
  show UnpackedFloat.unpack Format.binary64 (UnpackedFloat.pack Format.binary64 _) = _
  obtain ⟨b, hb⟩ : ∃ b, b = (e + 1075).toNat := ⟨_, rfl⟩
  rw [pack_finite s hp hb]
  by_cases hmost : e ≤ 971
  · rw [if_pos hmost, if_neg (by omega)]
    by_cases hlow : 2 ^ 52 ≤ m
    · have hlog : m.log2 = 52 := (Nat.log2_eq_iff (by omega)).2 ⟨hlow, hlt⟩
      have hfield : (BitVec.ofNat 11 b).toNat = b := by
        rw [BitVec.toNat_ofNat, Nat.mod_eq_of_lt (by omega)]
      have hfrac : (BitVec.ofNat 52 m).toNat = m - 2 ^ 52 := by
        rw [BitVec.toNat_ofNat]
        omega
      have hinf : BitVec.ofNat 11 b ≠ -1#11 := by
        rw [ne_eq, ← BitVec.toNat_inj, hfield]
        show ¬b = 2047
        omega
      have hsub : BitVec.ofNat 11 b ≠ 0#11 := by
        rw [ne_eq, ← BitVec.toNat_inj, hfield]
        show ¬b = 0
        omega
      rw [if_pos (by omega), unpack_normal s _ _ hinf hsub]
      congr 1 <;> omega
    · obtain rfl := hnormal.resolve_left hlow
      have hfrac : (BitVec.ofNat 52 m).toNat = m := by
        rw [BitVec.toNat_ofNat, Nat.mod_eq_of_lt (by omega)]
      have hlog := (Nat.log2_lt (k := 52) (by omega)).2 (by omega : m < 2 ^ 52)
      rw [if_neg (by omega), unpack_subnormal s _ (by omega)]
      congr 1
  · rw [if_neg hmost, if_pos (by omega)]
    exact unpack_packedInfinity s

/-- **Every float is unpacked canonically.** -/
theorem canonical_unpack {x : Float.Model} {s : Sign} {m : Nat} {e : Int} {hp : 0 < m}
    (h : x.unpack = .finite s m e hp) : Canonical m e ∧ e ≤ 971 := by
  have hbias : ((Format.binary64.exponentBias : Nat) : Int) = 1023 := rfl
  obtain ⟨field, hfield⟩ : ∃ b : BitVec 11, b = @unpackExponent Format.binary64 x.toBits.toBitVec := ⟨_, rfl⟩
  obtain ⟨frac, hfrac⟩ : ∃ b : BitVec 52, b = @unpackMantissa Format.binary64 x.toBits.toBitVec := ⟨_, rfl⟩
  have hlt := frac.isLt
  unfold Float.Model.unpack UnpackedFloat.unpack at h
  simp only [← hfield, ← hfrac, hbias] at h
  by_cases hones : field = -1#11
  · rw [if_pos hones] at h
    split at h <;> cases h
  · rw [if_neg hones] at h
    by_cases hzero : field = 0#11
    · subst hzero
      rw [if_pos rfl] at h
      split at h
      · cases h
      · cases h
        exact ⟨⟨by omega, by decide, .inr (by decide)⟩, by decide⟩
    · rw [if_neg hzero] at h
      have hmost : field.toNat ≠ 2047 := fun h => hones (BitVec.toNat_inj.1 h)
      have hleast : field.toNat ≠ 0 := fun h => hzero (BitVec.toNat_inj.1 h)
      have hwidth := field.isLt
      cases h
      rw [toNat_implicit]
      exact ⟨⟨by omega, by omega, .inl (by omega)⟩, by omega⟩

end CallGuard.Binary
