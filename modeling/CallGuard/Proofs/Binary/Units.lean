import CallGuard.Proofs.Binary.Rounding

/-!
# Floats in units

Floats that are not negative compare as their units, and their sums and differences are
those of the units, rounded. Infinity counts as more units than any finite float has.

* `Binary.le_iff`, `Binary.lt_iff`: floats compare as their units.
* `Binary.units_add`, `Binary.units_sub`: sums and differences are exact, then rounded.
-/

open Float.Model Float.Model.UnpackedFloat

namespace CallGuard.Binary

/-- How far a mantissa would be shifted for the first power of two that is no float. -/
@[irreducible]
def lastShift : Nat := 2046

theorem lastShift_eq : lastShift = 2046 := by rw [lastShift]

/-- The units of infinity, more than any finite float has. -/
def infinite : Nat := 2 ^ 52 * 2 ^ lastShift

/-- The units of an unpacked float that is not negative. -/
def unitsOf : UnpackedFloat → Option Nat
  | .zero _ => some 0
  | .infinity .positive => some infinite
  | .finite .positive m e _ => some (m * 2 ^ (e + 1074).toNat)
  | _ => none

/-- **The units of a float** that is not negative; infinity has more than any other. -/
def units (x : Float) : Option Nat := unitsOf x.toModel.unpack

theorem lt_infinite {m : Nat} {e : Int} (hc : Canonical m e) (he : e ≤ 971) :
    m * 2 ^ (e + 1074).toNat < infinite := by
  have hshift : (e + 1074).toNat + 1 ≤ lastShift := by rw [lastShift_eq]; omega
  calc m * 2 ^ (e + 1074).toNat < 2 ^ 53 * 2 ^ (e + 1074).toNat :=
        (Nat.mul_lt_mul_right (Nat.two_pow_pos _)).2 hc.lt
    _ = 2 ^ 52 * 2 ^ ((e + 1074).toNat + 1) := carry_eq _
    _ ≤ infinite := Nat.mul_le_mul_left _ (Nat.pow_le_pow_right (by decide) hshift)

theorem infinite_le {m : Nat} {e : Int} (hc : Canonical m e) (he : 971 < e) :
    infinite ≤ m * 2 ^ (e + 1074).toNat := by
  have hlow : 2 ^ 52 ≤ m := hc.normal.resolve_right (by omega)
  have hshift : lastShift ≤ (e + 1074).toNat := by rw [lastShift_eq]; omega
  exact Nat.mul_le_mul hlow (Nat.pow_le_pow_right (by decide) hshift)

/-- Packing keeps the units, up to infinity. -/
theorem unitsOf_pack_finite {m : Nat} {e : Int} (hp : 0 < m) (hc : Canonical m e) :
    unitsOf (Float.Model.pack (.finite .positive m e hp)).unpack =
      some (min (m * 2 ^ (e + 1074).toNat) infinite) := by
  rw [unpack_pack .positive hp hc]
  split
  · rename_i he
    rw [Nat.min_eq_left (Nat.le_of_lt (lt_infinite hc he))]
    rfl
  · rename_i he
    rw [Nat.min_eq_right (infinite_le hc (by omega))]
    rfl

theorem unpack_pack_zero (s : Sign) : (Float.Model.pack (.zero s)).unpack = .zero s := unpack_packedZero

theorem unpack_pack_infinity (s : Sign) : (Float.Model.pack (.infinity s)).unpack = .infinity s :=
  unpack_packedInfinity s

/-- The forms of a float that is not negative. -/
theorem units_cases {x : Float} {n : Nat} (h : units x = some n) :
    (∃ s, x.toModel.unpack = .zero s ∧ n = 0) ∨
    (x.toModel.unpack = .infinity .positive ∧ n = infinite) ∨
    ∃ m e, ∃ hp : 0 < m, x.toModel.unpack = .finite .positive m e hp ∧ Canonical m e ∧ e ≤ 971 ∧
      n = m * 2 ^ (e + 1074).toNat := by
  unfold units at h
  cases hx : x.toModel.unpack with
  | notANumber => rw [hx] at h; cases h
  | zero s =>
    rw [hx] at h
    cases h
    exact .inl ⟨s, rfl, rfl⟩
  | infinity s =>
    rw [hx] at h
    cases s with
    | negative => cases h
    | positive =>
      cases h
      exact .inr (.inl ⟨rfl, rfl⟩)
  | finite s m e hp =>
    obtain ⟨hc, he⟩ := canonical_unpack hx
    rw [hx] at h
    cases s with
    | negative => cases h
    | positive =>
      cases h
      exact .inr (.inr ⟨m, e, hp, rfl, hc, he, rfl⟩)

theorem representable_infinite : Representable infinite := ⟨2 ^ 52, lastShift, by decide, rfl⟩

theorem representable {x : Float} {n : Nat} (h : units x = some n) : Representable n ∧ n ≤ infinite := by
  rcases units_cases h with ⟨s, -, rfl⟩ | ⟨-, rfl⟩ | ⟨m, e, hp, -, hc, he, rfl⟩
  · exact ⟨⟨0, 0, by decide, rfl⟩, Nat.zero_le _⟩
  · exact ⟨representable_infinite, Nat.le_refl _⟩
  · exact ⟨⟨m, _, hc.lt, rfl⟩, Nat.le_of_lt (lt_infinite hc he)⟩

/-! ## Comparison -/

theorem lt_of_exponent_lt {m m' : Nat} {e e' : Int} (hc : Canonical m e) (hc' : Canonical m' e')
    (h : e < e') : m * 2 ^ (e + 1074).toNat < m' * 2 ^ (e' + 1074).toNat := by
  have hlow : 2 ^ 52 ≤ m' := hc'.normal.resolve_right (by have := hc.least; omega)
  have hshift : (e + 1074).toNat + 1 ≤ (e' + 1074).toNat := by have := hc.least; omega
  calc m * 2 ^ (e + 1074).toNat < 2 ^ 53 * 2 ^ (e + 1074).toNat :=
        (Nat.mul_lt_mul_right (Nat.two_pow_pos _)).2 hc.lt
    _ = 2 ^ 52 * 2 ^ ((e + 1074).toNat + 1) := carry_eq _
    _ ≤ m' * 2 ^ (e' + 1074).toNat := Nat.mul_le_mul hlow (Nat.pow_le_pow_right (by decide) hshift)

/-- Exponents first, then mantissas, is the order of the units. -/
theorem compare_finite {m m' : Nat} {e e' : Int} (hc : Canonical m e) (hc' : Canonical m' e') :
    (compare e e').then (compare m m') =
      compare (m * 2 ^ (e + 1074).toNat) (m' * 2 ^ (e' + 1074).toNat) := by
  rcases Int.lt_trichotomy e e' with hlt | rfl | hgt
  · rw [Int.compare_eq_lt.2 hlt, Nat.compare_eq_lt.2 (lt_of_exponent_lt hc hc' hlt)]
    rfl
  · rw [Int.compare_eq_eq.2 rfl]
    show compare m m' = _
    have hpos : 0 < 2 ^ (e + 1074).toNat := Nat.two_pow_pos _
    rcases Nat.lt_trichotomy m m' with hlt | rfl | hgt
    · rw [Nat.compare_eq_lt.2 hlt, Nat.compare_eq_lt.2 ((Nat.mul_lt_mul_right hpos).2 hlt)]
    · rw [Nat.compare_eq_eq.2 rfl, Nat.compare_eq_eq.2 rfl]
    · rw [Nat.compare_eq_gt.2 hgt, Nat.compare_eq_gt.2 ((Nat.mul_lt_mul_right hpos).2 hgt)]
  · rw [Int.compare_eq_gt.2 hgt, Nat.compare_eq_gt.2 (lt_of_exponent_lt hc' hc hgt)]
    rfl

/-- **Floats compare as their units.** -/
theorem compare_units {x y : Float} {a b : Nat} (hx : units x = some a) (hy : units y = some b) :
    x.toModel.unpack.compare y.toModel.unpack = some (compare a b) := by
  have hinf : 0 < infinite := Nat.mul_pos (by decide) (Nat.two_pow_pos _)
  rcases units_cases hx with ⟨s, hux, rfl⟩ | ⟨hux, rfl⟩ | ⟨m, e, hp, hux, hc, he, rfl⟩ <;>
  rcases units_cases hy with ⟨s', huy, rfl⟩ | ⟨huy, rfl⟩ | ⟨m', e', hp', huy, hc', he', rfl⟩ <;>
  rw [hux, huy]
  · rfl
  · exact congrArg some (Nat.compare_eq_lt.2 hinf).symm
  · exact congrArg some (Nat.compare_eq_lt.2 (Nat.mul_pos hp' (Nat.two_pow_pos _))).symm
  · exact congrArg some (Nat.compare_eq_gt.2 hinf).symm
  · exact congrArg some (Nat.compare_eq_eq.2 rfl).symm
  · exact congrArg some (Nat.compare_eq_gt.2 (lt_infinite hc' he')).symm
  · exact congrArg some (Nat.compare_eq_gt.2 (Nat.mul_pos hp (Nat.two_pow_pos _))).symm
  · exact congrArg some (Nat.compare_eq_lt.2 (lt_infinite hc he)).symm
  · exact congrArg some (compare_finite hc hc')

theorem le_iff {x y : Float} {a b : Nat} (hx : units x = some a) (hy : units y = some b) :
    x ≤ y ↔ a ≤ b := by
  show (decide ((x.toModel.unpack.compare y.toModel.unpack).any (·.isLE) = true)) = true ↔ _
  rw [compare_units hx hy, decide_eq_true_iff]
  show (compare a b).isLE = true ↔ _
  rw [Nat.isLE_compare]

theorem lt_iff {x y : Float} {a b : Nat} (hx : units x = some a) (hy : units y = some b) :
    x < y ↔ a < b := by
  show (decide ((x.toModel.unpack.compare y.toModel.unpack == some .lt) = true)) = true ↔ _
  rw [compare_units hx hy, decide_eq_true_iff, beq_iff_eq, Option.some.injEq, Nat.compare_eq_lt]

theorem not_isNaN {x : Float} {n : Nat} (h : units x = some n) : x.isNaN = false := by
  show x.toModel.unpack.isNaN = false
  rcases units_cases h with ⟨s, hx, -⟩ | ⟨hx, -⟩ | ⟨m, e, hp, hx, -⟩ <;> rw [hx] <;> rfl

/-! ## Arithmetic -/

/-- **A result is near an exact number of units**: it passes no float that the exact number reaches, and
it is the exact number where that is a float. -/
structure Near (exact result : Nat) : Prop where
  le : ∀ n, Representable n → n ≤ infinite → n ≤ exact → n ≤ result
  eq : Representable exact → exact ≤ infinite → result = exact

theorem near_self (n : Nat) : Near n n := ⟨fun _ _ _ h => h, fun _ _ => rfl⟩

theorem near_infinite {exact : Nat} (h : infinite ≤ exact) : Near exact infinite :=
  ⟨fun _ _ h _ => h, fun _ hle => Nat.le_antisymm h hle⟩

theorem Rounds.near {exact rounded : Nat} (h : Rounds exact rounded) : Near exact (min rounded infinite) :=
  ⟨fun _ hn hinf hle => Nat.le_min.2 ⟨h.le hn hle, hinf⟩, fun hr hinf => by
    rw [h.eq hr, Nat.min_eq_left hinf]⟩

theorem units_normalize {n e : Int} (hn : 0 ≤ n) (he : -1074 ≤ e) :
    ∃ c, unitsOf (Float.Model.pack (UnpackedFloat.normalize Format.binary64 n e .positive)).unpack = some c ∧
      Near (n.toNat * 2 ^ (e + 1074).toNat) c := by
  rcases Int.lt_or_eq_of_le hn with hpos | rfl
  · obtain ⟨m, e', hp, hround, hc, hrounds, -⟩ := round_units (m := n.toNat) (by omega) he
    refine ⟨_, ?_, hrounds.near⟩
    rw [UnpackedFloat.normalize, Int.compare_eq_gt.2 hpos]
    show unitsOf (Float.Model.pack (UnpackedFloat.round Format.binary64 .positive n.toNat e)).unpack = _
    rw [hround, unitsOf_pack_finite hp hc]
  · refine ⟨0, ?_, ?_⟩
    · show unitsOf (Float.Model.pack (.zero .positive)).unpack = _
      rw [unpack_pack_zero]
      rfl
    · rw [Int.toNat_zero, Nat.zero_mul]
      exact near_self 0

/-- Both operands at the smaller exponent. -/
theorem decreaseExponent_units {m : Nat} {e t : Int} (ht : -1074 ≤ t) (hle : t ≤ e) :
    (decreaseExponent m e t).1 * 2 ^ (t + 1074).toNat = m * 2 ^ (e + 1074).toNat := by
  rw [decreaseExponent, Nat.shiftLeft_eq, Nat.mul_assoc, ← Nat.pow_add]
  congr 2
  omega

/-- A float packs to itself, in units. -/
theorem units_pack {x : Float} {n : Nat} (h : units x = some n) :
    unitsOf (Float.Model.pack x.toModel.unpack).unpack = some n := by
  rcases units_cases h with ⟨s, hx, rfl⟩ | ⟨hx, rfl⟩ | ⟨m, e, hp, hx, hc, he, rfl⟩ <;> rw [hx]
  · rw [unpack_pack_zero]; rfl
  · rw [unpack_pack_infinity]; rfl
  · rw [unitsOf_pack_finite hp hc, Nat.min_eq_left (Nat.le_of_lt (lt_infinite hc he))]

/-- **Addition is exact addition of the units, rounded.** -/
theorem units_add {x y : Float} {a b : Nat} (hx : units x = some a) (hy : units y = some b) :
    ∃ c, units (x + y) = some c ∧ Near (a + b) c := by
  show ∃ c, unitsOf (Float.Model.pack
    (UnpackedFloat.add Format.binary64 x.toModel.unpack y.toModel.unpack)).unpack = some c ∧ _
  have hself := units_pack hx
  have hself' := units_pack hy
  rcases units_cases hx with ⟨s, hux, rfl⟩ | ⟨hux, rfl⟩ | ⟨m, e, hp, hux, hc, he, rfl⟩ <;>
  rcases units_cases hy with ⟨s', huy, rfl⟩ | ⟨huy, rfl⟩ | ⟨m', e', hp', huy, hc', he', rfl⟩ <;>
  rw [hux] at hself ⊢ <;> rw [huy] at hself' ⊢
  · refine ⟨0, ?_, near_self 0⟩
    cases s <;> cases s' <;> exact congrArg unitsOf (unpack_pack_zero _)
  · exact ⟨infinite, hself', near_infinite (Nat.le_add_left _ _)⟩
  · exact ⟨_, hself', by rw [Nat.zero_add]; exact near_self _⟩
  · exact ⟨infinite, hself, near_infinite (Nat.le_add_right _ _)⟩
  · exact ⟨infinite, hself, near_infinite (Nat.le_add_right _ _)⟩
  · exact ⟨infinite, hself, near_infinite (Nat.le_add_right _ _)⟩
  · exact ⟨_, hself, near_self _⟩
  · exact ⟨infinite, hself', near_infinite (Nat.le_add_left _ _)⟩
  · -- both are finite: the sum is that of the mantissas at the smaller exponent
    have ht : -1074 ≤ min e e' := by have := hc.least; have := hc'.least; omega
    obtain ⟨c, hunits, hnear⟩ := units_normalize
      (n := ((decreaseExponent m e (min e e')).1 : Int) + (decreaseExponent m' e' (min e e')).1)
      (by omega) ht
    refine ⟨c, hunits, ?_⟩
    rw [← Int.natCast_add, Int.toNat_natCast, Nat.add_mul, decreaseExponent_units ht (Int.min_le_left _ _),
      decreaseExponent_units ht (Int.min_le_right _ _)] at hnear
    exact hnear

/-- **Subtraction is exact subtraction of the units, rounded**, where nothing is infinite or negative. -/
theorem units_sub {x y : Float} {a b : Nat} (hx : units x = some a) (hy : units y = some b) (hle : b ≤ a)
    (ha : a < infinite) : ∃ c, units (x - y) = some c ∧ Near (a - b) c := by
  show ∃ c, unitsOf (Float.Model.pack
    (UnpackedFloat.sub Format.binary64 x.toModel.unpack y.toModel.unpack)).unpack = some c ∧ _
  have hself := units_pack hx
  rcases units_cases hx with ⟨s, hux, rfl⟩ | ⟨hux, rfl⟩ | ⟨m, e, hp, hux, hc, he, rfl⟩
  · -- nothing can be taken away from zero but zero
    obtain rfl : b = 0 := by omega
    rcases units_cases hy with ⟨s', huy, -⟩ | ⟨-, hinf⟩ | ⟨m', e', hp', -, -, -, hzero⟩
    · rw [hux, huy]
      refine ⟨0, ?_, near_self 0⟩
      cases s <;> cases s' <;> exact congrArg unitsOf (unpack_pack_zero _)
    · omega
    · have := Nat.mul_pos hp' (Nat.two_pow_pos (e' + 1074).toNat)
      omega
  · omega
  · rcases units_cases hy with ⟨s', huy, rfl⟩ | ⟨-, rfl⟩ | ⟨m', e', hp', huy, hc', he', rfl⟩
    · rw [hux] at hself
      rw [hux, huy]
      exact ⟨_, hself, near_self _⟩
    · omega
    · have ht : -1074 ≤ min e e' := by have := hc.least; have := hc'.least; omega
      have hunits := decreaseExponent_units (m := m) ht (Int.min_le_left e e')
      have hunits' := decreaseExponent_units (m := m') ht (Int.min_le_right e e')
      have hle' : (decreaseExponent m' e' (min e e')).1 ≤ (decreaseExponent m e (min e e')).1 := by
        rw [← hunits, ← hunits'] at hle
        exact Nat.le_of_mul_le_mul_right hle (Nat.two_pow_pos _)
      obtain ⟨c, hc, hnear⟩ := units_normalize
        (n := ((decreaseExponent m e (min e e')).1 : Int) - (decreaseExponent m' e' (min e e')).1)
        (by omega) ht
      refine ⟨c, by rw [hux, huy]; exact hc, ?_⟩
      rw [← Int.natCast_sub hle', Int.toNat_natCast, Nat.sub_mul, hunits, hunits'] at hnear
      exact hnear

/-! ## Whole numbers -/

/-- How far the mantissa of a whole number is shifted. -/
@[irreducible]
def oneShift : Nat := 1074

/-- The units of the number one. -/
def one : Nat := 2 ^ oneShift

theorem one_pos : 0 < one := Nat.two_pow_pos _

/-- Whole numbers that are not large are finite. -/
theorem lt_infinite_of_le {n : Nat} (hn : n ≤ 2 ^ 96) : n * one < infinite := by
  calc n * one ≤ 2 ^ 96 * one := Nat.mul_le_mul_right _ hn
    _ = 2 ^ (96 + oneShift) := (Nat.pow_add _ _ _).symm
    _ < 2 ^ (52 + lastShift) := Nat.pow_lt_pow_right (by decide) (by rw [lastShift_eq, oneShift]; decide)
    _ = infinite := Nat.pow_add _ _ _

theorem units_one : units 1.0 = some one := by decide +kernel

/-- **Whole numbers** are rounded once. -/
theorem units_toFloat (n : UInt64) : ∃ c, units n.toFloat = some c ∧ Near (n.toNat * one) c := by
  obtain ⟨c, hc, hnear⟩ := units_normalize (n := (n.toNat : Int)) (e := 0) (by omega) (by decide)
  have hshift : ((0 : Int) + 1074).toNat = oneShift := by rw [oneShift]; rfl
  rw [hshift, Int.toNat_natCast] at hnear
  exact ⟨c, hc, hnear⟩

/-- **Every number of 64 bits has a finite float** nearest to it. -/
theorem isFinite_toFloat (n : UInt64) : n.toFloat.isFinite = true := by
  show (Float.Model.pack (UnpackedFloat.normalize Format.binary64 (n.toNat : Int) 0 .positive)).unpack.isFinite = true
  rcases Nat.eq_zero_or_pos n.toNat with hzero | hpos
  · rw [hzero]
    show (Float.Model.pack (.zero .positive)).unpack.isFinite = true
    rw [unpack_pack_zero]
    rfl
  · obtain ⟨m, e, hp, hround, hc, -, he⟩ := round_units (e := 0) hpos (by decide)
    have hlog : n.toNat.log2 < 64 := (Nat.log2_lt (Nat.ne_of_gt hpos)).2 n.toNat_lt
    rw [log2_mul_two_pow hpos] at he
    rw [UnpackedFloat.normalize, Int.compare_eq_gt.2 (Int.natCast_pos.2 hpos)]
    show (Float.Model.pack (UnpackedFloat.round Format.binary64 .positive n.toNat 0)).unpack.isFinite = true
    rw [hround, unpack_pack .positive hp hc, if_pos (by omega)]
    rfl

theorem isFinite_neg {x : Float} (h : x.isFinite = true) : (-x).isFinite = true := by
  have hx : x.toModel.unpack.isFinite = true := h
  show (Float.Model.pack x.toModel.unpack.neg).unpack.isFinite = true
  cases hu : x.toModel.unpack with
  | notANumber => rw [hu] at hx; cases hx
  | infinity s => rw [hu] at hx; cases hx
  | zero s =>
    rw [UnpackedFloat.neg, unpack_pack_zero]
    rfl
  | finite s m e hp =>
    obtain ⟨hc, he⟩ := canonical_unpack hu
    rw [UnpackedFloat.neg, unpack_pack _ hp hc, if_pos he]
    rfl

/-- **A finite float that is not below one that is not negative** has units. -/
theorem exists_units {x y : Float} {a : Nat} {o : Ordering} (hx : units x = some a)
    (h : x.toModel.unpack.compare y.toModel.unpack = some o) (ho : o ≠ .gt) (hfin : y.isFinite) :
    ∃ b, units y = some b ∧ b < infinite := by
  have hfin : y.toModel.unpack.isFinite = true := hfin
  have hinf : 0 < infinite := Nat.mul_pos (by decide) (Nat.two_pow_pos _)
  cases hy : y.toModel.unpack with
  | notANumber => rw [hy] at hfin; cases hfin
  | infinity s => rw [hy] at hfin; cases hfin
  | zero s => exact ⟨0, congrArg unitsOf hy, hinf⟩
  | finite s m e hp =>
    obtain ⟨hc, he⟩ := canonical_unpack hy
    cases s with
    | positive => exact ⟨_, congrArg unitsOf hy, lt_infinite hc he⟩
    | negative =>
      rw [hy] at h
      rcases units_cases hx with ⟨s', hux, -⟩ | ⟨hux, -⟩ | ⟨m', e', hp', hux, -⟩ <;> rw [hux] at h <;>
        exact absurd (Option.some.inj h).symm ho

theorem units_of_le {x y : Float} {a : Nat} (hx : units x = some a) (h : x ≤ y) (hfin : y.isFinite) :
    ∃ b, units y = some b ∧ a ≤ b ∧ b < infinite := by
  have hle := of_decide_eq_true (show decide ((x.toModel.unpack.compare y.toModel.unpack).any (·.isLE)) = true from h)
  cases hcmp : x.toModel.unpack.compare y.toModel.unpack with
  | none => rw [hcmp] at hle; cases hle
  | some o =>
    rw [hcmp] at hle
    obtain ⟨b, hy, hb⟩ := exists_units hx hcmp (by rintro rfl; cases hle) hfin
    exact ⟨b, hy, (le_iff hx hy).1 h, hb⟩

theorem units_of_lt {x y : Float} {a : Nat} (hx : units x = some a) (h : x < y) (hfin : y.isFinite) :
    ∃ b, units y = some b ∧ a < b ∧ b < infinite := by
  have hlt := beq_iff_eq.1
    (of_decide_eq_true (show decide ((x.toModel.unpack.compare y.toModel.unpack == some .lt) = true) = true from h))
  obtain ⟨b, hy, hb⟩ := exists_units hx hlt (by decide) hfin
  exact ⟨b, hy, (lt_iff hx hy).1 h, hb⟩

theorem units_zero : units 0.0 = some 0 := by decide +kernel

/-- **Taking one away is exact** below `2 ^ 53`. -/
theorem representable_sub_one {n : Nat} (h : Representable n) (hone : one ≤ n) (hn : n < 2 ^ 53 * one) :
    Representable (n - one) := by
  obtain ⟨m, k, hm, rfl⟩ := h
  rcases Nat.le_total k oneShift with hle | hge
  · have hsplit : one = 2 ^ (oneShift - k) * 2 ^ k := by
      rw [one, ← Nat.pow_add, Nat.sub_add_cancel hle]
    exact ⟨m - 2 ^ (oneShift - k), k, Nat.lt_of_le_of_lt (Nat.sub_le _ _) hm, by rw [hsplit, Nat.sub_mul]⟩
  · have hsplit : m * 2 ^ k = m * 2 ^ (k - oneShift) * one := by
      rw [one, Nat.mul_assoc, ← Nat.pow_add, Nat.sub_add_cancel hge]
    rw [hsplit] at hn ⊢
    have hlt := Nat.lt_of_mul_lt_mul_right hn
    exact ⟨m * 2 ^ (k - oneShift) - 1, oneShift, by omega, by rw [Nat.sub_mul, Nat.one_mul, ← one]⟩

end CallGuard.Binary
