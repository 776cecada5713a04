import CallGuard.Random.Stream

/-!
# Random numbers

A generator is a key and the number of words drawn so far. Numbers below a bound
are drawn without bias: a word is multiplied by the bound, the high half of the
product is the answer, and words whose low half lies above the zone are drawn
again.

* `Generator.below_lt`: the answer is below the bound.
-/

namespace CallGuard

/-- A reproducible source of random numbers: the key of its stream, and how many words were drawn so far. -/
structure Generator where
  key : Random.Key
  position : Nat
deriving DecidableEq

namespace Generator

/-- The generator of a seed, before its first draw. -/
def ofSeed (seed : UInt64) : Generator := ⟨.ofSeed seed, 0⟩

instance : Inhabited Generator := ⟨ofSeed 0⟩

/-- The next word. -/
def next (g : Generator) : UInt64 × Generator :=
  (g.key.word64 g.position, { g with position := g.position + 1 })

/-- How many numbers a word can be. -/
def words : Nat := 18446744073709551616

/-- Zero bits above the highest set bit of a 64-bit number. -/
def leadingZeros (n : Nat) : Nat := if n = 0 then 64 else 63 - n.log2

/-- Low halves up to the zone are accepted: it ends at the largest multiple of `n` by a power of two. -/
def zone (n : Nat) : Nat := n <<< leadingZeros n - 1

/-- A number below `n` drawn with at most `fuel` refusals. A word that is drawn when none is left is taken
as it comes. -/
def belowWithin (n : Nat) : Nat → Generator → Nat × Generator
  | 0, g => ((g.next.1.toNat * n) / words, g.next.2)
  | fuel + 1, g =>
    let product := g.next.1.toNat * n
    if product % words ≤ zone n then (product / words, g.next.2) else belowWithin n fuel g.next.2

/-- Refusals in a row after which a word is taken as it comes. A word is refused with probability below
one half, so that no draw gets there. -/
def maxRefusals : Nat := 4096

/-- **A number below `n`**, and zero without a draw if there is none. -/
def below (n : Nat) (g : Generator) : Nat × Generator :=
  if n = 0 then (0, g) else belowWithin n maxRefusals g

/-- A float from zero up to one, in steps of `2 ^ -53`. -/
def unit (g : Generator) : Float × Generator :=
  ((g.next.1 >>> 11).toFloat * Float.ofBits 0x3ca0000000000000, g.next.2)

theorem high_lt (w : UInt64) {n : Nat} (h : 0 < n) : w.toNat * n / words < n := by
  rw [Nat.div_lt_iff_lt_mul (by decide), Nat.mul_comm]
  exact Nat.mul_lt_mul_of_pos_left (UInt64.toNat_lt w) h

theorem belowWithin_lt {n : Nat} (h : 0 < n) (fuel : Nat) (g : Generator) :
    (belowWithin n fuel g).1 < n := by
  induction fuel generalizing g with
  | zero => exact high_lt _ h
  | succ fuel ih =>
    simp only [belowWithin]
    split
    · exact high_lt _ h
    · exact ih _

/-- **Draws stay below their bound.** -/
theorem below_lt {n : Nat} (h : 0 < n) (g : Generator) : (g.below n).1 < n := by
  unfold below
  rw [if_neg (Nat.ne_of_gt h)]
  exact belowWithin_lt h _ g

end Generator

end CallGuard
