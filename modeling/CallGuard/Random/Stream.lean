/-!
# A keyed stream of words

The random words come from the ChaCha block function with twelve rounds, keyed by
the seed. The stream is a function of the position alone: block `n` depends on the
key and on `n`, and on nothing drawn before.
-/

namespace CallGuard.Random

/-- Four words that are mixed side by side. -/
structure Lanes where
  a : UInt32
  b : UInt32
  c : UInt32
  d : UInt32
deriving DecidableEq

namespace Lanes

/-- An operation on each pair of words. -/
@[inline] def zip (f : UInt32 → UInt32 → UInt32) (x y : Lanes) : Lanes :=
  ⟨f x.a y.a, f x.b y.b, f x.c y.c, f x.d y.d⟩

/-- An operation on each word. -/
@[inline] def map (f : UInt32 → UInt32) (x : Lanes) : Lanes := ⟨f x.a, f x.b, f x.c, f x.d⟩

/-- The words moved one place to the left, around the end. -/
def shift (x : Lanes) : Lanes := ⟨x.b, x.c, x.d, x.a⟩

/-- Four places bring every word back. -/
theorem shift_four (x : Lanes) : x.shift.shift.shift.shift = x := rfl

/-- The word at place `i`, from 0 to 3. -/
def word (x : Lanes) : Nat → UInt32
  | 0 => x.a
  | 1 => x.b
  | 2 => x.c
  | _ => x.d

end Lanes

/-- A word rotated to the left. -/
@[inline] def rotateLeft (k x : UInt32) : UInt32 := (x <<< k) ||| (x >>> (32 - k))

/-- Sixteen words in four rows. -/
structure Block where
  r0 : Lanes
  r1 : Lanes
  r2 : Lanes
  r3 : Lanes
deriving DecidableEq

namespace Block

/-- The four additions, exclusive ors and rotations of a round, on all columns at once. -/
def mixColumns (s : Block) : Block :=
  let a := s.r0.zip (· + ·) s.r1
  let d := (s.r3.zip (· ^^^ ·) a).map (rotateLeft 16)
  let c := s.r2.zip (· + ·) d
  let b := (s.r1.zip (· ^^^ ·) c).map (rotateLeft 12)
  let a := a.zip (· + ·) b
  let d := (d.zip (· ^^^ ·) a).map (rotateLeft 8)
  let c := c.zip (· + ·) d
  let b := (b.zip (· ^^^ ·) c).map (rotateLeft 7)
  ⟨a, b, c, d⟩

/-- Rows moved so that the diagonals stand in columns. -/
def toDiagonals (s : Block) : Block := ⟨s.r0, s.r1.shift, s.r2.shift.shift, s.r3.shift.shift.shift⟩

/-- Rows moved back from `toDiagonals`. -/
def ofDiagonals (s : Block) : Block := ⟨s.r0, s.r1.shift.shift.shift, s.r2.shift.shift, s.r3.shift⟩

theorem ofDiagonals_toDiagonals (s : Block) : s.toDiagonals.ofDiagonals = s := rfl

/-- A round on the columns and a round on the diagonals. -/
def doubleRound (s : Block) : Block := s.mixColumns.toDiagonals.mixColumns.ofDiagonals

/-- `n` double rounds. -/
def rounds : Nat → Block → Block
  | 0, s => s
  | n + 1, s => rounds n s.doubleRound

/-- Words added place by place. -/
def add (s t : Block) : Block :=
  ⟨s.r0.zip (· + ·) t.r0, s.r1.zip (· + ·) t.r1, s.r2.zip (· + ·) t.r2, s.r3.zip (· + ·) t.r3⟩

/-- The word at place `i`, from 0 to 15. -/
def word (s : Block) (i : Nat) : UInt32 :=
  match i / 4 with
  | 0 => s.r0.word (i % 4)
  | 1 => s.r1.word (i % 4)
  | 2 => s.r2.word (i % 4)
  | _ => s.r3.word (i % 4)

end Block

/-- The eight words of a key. -/
structure Key where
  low : Lanes
  high : Lanes
deriving DecidableEq

namespace Key

/-- The words `expand 32-byte k`. -/
def constants : Lanes := ⟨0x61707865, 0x3320646e, 0x79622d32, 0x6b206574⟩

/-- **Block `n` of the stream**: twelve rounds over constants, key and block number, added to them. -/
def block (k : Key) (n : UInt64) : Block :=
  let start : Block := ⟨constants, k.low, k.high, ⟨n.toUInt32, (n >>> 32).toUInt32, 0, 0⟩⟩
  (start.rounds 6).add start

/-- The 64-bit word at a position of the stream, low half first. -/
def word64 (k : Key) (position : Nat) : UInt64 :=
  -- eight words of 64 bits to a block
  let b := k.block (position / 8).toUInt64
  let i := 2 * (position % 8)
  (b.word i).toUInt64 ||| ((b.word (i + 1)).toUInt64 <<< 32)

/-- One step of the generator that spreads a seed over a key. -/
def spread (state : UInt64) : UInt64 := state * 6364136223846793005 + 11634580027462260723

/-- The word given out for a state of that generator. -/
def output (state : UInt64) : UInt32 :=
  let x := (((state >>> 18) ^^^ state) >>> 27).toUInt32
  let k := (state >>> 59).toUInt32
  (x >>> k) ||| (x <<< ((32 - k) % 32))

/-- Four words of a key from a state, and the state after them. -/
def lanes (state : UInt64) : Lanes × UInt64 :=
  let s1 := spread state
  let s2 := spread s1
  let s3 := spread s2
  let s4 := spread s3
  (⟨output s1, output s2, output s3, output s4⟩, s4)

/-- The key of a seed. -/
def ofSeed (seed : UInt64) : Key :=
  let (low, state) := lanes seed
  ⟨low, (lanes state).1⟩

end Key

end CallGuard.Random
