import CallGuard.Json.Value

/-!
# JSON tokens

A text is cut into tokens from left to right. A string token holds the text it
stands for, or nothing if its escapes leave half of a surrogate pair; a number
token holds the integer or the float it stands for.
-/

namespace CallGuard.Json

/-- The smallest unit of a JSON text. -/
inductive Token where
  | openArr
  | closeArr
  | openObj
  | closeObj
  | comma
  | colon
  | str (s : Option String)
  | scalar (j : Json)

namespace Token

/-- The four blanks of JSON. -/
def isBlank (c : Char) : Bool := c == ' ' || c == '\t' || c == '\n' || c == '\r'

/-- The value of a hexadecimal digit. -/
def hexValue? (c : Char) : Option Nat :=
  let n := c.toNat
  if 48 ≤ n && n ≤ 57 then some (n - 48)
  else if 65 ≤ n && n ≤ 70 then some (n - 55)
  else if 97 ≤ n && n ≤ 102 then some (n - 87)
  else none

/-- The code unit of four hexadecimal digits. -/
def hexUnit? (a b c d : Char) : Option Nat := do
  return ((← hexValue? a) * 16 + (← hexValue? b)) * 256 + (← hexValue? c) * 16 + (← hexValue? d)

/-- The character that a one-letter escape stands for. -/
def escape? : Char → Option Char
  | '"' => some '"'
  | '\\' => some '\\'
  | '/' => some '/'
  | 'b' => some '\x08'
  | 'f' => some '\x0c'
  | 'n' => some '\n'
  | 'r' => some '\r'
  | 't' => some '\t'
  | _ => none

/-- A part of a string: a character, or a code unit that may be half of one. -/
inductive Piece where
  | char (c : Char)
  | unit (n : Nat)

/-- The pieces of a string after its opening quote, and what follows the closing one. -/
def pieces (done : List Piece) : List Char → Option (List Piece × List Char)
  | [] => none
  | '"' :: rest => some (done.reverse, rest)
  | '\\' :: 'u' :: a :: b :: c :: d :: rest => do
    let n ← hexUnit? a b c d
    pieces (.unit n :: done) rest
  | '\\' :: c :: rest => do
    let e ← escape? c
    pieces (.char e :: done) rest
  | '\\' :: [] => none
  | c :: rest => if c.toNat < 32 then none else pieces (.char c :: done) rest

/-- The characters that pieces stand for: a high and a low surrogate make one character together and
stand for nothing apart. -/
def joined? : List Piece → Option (List Char)
  | [] => some []
  | .char c :: rest => (joined? rest).map (c :: ·)
  | .unit n :: rest =>
    if n < 0xd800 || 0xdfff < n then (joined? rest).map (Char.ofNat n :: ·)
    else
      match rest with
      | .unit m :: rest' =>
        if n < 0xdc00 && 0xdc00 ≤ m && m ≤ 0xdfff then
          (joined? rest').map (Char.ofNat (0x10000 + (n - 0xd800) * 0x400 + (m - 0xdc00)) :: ·)
        else none
      | _ => none

/-- The number written in decimal digits. -/
def natOfDigits (digits : List Char) : Nat :=
  digits.foldl (fun n c => 10 * n + (c.toNat - 48)) 0

/-- The parts of a number as written: sign, digits before and after the point, and the power of ten. -/
structure Numeral where
  negative : Bool
  whole : List Char
  fraction : Option (List Char)
  exponent : Option Int

/-- **Shape of a numeral**: no zero before other digits, and digits on both sides of the point. -/
def Numeral.isWellFormed (n : Numeral) : Bool :=
  !n.whole.isEmpty && (n.whole.length == 1 || n.whole.head? != some '0') && n.fraction != some []

/-- The float nearest to `digits * 10 ^ power`, or none if it is out of the floats' range. Powers beyond
the range of every float are decided without computing them. -/
def floatOfDecimal? (digits : Nat) (power : Int) : Option Float :=
  if digits = 0 then some 0.0
  else
    -- the value lies between 10 ^ (size - 1) and 10 ^ size
    let size : Int := (toString digits).length + power
    if size < -400 then some 0.0
    else if 400 < size then none
    else
      let x := Float.ofScientific digits (power < 0) power.natAbs
      if x.isFinite then some x else none

/-- The value of a numeral. It is an integer if it has neither point nor exponent and fits 64 bits, signed
or unsigned; a negative zero is a float. -/
def Numeral.value (n : Numeral) : Json :=
  let digits := natOfDigits (n.whole ++ n.fraction.getD [])
  let isInteger := n.fraction.isNone && n.exponent.isNone
  if isInteger && !n.negative && digits < 18446744073709551616 then .int digits
  else if isInteger && n.negative && 0 < digits && digits ≤ 9223372036854775808 then .int (-digits)
  else
    match floatOfDecimal? digits (n.exponent.getD 0 - (n.fraction.getD []).length) with
    | some x => .float (if n.negative then -x else x)
    | none => .unreadable

/-- The fraction at the head of a text: a point and the digits after it. -/
def takeFraction : List Char → Option (List Char) × List Char
  | '.' :: rest => (some (rest.takeWhile Char.isDigit), rest.dropWhile Char.isDigit)
  | rest => (none, rest)

/-- The exponent at the head of a text. An exponent mark without digits is refused. -/
def takeExponent : List Char → Option (Option Int × List Char)
  | [] => some (none, [])
  | c :: rest =>
    if c == 'e' || c == 'E' then
      let (negative, rest) : Bool × List Char :=
        match rest with
        | '+' :: r => (false, r)
        | '-' :: r => (true, r)
        | r => (false, r)
      let digits := rest.takeWhile Char.isDigit
      if digits.isEmpty then none
      else
        let n : Int := natOfDigits digits
        some (some (if negative then -n else n), rest.dropWhile Char.isDigit)
    else some (none, c :: rest)

/-- The number at the head of a text, and the rest. -/
def number? (cs : List Char) : Option (Json × List Char) := do
  let (negative, cs) : Bool × List Char :=
    match cs with
    | '-' :: rest => (true, rest)
    | rest => (false, rest)
  let whole := cs.takeWhile Char.isDigit
  let (fraction, rest) := takeFraction (cs.dropWhile Char.isDigit)
  let (exponent, rest) ← takeExponent rest
  let n : Numeral := ⟨negative, whole, fraction, exponent⟩
  if n.isWellFormed then some (n.value, rest) else none

/-- The token at the head of a text that starts with no blank, and the rest. -/
def next? : List Char → Option (Token × List Char)
  | '[' :: rest => some (.openArr, rest)
  | ']' :: rest => some (.closeArr, rest)
  | '\x7b' :: rest => some (.openObj, rest)
  | '\x7d' :: rest => some (.closeObj, rest)
  | ',' :: rest => some (.comma, rest)
  | ':' :: rest => some (.colon, rest)
  | '"' :: rest => do
    let (ps, rest) ← pieces [] rest
    some (.str ((joined? ps).map String.ofList), rest)
  | 't' :: 'r' :: 'u' :: 'e' :: rest => some (.scalar (.bool true), rest)
  | 'f' :: 'a' :: 'l' :: 's' :: 'e' :: rest => some (.scalar (.bool false), rest)
  | 'n' :: 'u' :: 'l' :: 'l' :: rest => some (.scalar .null, rest)
  | cs => (number? cs).map fun (j, rest) => (.scalar j, rest)

/-- The tokens of a text. Each round takes a token and the blanks before it; `fuel` bounds the rounds. -/
def scanFrom : Nat → List Token → List Char → Option (List Token)
  | 0, _, _ => none
  | fuel + 1, done, cs =>
    match cs.dropWhile isBlank with
    | [] => some done.reverse
    | rest => do
      let (t, rest) ← next? rest
      scanFrom fuel (t :: done) rest

/-- The tokens of a text. Every token takes at least one character, so a round for each character and one
for the end are enough. -/
def scan? (text : String) : Option (List Token) :=
  let cs := text.toList
  scanFrom (cs.length + 1) [] cs

end Token

end CallGuard.Json
