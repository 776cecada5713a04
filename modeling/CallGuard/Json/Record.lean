import CallGuard.Json.Value
import CallGuard.Labels
import CallGuard.Time.Span

/-!
# Reading records from JSON

A record is an object of named fields, or an array of its fields in order. Of an
object, members that are no fields are skipped and a field may come once; an
array may end early but has no extra items. A field that is missing takes its
default or makes the record unreadable, as the record's type says.
-/

namespace CallGuard.Json

/-- The fields found in a record. -/
abbrev Record := List (String × Json)

/-- **The fields of a record** with the given field names. -/
def record? (names : List String) : Json → Option Record
  | .obj members =>
    if names.all fun name => (members.filter fun m => m.1 == name).length ≤ 1 then some members
    else none
  | .arr items => if items.length ≤ names.length then some (names.zip items) else none
  | _ => none

namespace Record

/-- A field that has to be there. -/
def required {α : Type} (r : Record) (name : String) (read : Json → Option α) : Option α :=
  (r.lookup name).bind read

/-- A field that may be missing. -/
def optional {α : Type} (r : Record) (name : String) (default : α) (read : Json → Option α) :
    Option α :=
  match r.lookup name with
  | some j => read j
  | none => some default

end Record

/-! ## Plain values -/

/-- A text. -/
def text? : Json → Option String
  | .str s => some s
  | _ => none

/-- A truth value. -/
def bool? : Json → Option Bool
  | .bool b => some b
  | _ => none

/-- An integer from `low` to `high`. -/
def intIn? (low high : Int) : Json → Option Int
  | .int n => if low ≤ n ∧ n ≤ high then some n else none
  | _ => none

/-- An unsigned 32-bit number. -/
def word32? (j : Json) : Option UInt32 := (intIn? 0 4294967295 j).map fun n => n.toNat.toUInt32

/-- An unsigned 64-bit number, as a natural number. -/
def word64? (j : Json) : Option Nat := (intIn? 0 18446744073709551615 j).map Int.toNat

/-- A signed 64-bit number. -/
def signed64? (j : Json) : Option Int64 :=
  (intIn? (-9223372036854775808) 9223372036854775807 j).map Int.toInt64

/-- The float nearest to an integer of at most 64 bits. -/
def floatOfInt (n : Int) : Float :=
  let size := n.natAbs.toUInt64.toFloat
  if n < 0 then -size else size

/-- A float; integers stand for the nearest one. No document has an infinite or undefined number. -/
def float? : Json → Option Float
  | .float x => if x.isFinite then some x else none
  | .int n => some (floatOfInt n)
  | _ => none

/-- A span, as a number of whole milliseconds. -/
def span? (j : Json) : Option Span := (word64? j).map Span.ofMillis

/-- A list of documents of one kind. -/
def list? {α : Type} (read : Json → Option α) : Json → Option (List α)
  | .arr items => items.mapM read
  | _ => none

/-- Labels, as an object of texts; the last value of a name stays. -/
def labels? : Json → Option Labels
  | .obj members => (members.mapM fun m => (text? m.2).map (m.1, ·)).map Labels.ofList
  | _ => none

/-- One of a set of named constants, as its name or as an object of the name and `null`. -/
def choice? {α : Type} (choices : List (String × α)) : Json → Option α
  | .str name => choices.lookup name
  | .obj [(name, .null)] => choices.lookup name
  | _ => none

/-! ## Writing the same values -/

/-- A span as whole milliseconds, at most `maxWord`. -/
def ofSpan (s : Span) : Json := .int s.millis

/-- A float as a number. What is no finite number has no spelling and is written as `null`. -/
def ofFloat (x : Float) : Json := if x.isFinite then .float x else .null

/-- Labels as an object of texts. -/
def ofLabels (l : Labels) : Json := .obj (l.entries.map fun e => (e.1, .str e.2))

end CallGuard.Json
