import CallGuard.Decimal.Shortest

/-!
# JSON values

Integers are kept apart from floats, because an integer field refuses `3.0`, and
an object keeps its members in the order written, repeated names included,
because a repeated field is an error in some places and not in others. A leaf
that follows the grammar but stands for no value, such as `1e400`, is
`unreadable`: it may be skipped but not used.
-/

namespace CallGuard

/-- A JSON document. -/
inductive Json where
  | null
  | bool (b : Bool)
  | int (n : Int)
  | float (x : Float)
  | str (s : String)
  | arr (items : List Json)
  | obj (members : List (String × Json))
  | unreadable
deriving Inhabited

namespace Json

mutual

/-- True if every leaf stands for a value. -/
def isReadable : Json → Bool
  | .unreadable => false
  | .arr items => allReadable items
  | .obj members => membersReadable members
  | _ => true

/-- True if every document of a list is readable. -/
def allReadable : List Json → Bool
  | [] => true
  | j :: rest => j.isReadable && allReadable rest

/-- True if every member of an object is readable. -/
def membersReadable : List (String × Json) → Bool
  | [] => true
  | (_, j) :: rest => j.isReadable && membersReadable rest

end

/-- The members without those whose name comes again later. -/
def lastMembers : List (String × Json) → List (String × Json)
  | [] => []
  | (name, j) :: rest =>
    if rest.any (fun m => m.1 == name) then lastMembers rest else (name, j) :: lastMembers rest

mutual

/-- **Repeated names resolved**: in every object the last member of a name stays. -/
def collapse : Json → Json
  | .arr items => .arr (collapseAll items)
  | .obj members => .obj (lastMembers (collapseMembers members))
  | j => j

/-- Repeated names resolved in every document of a list. -/
def collapseAll : List Json → List Json
  | [] => []
  | j :: rest => j.collapse :: collapseAll rest

/-- Repeated names resolved inside every member. -/
def collapseMembers : List (String × Json) → List (String × Json)
  | [] => []
  | (name, j) :: rest => (name, j.collapse) :: collapseMembers rest

end

/-! ## Printing -/

/-- Four lower-case hexadecimal digits of a control character. -/
def hexDigits (n places : Nat) : String :=
  let digits := Nat.toDigits 16 n
  String.ofList (List.replicate (places - digits.length) '0' ++ digits)

/-- A character inside a string: quotes, backslashes and control characters are escaped. -/
def escapeChar (c : Char) : String :=
  if c = '"' then "\\\""
  else if c = '\\' then "\\\\"
  else if c.toNat < 32 then "\\u" ++ hexDigits c.toNat 4
  else c.toString

/-- A string between quotes. -/
def quote (s : String) : String :=
  s.foldl (fun text c => text ++ escapeChar c) "\"" ++ "\""

mutual

/-- The text of a document, without blanks. An unreadable leaf is written as `null`. -/
def render : Json → String
  | .null => "null"
  | .bool true => "true"
  | .bool false => "false"
  | .int n => toString n
  | .float x => Decimal.floatText x
  | .str s => quote s
  | .arr items => "[" ++ renderItems items ++ "]"
  | .obj members => "\x7b" ++ renderMembers members ++ "\x7d"
  | .unreadable => "null"

/-- Items separated by commas. -/
def renderItems : List Json → String
  | [] => ""
  | [j] => j.render
  | j :: k :: rest => j.render ++ "," ++ renderItems (k :: rest)

/-- Members separated by commas. -/
def renderMembers : List (String × Json) → String
  | [] => ""
  | [(name, j)] => quote name ++ ":" ++ j.render
  | (name, j) :: m :: rest => quote name ++ ":" ++ j.render ++ "," ++ renderMembers (m :: rest)

end

end Json

end CallGuard
