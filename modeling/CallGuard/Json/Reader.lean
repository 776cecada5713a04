import CallGuard.Json.Token

/-!
# Reading JSON

A document is read token by token against a stack of the arrays and objects that
are still open. The reader is strict: no comma at an end, no text after the
document. Nesting is bounded: what lies deeper than 127 levels can be skipped but
not used.
-/

namespace CallGuard.Json

/-- An array or object that is still open, its parts in reverse. The names of members that have none are
kept until the object closes. -/
inductive Frame where
  | arr (items : List Json)
  | obj (members : List (Option String × Json)) (name : Option String)

/-- What may come next. -/
inductive Expect where
  | value
  | valueOrClose
  | name
  | nameOrClose
  | colon
  | separator
  | finished (j : Json)

/-- The state of a reader between two tokens: the open containers, innermost first, and what may come next. -/
structure Reading where
  stack : List Frame
  expect : Expect

namespace Reading

/-- Before the first token. -/
def start : Reading := ⟨[], .value⟩

/-- The deepest level at which an array or object can be used. -/
def deepestLevel : Nat := 127

/-- A document is complete and belongs to the innermost open container. -/
def accept (j : Json) : List Frame → Reading
  | [] => ⟨[], .finished j⟩
  | .arr items :: rest => ⟨.arr (j :: items) :: rest, .separator⟩
  | .obj members name :: rest => ⟨.obj ((name, j) :: members) none :: rest, .separator⟩

/-- The object of the given members, which is unreadable if the name of one is. -/
def object (members : List (Option String × Json)) : Json :=
  match members.mapM fun (name, j) => name.map (·, j) with
  | some named => .obj named
  | none => .unreadable

/-- A token where a document is expected. -/
def value? (stack : List Frame) : Token → Option Reading
  | .openArr => some ⟨.arr [] :: stack, .valueOrClose⟩
  | .openObj => some ⟨.obj [] none :: stack, .nameOrClose⟩
  | .str (some s) => some (accept (.str s) stack)
  | .str none => some (accept .unreadable stack)
  | .scalar j => some (accept j stack)
  | _ => none

/-- A token where the name of a member is expected. -/
def name? (stack : List Frame) : Token → Option Reading
  | .str name =>
    match stack with
    | .obj members _ :: rest => some ⟨.obj members name :: rest, .colon⟩
    | _ => none
  | _ => none

/-- An array or object inside the given open ones is complete. -/
def acceptContainer (j : Json) (rest : List Frame) : Reading :=
  accept (if rest.length < deepestLevel then j else .unreadable) rest

/-- The innermost container closes. -/
def close? (stack : List Frame) : Token → Option Reading
  | .closeArr =>
    match stack with
    | .arr items :: rest => some (acceptContainer (.arr items.reverse) rest)
    | _ => none
  | .closeObj =>
    match stack with
    | .obj members _ :: rest => some (acceptContainer (object members.reverse) rest)
    | _ => none
  | _ => none

/-- A comma after a part of the innermost container. -/
def comma? (stack : List Frame) : Token → Option Reading
  | .comma =>
    match stack with
    | .arr _ :: _ => some ⟨stack, .value⟩
    | .obj _ _ :: _ => some ⟨stack, .name⟩
    | [] => none
  | _ => none

/-- One token further. -/
def step? (r : Reading) (t : Token) : Option Reading :=
  match r.expect with
  | .value => value? r.stack t
  | .valueOrClose => (close? r.stack t).or (value? r.stack t)
  | .name => name? r.stack t
  | .nameOrClose => (close? r.stack t).or (name? r.stack t)
  | .colon => match t with
    | .colon => some ⟨r.stack, .value⟩
    | _ => none
  | .separator => (comma? r.stack t).or (close? r.stack t)
  | .finished _ => none

end Reading

/-- The document that a text holds. -/
def read? (text : String) : Option Json := do
  let tokens ← Token.scan? text
  let r ← tokens.foldlM Reading.step? Reading.start
  match r.expect with
  | .finished j => some j
  | _ => none

end CallGuard.Json
