import BeamOptics.Json.Token

/-!
Documents from their words.

The reader holds the arrays and objects that are still open, innermost first. Each word either opens
one, completes a value in the innermost one, or says what may follow.
-/

namespace BeamOptics.Json

/-- An array or object that is still open; what it holds is kept in reverse. -/
inductive Open where
  | array (items : List (Json Float))
  | object (members : List (Option String × Json Float))
  -- an object whose latest name waits for its value
  | member (members : List (Option String × Json Float)) (name : Option String)

inductive Awaiting where
  | value
  | valueOrClose
  | nameOrClose
  | name
  | colon
  | commaOrClose
  | nothing
deriving DecidableEq

/-- A reader between two words; `result` is there when the document is complete. -/
structure Reader where
  stack : List Open := []
  awaiting : Awaiting := .value
  result : Option (Json Float) := none

namespace Reader

def put (stack : List Open) (v : Json Float) : Option Reader :=
  match stack with
  | [] => some ⟨[], .nothing, some v⟩
  | .array items :: rest => some ⟨.array (v :: items) :: rest, .commaOrClose, none⟩
  | .member members name :: rest =>
    some ⟨.object ((name, v) :: members) :: rest, .commaOrClose, none⟩
  | .object _ :: _ => none

def value? (r : Reader) (v : Json Float) : Option Reader :=
  if r.awaiting = .value ∨ r.awaiting = .valueOrClose then put r.stack v else none

def step? (r : Reader) : Token → Option Reader
  | .openArray =>
    if r.awaiting = .value ∨ r.awaiting = .valueOrClose then
      some ⟨.array [] :: r.stack, .valueOrClose, none⟩
    else none
  | .openObject =>
    if r.awaiting = .value ∨ r.awaiting = .valueOrClose then
      some ⟨.object [] :: r.stack, .nameOrClose, none⟩
    else none
  | .closeArray =>
    match r.stack, r.awaiting with
    | .array items :: rest, .valueOrClose | .array items :: rest, .commaOrClose =>
      put rest (.array items.reverse)
    | _, _ => none
  | .closeObject =>
    match r.stack, r.awaiting with
    | .object members :: rest, .nameOrClose | .object members :: rest, .commaOrClose =>
      put rest (.object members.reverse)
    | _, _ => none
  | .comma =>
    match r.stack, r.awaiting with
    | .array items :: rest, .commaOrClose => some ⟨.array items :: rest, .value, none⟩
    | .object members :: rest, .commaOrClose => some ⟨.object members :: rest, .name, none⟩
    | _, _ => none
  | .colon => if r.awaiting = .colon then some { r with awaiting := .value } else none
  | .text s =>
    match r.stack, r.awaiting with
    | .object members :: rest, .nameOrClose | .object members :: rest, .name =>
      some ⟨.member members s :: rest, .colon, none⟩
    | _, _ => r.value? (.text s)
  | .number n => r.value? (.number n)
  | .constant "null" => r.value? .null
  | .constant "true" => r.value? (.bool true)
  | .constant "false" => r.value? (.bool false)
  | .constant _ => none

end Reader

def read? (text : String) : Option (Json Float) := do
  let tokens ← Token.scan text.toList
  let r ← tokens.foldlM Reader.step? {}
  r.result

end BeamOptics.Json
