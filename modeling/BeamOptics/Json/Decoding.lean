import BeamOptics.Json.Tree

/-!
Typed values from documents.

A record is an object, or an array of its fields in order. Names that a record does not know are
passed over, a known name must not occur twice, and missing fields are left to the caller. A choice
among records is told by a member that names the variant, or by the first item of an array; all that
belongs to it must be sound and not nested too deeply, known or not.
-/

namespace BeamOptics.Json

variable {K : Type}

def real? [Scalar K] : Json K → Option K
  | .number (.count n) => some (Scalar.ofNat n)
  | .number (.below n) => some (-(Scalar.ofNat n))
  | .number (.real x) => some x
  | _ => none

def nat? : Json K → Option Nat
  | .number (.count n) => some n
  | _ => none

def bool? : Json K → Option Bool
  | .bool b => some b
  | _ => none

def string? : Json K → Option String
  | .text s => s
  | _ => none

def items? : Json K → Option (List (Json K))
  | .array vs => some vs
  | _ => none

def reals? [Scalar K] (v : Json K) : Option (List K) := v.items?.bind fun vs => vs.mapM real?

def nullable {α : Type} (f : Json K → Option α) : Json K → Option (Option α)
  | .null => some none
  | v => (f v).map some

def named (members : List (Option String × Json K)) (name : String) : List (Json K) :=
  (members.filter (·.1 = some name)).map (·.2)

def atMostOne? {α : Type} : List α → Option (Option α)
  | [] => some none
  | [x] => some (some x)
  | _ => none

def slots? (names : List String) : Json K → Option (List (Option (Json K)))
  | .object members =>
    if members.all (·.1.isSome) then names.mapM fun name => atMostOne? (named members name)
    else none
  | .array items =>
    if items.length ≤ names.length then
      some (items.map some ++ List.replicate (names.length - items.length) none)
    else none
  | _ => none

def required {α : Type} (f : Json K → Option α) (slot : Option (Json K)) : Option α := slot.bind f

def defaulted {α : Type} (f : Json K → Option α) (default : α) : Option (Json K) → Option α
  | none => some default
  | some v => f v

/-- One of several names, given as a text or as the only member of an object with a null value. -/
def oneOf? {α : Type} (names : List (String × α)) : Json K → Option α
  | .text (some s) => names.lookup s
  | .object [(some s, .null)] => names.lookup s
  | _ => none

def depthLimit : Nat := 127

/-- The variant of a choice and its fields. `level` arrays and objects surround the choice. Inside
another choice (`inner`) the variant may also be given by its number. -/
def variant? (tag : String) (variants : List String) (level : Nat) (inner : Bool) (v : Json K) :
    Option (String × Json K) :=
  let name? : Json K → Option String
    | .text (some s) => if variants.contains s then some s else none
    | .number (.count n) => if inner then variants[n]? else none
    | _ => none
  if !v.isSound || depthLimit < level + v.depth then none
  else match v with
    | .object members => do
      let name ← (← atMostOne? (named members tag)).bind name?
      return (name, .object (members.filter (·.1 ≠ some tag)))
    | .array (first :: rest) => (name? first).map (·, .array rest)
    | _ => none

end BeamOptics.Json
