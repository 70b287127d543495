import BeamOptics.Scalar

/-!
Documents as trees.

A tree keeps what a reader of typed values has to see: whether a number was written as a whole
number, whether it is too large for the number type, and whether a text holds half of a surrogate
pair. Members of an object keep their order and their repetitions.
-/

namespace BeamOptics

inductive JsonNumber (K : Type) where
  | count (n : Nat)
  -- a whole number below zero, by its size
  | below (n : Nat)
  | real (x : K)
  -- a number whose size exceeds every number of the type
  | tooLarge
deriving DecidableEq, Repr

inductive Json (K : Type) where
  | null
  | bool (b : Bool)
  | number (n : JsonNumber K)
  | text (s : Option String)
  | array (items : List (Json K))
  | object (members : List (Option String × Json K))
deriving Repr

namespace Json

variable {K : Type}

def string (s : String) : Json K := .text (some s)

def nat (n : Nat) : Json K := .number (.count n)

/-- A number of the type; null where it is not finite, which no number in a document is. -/
def real [Scalar K] (x : K) : Json K := if Scalar.isFinite x then .number (.real x) else .null

def record (members : List (String × Json K)) : Json K :=
  .object (members.map fun (k, v) => (some k, v))

def depth : Json K → Nat
  | .array items => 1 + depthOfItems items
  | .object members => 1 + depthOfMembers members
  | _ => 0
where
  depthOfItems : List (Json K) → Nat
    | [] => 0
    | v :: vs => max v.depth (depthOfItems vs)
  depthOfMembers : List (Option String × Json K) → Nat
    | [] => 0
    | (_, v) :: ms => max v.depth (depthOfMembers ms)

def isSound : Json K → Bool
  | .number .tooLarge => false
  | .text none => false
  | .array items => allItems items
  | .object members => allMembers members
  | _ => true
where
  allItems : List (Json K) → Bool
    | [] => true
    | v :: vs => v.isSound && allItems vs
  allMembers : List (Option String × Json K) → Bool
    | [] => true
    | (k, v) :: ms => k.isSome && v.isSound && allMembers ms

end Json

end BeamOptics
