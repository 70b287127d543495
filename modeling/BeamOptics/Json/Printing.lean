import BeamOptics.Decimal.Text
import BeamOptics.Json.Tree

/-!
Documents as text, on one line or with one member to a line.

Numbers have the fewest digits that read back: positional with at least one place while the decimal
point stands less than five zeros before the digits and at most sixteen digits behind their start,
with a signed exponent otherwise.
-/

namespace BeamOptics.Json

open Decimal

/-- A finite number; `null` stands for any other. -/
def realText (x : Float) : List Char :=
  if !x.isFinite then "null".toList
  else
    let d := (Binary.ofFloat x).shortest false
    let body :=
      if -5 < d.point ∧ d.point ≤ 16 then
        let cs := d.positional
        if cs.contains '.' then cs else cs ++ ['.', '0']
      else d.exponential true
    if isNegative x then '-' :: body else body

def hexDigit (n : Nat) : Char := (Nat.digitChar n)

def escaped (c : Char) : List Char :=
  match c with
  | '"' => ['\\', '"']
  | '\\' => ['\\', '\\']
  | '\n' => ['\\', 'n']
  | '\r' => ['\\', 'r']
  | '\t' => ['\\', 't']
  | c =>
    if c.toNat = 8 then ['\\', 'b']
    else if c.toNat = 12 then ['\\', 'f']
    else if c.toNat < 32 then
      ['\\', 'u', '0', '0', hexDigit (c.toNat / 16), hexDigit (c.toNat % 16)]
    else [c]

def quoted (s : String) : List Char := '"' :: s.toList.flatMap escaped ++ ['"']

def numberText : JsonNumber Float → List Char
  | .count n => (toString n).toList
  | .below n => '-' :: (toString n).toList
  | .real x => realText x
  | .tooLarge => "null".toList

def compact : Json Float → List Char
  | .null => "null".toList
  | .bool b => (toString b).toList
  | .number n => numberText n
  | .text s => quoted (s.getD "")
  | .array items => '[' :: compactItems items ++ [']']
  | .object members => '\x7b' :: compactMembers members ++ ['\x7d']
where
  compactItems : List (Json Float) → List Char
    | [] => []
    | [v] => v.compact
    | v :: vs => v.compact ++ ',' :: compactItems vs
  compactMembers : List (Option String × Json Float) → List Char
    | [] => []
    | [(k, v)] => quoted (k.getD "") ++ ':' :: v.compact
    | (k, v) :: ms => quoted (k.getD "") ++ ':' :: v.compact ++ ',' :: compactMembers ms

def newLine (level : Nat) : List Char := '\n' :: List.replicate (2 * level) ' '

def pretty (level : Nat) : Json Float → List Char
  | .array [] => ['[', ']']
  | .array items => '[' :: prettyItems (level + 1) items ++ newLine level ++ [']']
  | .object [] => ['\x7b', '\x7d']
  | .object members => '\x7b' :: prettyMembers (level + 1) members ++ newLine level ++ ['\x7d']
  | .null => "null".toList
  | .bool b => (toString b).toList
  | .number n => numberText n
  | .text s => quoted (s.getD "")
where
  prettyItems (level : Nat) : List (Json Float) → List Char
    | [] => []
    | [v] => newLine level ++ v.pretty level
    | v :: vs => newLine level ++ v.pretty level ++ ',' :: prettyItems level vs
  prettyMembers (level : Nat) : List (Option String × Json Float) → List Char
    | [] => []
    | [(k, v)] => newLine level ++ quoted (k.getD "") ++ ':' :: ' ' :: v.pretty level
    | (k, v) :: ms =>
      newLine level ++ quoted (k.getD "") ++ ':' :: ' ' :: v.pretty level
        ++ ',' :: prettyMembers level ms

end BeamOptics.Json
