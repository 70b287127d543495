import BeamOptics.Fault

/-!
Index arithmetic on machine integers.

Indices and counts are 64-bit words. A sum, difference or product that leaves the range is a fault,
so no result is ever taken modulo the word size; a count made from a number that is too large is
the last index.
-/

namespace BeamOptics.Index

variable {K : Type}

def limit : Nat := 18446744073709551616

def signedMax : Int := 9223372036854775807

def signedMin : Int := -9223372036854775808

def ofNat (n : Nat) : Except (Fault K) Nat := if n < limit then .ok n else .error .indexRange

def ofInt (i : Int) : Except (Fault K) Int :=
  if signedMin ≤ i ∧ i ≤ signedMax then .ok i else .error .indexRange

/-- A count as an unsigned index: one past the last index is taken for the last. -/
def saturate (n : Nat) : Nat := min n (limit - 1)

/-- A number of entries that take `bytes` bytes each, if the machine can address a table of them. -/
def ofCount (bytes n : Nat) : Except (Fault K) Nat :=
  if (bytes * n : Int) ≤ signedMax then .ok n else .error .indexRange

def numberSize : Nat := 8

end BeamOptics.Index
