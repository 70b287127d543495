import BeamOptics.Text.Alphanumeric

/-!
Which texts are regular expressions.

A pattern is read from left to right: repetitions need something before them, groups and classes
must close, and an escape must be one of those below. Boundaries of words have no place in the
patterns here, and neither has a counted repetition, since no closing brace stands inside a pattern.
-/

namespace BeamOptics.Pattern

def hexDigit? (c : Char) : Option Nat :=
  if c.isDigit then some (c.toNat - 48)
  else if 'a' ≤ c && c ≤ 'f' then some (c.toNat - 87)
  else if 'A' ≤ c && c ≤ 'F' then some (c.toNat - 55)
  else none

def hexChar? (count : Nat) (cs : List Char) : Option (Char × List Char) := do
  let digits ← (cs.take count).mapM hexDigit?
  let n := digits.foldl (16 * · + ·) 0
  if h : digits.length = count ∧ n.isValidChar then
    return (Char.ofNatAux n h.2, cs.drop count)
  none

/-- What follows a backslash: a single character, or `none` for a class of characters or an
assertion; with it what follows the escape. -/
def escape? (inClass : Bool) : List Char → Option (Option Char × List Char)
  | [] => none
  | c :: cs =>
    if "dswDSW".contains c then some (none, cs)
    else if "AzZ".contains c then if c = 'Z' || inClass then none else some (none, cs)
    else if "aftnrv".contains c then
      some (some (Char.ofNat (match c with
        | 'a' => 7
        | 'f' => 12
        | 't' => 9
        | 'n' => 10
        | 'r' => 13
        | _ => 11)), cs)
    else if c = 'x' then (hexChar? 2 cs).map fun (c, cs) => (some c, cs)
    else if c = 'u' then (hexChar? 4 cs).map fun (c, cs) => (some c, cs)
    else if c = 'U' then (hexChar? 8 cs).map fun (c, cs) => (some c, cs)
    else if c = 'p' || c = 'P' then
      match cs with
      | category :: cs => if "CLMNPSZ".contains category.toUpper then some (none, cs) else none
      | [] => none
    else if c.toNat < 128 && !c.isAlphanum && c ≠ '<' && c ≠ '>' then some (some c, cs)
    else none

def member? : List Char → Option (Option Char × List Char)
  | '\\' :: cs => escape? true cs
  | c :: cs => some (some c, cs)
  | [] => none

def namedClasses : List String :=
  ["alnum", "alpha", "ascii", "blank", "cntrl", "digit", "graph", "lower", "print", "punct",
    "space", "upper", "word", "xdigit"]

def namedClass? (cs : List Char) : Option (List Char) :=
  let cs := if cs.head? = some '^' then cs.drop 1 else cs
  match cs.dropWhile (· ≠ ':') with
  | ':' :: ']' :: rest =>
    if namedClasses.contains (String.ofList (cs.takeWhile (· ≠ ':'))) then some rest else none
  | _ => none

/-- What follows the beginning of a class: a circumflex negates it, and hyphens, or else a closing
bracket, stand for themselves there. -/
def classStart (cs : List Char) : List Char :=
  let cs := if cs.head? = some '^' then cs.drop 1 else cs
  if cs.head? = some '-' then cs.dropWhile (· = '-')
  else if cs.head? = some ']' then cs.drop 1
  else cs

/-- What follows a class with `depth` brackets open, looking at no more than `fuel` members. -/
def classEnd? : (fuel : Nat) → (depth : Nat) → List Char → Option (List Char)
  | 0, _, _ => none
  | fuel + 1, depth, cs =>
    match cs with
    | [] => none
    | ']' :: cs => if depth ≤ 1 then some cs else classEnd? fuel (depth - 1) cs
    -- operations between sets of members
    | '&' :: '&' :: cs => classEnd? fuel depth cs
    | '-' :: '-' :: cs => classEnd? fuel depth cs
    | '~' :: '~' :: cs => classEnd? fuel depth cs
    | '[' :: cs =>
      match if cs.head? = some ':' then namedClass? (cs.drop 1) else none with
      | some cs => classEnd? fuel depth cs
      | none => classEnd? fuel (depth + 1) (classStart cs)
    | cs => do
      let (first, rest) ← member? cs
      match rest with
      | '-' :: c :: rest' =>
        if c = ']' || c = '-' then classEnd? fuel depth rest
        else
          let (last, rest) ← member? (c :: rest')
          if (← first) ≤ (← last) then classEnd? fuel depth rest else none
      | rest => classEnd? fuel depth rest

/-- Flags of a group: each at most once, with at most one minus sign, which is not the last. -/
def areFlags (cs : List Char) : Bool :=
  cs.all ("imsUuRx-".contains ·) && decide cs.Nodup && cs.getLast? ≠ some '-'

def isGroupName (cs : List Char) : Bool :=
  let isLetter (c : Char) := c = '_' || CharClass.alphanumeric.has c
  match cs with
  | [] => false
  | c :: cs =>
    isLetter c && !c.isDigit && cs.all fun c => isLetter c || c = '.' || c = '[' || c = ']'

/-- What follows the beginning of a group, whose bracket was read, and whether something is to be
closed again. -/
def group? (cs : List Char) : Option (Bool × List Char) :=
  let named (cs : List Char) :=
    if isGroupName (cs.takeWhile (· ≠ '>')) && cs.contains '>' then
      some (true, (cs.dropWhile (· ≠ '>')).drop 1)
    else none
  match cs with
  | '?' :: 'P' :: '<' :: cs => named cs
  | '?' :: '<' :: cs => named cs
  | '?' :: cs =>
    let flags := cs.takeWhile fun c => c ≠ ':' && c ≠ ')'
    if areFlags flags then
      match cs.drop flags.length with
      | ':' :: cs => some (true, cs)
      | ')' :: cs => if flags.isEmpty then none else some (false, cs)
      | _ => none
    else none
  | cs => some (true, cs)

/-- The rest of a pattern is sound, with `depth` groups open; `operand` says that a repetition may
follow. No more than `fuel` steps are made. -/
def isSound : (fuel : Nat) → (depth : Nat) → (operand : Bool) → List Char → Bool
  | 0, _, _, _ => false
  | fuel + 1, depth, operand, cs =>
    match cs with
    | [] => depth = 0
    | '(' :: cs =>
      match group? cs with
      | some (true, cs) => isSound fuel (depth + 1) false cs
      | some (false, cs) => isSound fuel depth false cs
      | none => false
    | ')' :: cs => 0 < depth && isSound fuel (depth - 1) true cs
    | '|' :: cs => isSound fuel depth false cs
    | '[' :: cs =>
      match classEnd? (cs.length + 1) 1 (classStart cs) with
      | some cs => isSound fuel depth true cs
      | none => false
    | '\\' :: cs =>
      match escape? false cs with
      | some (_, cs) => isSound fuel depth true cs
      | none => false
    | c :: cs =>
      if c = '*' || c = '+' || c = '?' then
        operand && isSound fuel depth true (if cs.head? = some '?' then cs.drop 1 else cs)
      else c ≠ '\x7b' && isSound fuel depth true cs

def isPattern (cs : List Char) : Bool := isSound (cs.length + 1) 0 false cs

end BeamOptics.Pattern
