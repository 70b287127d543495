import BeamOptics.Decimal.Reading
import BeamOptics.Logging.Config
import BeamOptics.Logging.Pattern
import BeamOptics.Text.Bytes

/-!
Directives of a log filter.

A directive is a level for everything, or a target, perhaps with a span and a field in brackets, and
a level behind an equals sign: `target[span{field}]=level`. Without a level it stands for every
level.

White space around a directive is passed over when its parts are told apart. The parts are then cut
from the whole text at the positions that they have without that space, so a directive with space
before it rarely means what it seems to, and its parts may begin or end inside a character.
-/

namespace BeamOptics

structure FieldCondition where
  name : List Char
  hasValue : Bool
deriving DecidableEq, Repr

structure Directive where
  -- the start of the targets meant; none means all
  target : Option (List Char)
  span : Option (List Char)
  field : Option FieldCondition
  -- the least level; none means that nothing is shown
  level : Option LogLevel
deriving DecidableEq, Repr

inductive DirectiveTrouble where
  | malformed
  | splitCharacter
deriving DecidableEq, Repr

namespace Directive

def ofLevel (level : Option LogLevel) : Directive := ⟨none, none, none, level⟩

def numbered : List (Option LogLevel) :=
  [none, some .error, some .warn, some .info, some .debug, some .trace]

def level? (cs : List Char) : Option (Option LogLevel) :=
  let digits := if cs.head? = some '+' then cs.drop 1 else cs
  if digits ≠ [] ∧ digits.all Char.isDigit then numbered[Decimal.digitsValue digits]?
  else
    let name := String.ofList (cs.map Char.toLower)
    if name = "off" then some none
    else (LogLevel.all.find? (·.name = name)).map some

def canStart (c : Char) : Bool :=
  c = '-' || c = ':' || c = '_' || CharClass.alphanumeric.has c

def trim (cs : List Char) : List Char :=
  ((cs.dropWhile CharClass.blank.has).reverse.dropWhile CharClass.blank.has).reverse

def part (text : List Char) (start size : Nat) : Except DirectiveTrouble (List Char) :=
  match Text.bytes? start size text with
  | some cs => .ok cs
  | none => .error .splitCharacter

def isValue (cs : List Char) : Bool :=
  (Decimal.read? (String.ofList cs)).isSome || Pattern.isPattern cs

def fieldCondition (cs : List Char) : Except DirectiveTrouble FieldCondition :=
  let name := cs.takeWhile (· ≠ '=')
  match cs.dropWhile (· ≠ '=') with
  | _ :: value =>
    if isValue (value.takeWhile (· ≠ '=')) then .ok ⟨name, true⟩ else .error .malformed
  | [] => if cs.isEmpty then .error .malformed else .ok ⟨name, false⟩

def levelFrom (text : List Char) (start : Nat) : Except DirectiveTrouble (Option LogLevel) :=
  match Text.dropBytes? start text with
  | none => .error .splitCharacter
  -- nothing behind the equals sign stands for every level
  | some [] => .ok (some .trace)
  | some cs => match level? cs with
    | some level => .ok level
    | none => .error .malformed

def levelBehind (text : List Char) (start : Nat) :
    List Char → Except DirectiveTrouble (Option LogLevel)
  | [] => .ok (some .trace)
  | '=' :: _ => levelFrom text (start + 1)
  | _ => .error .malformed

def bracketed (text : List Char) (target : Option (List Char)) (start : Nat) (cs : List Char) :
    Except DirectiveTrouble Directive := do
  let name := cs.takeWhile fun c => c ≠ ']' && c ≠ '\x7b'
  -- places in the text are counted in bytes, because its parts are cut out by them
  let stop := start + Text.byteSize name
  match cs.drop name.length with
  | ']' :: rest =>
    let span ← part text start (stop - start)
    return ⟨target, some span, none, ← levelBehind text (stop + 1) rest⟩
  | '\x7b' :: cs =>
    let span ← part text start (stop - start)
    let size := Text.byteSize (cs.takeWhile (· ≠ '\x7d'))
    match cs.dropWhile (· ≠ '\x7d') with
    | _ :: rest =>
      let field ← fieldCondition (← part text (stop + 1) size)
      match rest with
      | ']' :: rest =>
        let level ← levelBehind text (stop + size + 3) rest
        return ⟨target, if span.isEmpty then none else some span, some field, level⟩
      | _ => throw .malformed
    | [] => throw .malformed
  | _ => throw .malformed

def ofText (text : List Char) : Except DirectiveTrouble Directive := do
  let body := trim text
  let head := body.takeWhile fun c => c ≠ '=' && c ≠ '['
  let size := Text.byteSize head
  match head, body.drop head.length with
  | [], '[' :: rest => bracketed text none 1 rest
  | [], _ => throw .malformed
  | c :: _, rest =>
    if !canStart c then throw .malformed
    match rest with
    -- a word alone is a level if it can be one, and else a target
    | [] => match level? text with
      | some level => return .ofLevel level
      | none => return ⟨some text, none, none, some .trace⟩
    | '[' :: rest => bracketed text (some (← part text 0 size)) (size + 1) rest
    | rest =>
      let target ← part text 0 size
      return ⟨some target, none, none, ← levelBehind text size rest⟩

/-- The directive can decide on an event. No event lies in a span, and the values of fields are not
compared with events. -/
def decides (d : Directive) : Bool :=
  d.span.isNone && !(d.field.map (·.hasValue)).getD false

end Directive

end BeamOptics
