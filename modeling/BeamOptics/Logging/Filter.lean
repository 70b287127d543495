import BeamOptics.Logging.Directive

/-!
Which events are shown.

A filter is a list of directives between commas. A target stands for all targets that begin with it,
and a field for all events that have it. Of the directives that cover an event the closest decides:
the one with the longest target, and of several those with a field. An empty filter shows errors.
-/

namespace BeamOptics

abbrev LogFilter := List Directive

structure Event where
  level : LogLevel
  target : String
  details : List String
  message : String
deriving DecidableEq, Repr

def Event.fields (e : Event) : List String := "message" :: e.details

namespace Directive

def covers (d : Directive) (e : Event) : Bool :=
  (d.target.map fun start => start.isPrefixOf e.target.toList).getD true
    && (d.field.map fun f => e.fields.contains (String.ofList f.name)).getD true

def closeness (d : Directive) : Nat := (d.target.map fun start => start.length + 1).getD 0

def fieldRank (d : Directive) : List Char := (d.field.map fun f => '\x01' :: f.name).getD []

def yieldsTo (d e : Directive) : Bool :=
  d.closeness < e.closeness
    || d.closeness = e.closeness && !decide (e.fieldRank < d.fieldRank)

end Directive

namespace LogFilter

def ofLevel (level : LogLevel) : LogFilter := [.ofLevel (some level)]

def ofText (text : String) : Except DirectiveTrouble LogFilter := do
  let parts := (text.splitOn ",").filter (· ≠ "")
  if parts.isEmpty then return ofLevel .error
  parts.mapM fun part => Directive.ofText part.toList

/-- The filter of a configuration: its own, or by level if it has none or a malformed one; none if
the filter splits a character. -/
def ofConfig? (c : LogConfig) : Option LogFilter :=
  match c.filter.map ofText with
  | some (.ok f) => some f
  | some (.error .splitCharacter) => none
  | some (.error .malformed) | none => some (ofLevel c.level)

def deciding? (f : LogFilter) (e : Event) : Option Directive :=
  (f.filter fun d => d.decides && d.covers e).foldl
    (fun best d => match best with
      | none => some d
      | some b => if b.yieldsTo d then some d else some b)
    none

def isShown (f : LogFilter) (e : Event) : Bool :=
  match (f.deciding? e).bind (·.level) with
  | none => false
  | some level => level.weight ≤ e.level.weight

end LogFilter

end BeamOptics
