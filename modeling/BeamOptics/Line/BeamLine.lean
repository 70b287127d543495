import BeamOptics.Gap.Passage
import BeamOptics.Line.SpaceCharge

/-!
Straight lines of drifts and accelerating gaps.

A walk goes through the elements once and leaves the map from the entrance at every requested
position. It carries the map so far and the particle as the gaps have accelerated it. In a drift
with space charge the kicks depend on the beam that the map so far makes of the one at the entrance.
-/

namespace BeamOptics

inductive Element (K : Type) [Scalar K] where
  | drift (length : K)
  | gap (model : FieldModel K) (drive : Drive K)

structure BeamLine (K : Type) [Scalar K] where
  probe : Probe K
  elements : List (Element K)
  spaceCharge : Option (SpaceCharge K) := none
  formula : LongitudinalFormula := .logRatio

structure ChargedBeam (K : Type) where
  beam : Covariance K
  model : SpaceCharge K

structure Cursor (K : Type) where
  map : PhaseMap K
  probe : Probe K
  -- the distance from the entrance
  start : K
  ahead : List K
  -- the maps at the positions passed, in order
  passed : List (PhaseMap K)

namespace Element

variable {K : Type} [Scalar K]

def length : Element K → K
  | drift l => l
  | gap model _ => model.length

def isGap : Element K → Bool
  | drift _ => false
  | gap .. => true

end Element

section Drift

variable {K : Type} [Scalar K]

/-- A number of kicks, from kick `j` on, at the centres of slices with free motion in front of each:
the map behind the last kick and the place of that kick. -/
def kickedDrift (charged : ChargedBeam K) (slicing : Slicing K) (gamma : K) :
    (count j : Nat) → (z : K) → PhaseMap K → Except (Fault K) (PhaseMap K × K)
  | 0, _, z, acc => .ok (acc, z)
  | count + 1, j, z, acc => do
    let center := slicing.center j
    let acc := PhaseMap.drift (center - z) gamma * acc
    let kick ← charged.model.kick (charged.beam.propagate acc) slicing.length
    kickedDrift charged slicing gamma count (j + 1) center (kick * acc)

def driftSegment (charged : Option (ChargedBeam K)) (length gamma start finish : K)
    (acc : PhaseMap K) : Except (Fault K) (PhaseMap K) :=
  if finish ≤ start then .ok acc
  else match charged with
    | none => .ok (PhaseMap.drift (finish - start) gamma * acc)
    | some charged => do
      let slicing := Slicing.of length charged.model.sliceLength
      let (acc, z) ← kickedDrift charged slicing gamma (slicing.kicksBetween start finish)
        (slicing.kicksUpTo start) start acc
      return PhaseMap.drift (finish - z) gamma * acc

/-- The maps at the stops of an element and at its end, from the rule that extends a map between two
places. -/
def throughStops (segment : K → K → PhaseMap K → Except (Fault K) (PhaseMap K)) (finish : K) :
    (stops : List K) → (start : K) → PhaseMap K → Except (Fault K) (List (PhaseMap K) × PhaseMap K)
  | [], start, acc => (segment start finish acc).map ([], ·)
  | stop :: stops, start, acc => do
    let acc ← segment start stop acc
    let (maps, last) ← throughStops segment finish stops stop acc
    return (acc :: maps, last)

end Drift

namespace BeamLine

variable {K : Type} [Scalar K]

def lengthFault? : (index : Nat) → List (Element K) → Option (SetupFault K)
  | _, [] => none
  | i, e :: es =>
    if Scalar.isPositive e.length then lengthFault? (i + 1) es
    else some (.elementLength i e.length)

def mk? (probe : Probe K) (elements : List (Element K)) : Except (Fault K) (BeamLine K) :=
  if elements.isEmpty then .error (.setup .emptyLine)
  else match lengthFault? 0 elements with
    | some cause => .error (.setup cause)
    | none => .ok { probe, elements }

/-- The length of the line. The sum starts from `-0`, which no first addend can tell from nothing.
-/
def length (line : BeamLine K) : K := line.elements.foldl (fun acc e => acc + e.length) (-0)

def positionSlack : K := 1e-9

/-- Checks that positions lie in a line of the given length and in ascending order from `last` on.
-/
def checkPositions (total : K) : (last : K) → List K → Except (Fault K) Unit
  | _, [] => .ok ()
  | last, p :: ps =>
    if !Scalar.isFinite p || decide (p < 0) || decide (total + positionSlack < p) then
      .error (.setup (.positionOutside p total))
    else if p < last then .error (.setup .positionOrder)
    else checkPositions total p ps

/-- One element passed. Its stops are the positions ahead up to its end, or all of them if it is the
last. -/
def advance (line : BeamLine K) (charged : Option (ChargedBeam K)) (isLast : Bool) (e : Element K)
    (c : Cursor K) : Except (Fault K) (Cursor K) := do
  let finish := c.start + e.length
  -- the last element takes all that lies ahead, the slack behind the line included
  let stops := if isLast then c.ahead else c.ahead.takeWhile (· ≤ finish)
  let ahead := if isLast then [] else c.ahead.dropWhile (· ≤ finish)
  let stops := stops.map (· - c.start)
  match e with
  | .drift length =>
    let (maps, map) ←
      throughStops (driftSegment charged length c.probe.gamma) length stops 0 c.map
    return ⟨map, c.probe, finish, ahead, c.passed ++ maps⟩
  | .gap model drive =>
    let profile ← model.profileFor c.probe
    let passage := Passage.of profile drive c.probe line.formula
    let (maps, map) ← throughStops
      (fun a b acc => .ok (passage.transportBetween a b * acc)) e.length stops 0 c.map
    return ⟨map, passage.exitProbe, finish, ahead, c.passed ++ maps⟩

def passAll (line : BeamLine K) (charged : Option (ChargedBeam K)) :
    List (Element K) → Cursor K → Except (Fault K) (Cursor K)
  | [], c => .ok c
  | e :: es, c => do
    let c ← line.advance charged es.isEmpty e c
    line.passAll charged es c

def entrance (line : BeamLine K) (positions : List K) : Cursor K :=
  ⟨PhaseMap.identity, line.probe, 0, positions, []⟩

def walk (line : BeamLine K) (charged : Option (ChargedBeam K)) (positions : List K) :
    Except (Fault K) (List (PhaseMap K)) := do
  checkPositions line.length 0 positions
  let c ← line.passAll charged line.elements (line.entrance positions)
  return c.passed

def charge (line : BeamLine K) (beam : Covariance K) : Option (ChargedBeam K) :=
  line.spaceCharge.map (⟨beam, ·⟩)

def mapsAt (line : BeamLine K) (beam : Covariance K) (positions : List K) :
    Except (Fault K) (List (PhaseMap K)) :=
  line.walk (line.charge beam) positions

def zeroCurrentMaps (line : BeamLine K) (positions : List K) :
    Except (Fault K) (List (PhaseMap K)) :=
  line.walk none positions

def probeBehind (formula : LongitudinalFormula) :
    List (Element K) → Probe K → Except (Fault K) (Probe K)
  | [], probe => .ok probe
  | .drift _ :: es, probe => probeBehind formula es probe
  | .gap model drive :: es, probe => do
    let profile ← model.profileFor probe
    probeBehind formula es (Passage.of profile drive probe formula).exitProbe

def exitProbe (line : BeamLine K) : Except (Fault K) (Probe K) :=
  probeBehind line.formula line.elements line.probe

/-- The number of gaps that the particle gets through before the elements end or one fails. -/
def gapsPassed (line : BeamLine K) (charged : Option (ChargedBeam K)) :
    List (Element K) → Cursor K → Nat
  | [], _ => 0
  | e :: es, c =>
    match line.advance charged es.isEmpty e c with
    | .error _ => 0
    | .ok c => (if e.isGap then 1 else 0) + line.gapsPassed charged es c

end BeamLine

end BeamOptics
