import BeamOptics.Field.Model
import BeamOptics.Gap.Formula
import BeamOptics.Gap.SplitStep
import BeamOptics.Phase.Map

/-!
The passage of the synchronous particle through a sampled field.

`Passage.of` steps the particle through every sample once and keeps its phase and energy at each.
Maps of sample ranges and energy gains are read off that table. A transfer map holds the action of
the field alone; a transport map has the drifts in it, half a step on either side of each kick.
-/

namespace BeamOptics

structure Motion (K : Type) where
  phase : K
  energy : K
deriving DecidableEq, BEq, Repr

/-- The synchronous particle at every sample of a field, for one entry condition. -/
structure Passage (K : Type) [Scalar K] where
  profile : Profile K
  drive : Drive K
  probe : Probe K
  formula : LongitudinalFormula
  table : Array (Motion K)

namespace Passage

variable {K : Type} [Scalar K]

/-- The motion of the synchronous particle: the field changes the energy, the velocity the phase. -/
def synchronous (profile : Profile K) (drive : Drive K) (probe : Probe K) :
    SplitStep K (Motion K) where
  kick index step m :=
    let force := probe.charge * drive.amplitude
    { m with energy := m.energy + force * profile.sample index * Scalar.cos m.phase * step }
  drift _ step m :=
    let beta := Relativity.beta (Relativity.gamma m.energy probe.restEnergy)
    { m with phase := m.phase + drive.omega * step / (beta * speedOfLight) }

def of (profile : Profile K) (drive : Drive K) (probe : Probe K) (formula : LongitudinalFormula) :
    Passage K where
  profile := profile
  drive := drive
  probe := probe
  formula := formula
  table := ((synchronous profile drive probe).integrate
    ⟨drive.entryPhase, probe.kineticEnergy⟩ profile.size profile.spacing).toArray

def matchesEntry (p : Passage K) (probe : Probe K) (drive : Drive K) : Bool :=
  p.probe == probe && p.drive == drive

def motion (p : Passage K) (i : Nat) : Motion K :=
  p.table.getD i ⟨p.drive.entryPhase, p.probe.kineticEnergy⟩

def phases (p : Passage K) : List K := p.table.toList.map (·.phase)

def energies (p : Passage K) : List K := p.table.toList.map (·.energy)

def lastIndex (p : Passage K) : Nat := p.profile.size - 1

def energyAt (p : Passage K) (z : K) : K := (p.motion (p.profile.indexOf z)).energy

def energyGain (p : Passage K) (start finish : K) : K := p.energyAt finish - p.energyAt start

def exitProbe (p : Passage K) : Probe K := p.probe.withKineticEnergy (p.motion p.lastIndex).energy

def gammaAt (p : Passage K) (i : Nat) : K :=
  Relativity.gamma (p.motion i).energy p.probe.restEnergy

def betaAt (p : Passage K) (i : Nat) : K := Relativity.beta (p.gammaAt i)

/-- The transverse generator of the step behind sample `i`: the focusing of the field's slope and of
its motion, and the damping by acceleration. -/
def transverseGenerator (p : Passage K) (i : Nat) : Block K :=
  let dz := p.profile.spacing
  let field := p.drive.amplitude * p.profile.sample i
  let slope := p.drive.amplitude * p.profile.slope i
  let phase := (p.motion i).phase
  let q := p.probe.charge
  let rest := p.probe.restEnergy
  let beta := p.betaAt i
  let gamma := p.gammaAt i
  let damping := q * field * Scalar.cos phase / rest / (beta * beta * gamma)
  let strength := q / (2 * rest * beta * beta * gamma)
    * (-slope * Scalar.cos phase
      + p.drive.omega * beta / speedOfLight * field * Scalar.sin phase)
  ⟨0, 0, strength * dz, -damping * dz⟩

/-- The longitudinal generator of the step behind sample `i`: the bunching force of the field, and
the change of momentum by the passage's formula. -/
def longitudinalGenerator (p : Passage K) (i : Nat) : Block K :=
  let field := p.drive.amplitude * p.profile.sample i
  let beta := p.betaAt i
  let gamma := p.gammaAt i
  let strength := p.probe.charge * p.drive.omega * field * Scalar.sin (p.motion i).phase
    / (p.probe.restEnergy * (beta * beta * beta) * gamma * speedOfLight)
  ⟨0, 0, strength * p.profile.spacing,
    p.formula.diagonal (beta * gamma) (p.betaAt (i + 1) * p.gammaAt (i + 1))⟩

def fieldStep (p : Passage K) (i : Nat) : Block K × Block K :=
  ((p.transverseGenerator i).exp, (p.longitudinalGenerator i).exp)

def halfDrift (p : Passage K) (slip : K) : Block K := ⟨1, p.profile.spacing / 2 / slip, 0, 1⟩

/-- The transverse and the longitudinal block of one step with its drifts. The longitudinal slip is
taken at the energy on either side of the kick. -/
def transportStep (p : Passage K) (i : Nat) : Block K × Block K :=
  let (transverse, longitudinal) := p.fieldStep i
  let free := p.halfDrift 1
  let before := p.halfDrift (p.gammaAt i * p.gammaAt i)
  let behind := p.halfDrift (p.gammaAt (i + 1) * p.gammaAt (i + 1))
  (free * transverse * free, behind * longitudinal * before)

/-- The composition of the steps from index `i` up to before index `j`, at most up to the last
sample. -/
def compose (p : Passage K) (step : Nat → Block K × Block K) (i j : Nat) : PhaseMap K :=
  let (transverse, longitudinal) := (List.range' i (min j p.lastIndex - i)).foldl
    (fun (t, l) k => let (s, m) := step k; (s * t, m * l)) (Block.identity, Block.identity)
  PhaseMap.ofBlocks ⟨transverse, transverse, longitudinal⟩

def transferRange (p : Passage K) (i j : Nat) : PhaseMap K := p.compose p.fieldStep i j

/-- The map of the field over a length from a position on, both snapped to samples. -/
def transferMap (p : Passage K) (position length : K) : PhaseMap K :=
  p.transferRange (p.profile.indexOf position) (p.profile.indexOf (position + length))

def fullMap (p : Passage K) : PhaseMap K := p.transferRange 0 p.lastIndex

def transportRange (p : Passage K) (i j : Nat) : PhaseMap K := p.compose p.transportStep i j

def transportBetween (p : Passage K) (start finish : K) : PhaseMap K :=
  p.transportRange (p.profile.indexOf start) (p.profile.indexOf finish)

end Passage

end BeamOptics
