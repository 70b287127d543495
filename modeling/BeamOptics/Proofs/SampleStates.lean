import BeamOptics.Proofs.LongitudinalArea

/-! The particle from sample to sample. The states that an integration lists are those that its steps
reach one after the other, so the table of a passage is a recursion over the samples: the kick of a
sample changes the energy behind it, and the phase moves on with the velocity behind the kick. -/

namespace BeamOptics

namespace SplitStep

variable {K State : Type}

def stateAt (system : SplitStep K State) (size : K) (start : State) : ℕ → State
  | 0 => start
  | n + 1 => system.step n size (system.stateAt size start n)

/-- The loop over samples lists the states that the recursion reaches. -/
theorem statesFrom_eq_map (system : SplitStep K State) (size : K) (start : State) (count index : ℕ) :
    system.statesFrom size count index (system.stateAt size start index) =
      (List.range' index count).map (system.stateAt size start) := by
  induction count generalizing index with
  | zero => rfl
  | succ count ih =>
    rw [statesFrom, List.range'_succ, List.map_cons]
    exact congrArg _ (ih (index + 1))

theorem integrate_eq_map (system : SplitStep K State) (start : State) (count : ℕ) (size : K) :
    system.integrate start count size = (List.range count).map (system.stateAt size start) := by
  rw [List.range_eq_range']
  exact system.statesFrom_eq_map size start count 0

end SplitStep

namespace Passage

variable {K : Type} [Scalar K] (profile : Profile K) (drive : Drive K) (probe : Probe K)
  (formula : LongitudinalFormula)

def motionAt : ℕ → Motion K :=
  (synchronous profile drive probe).stateAt profile.spacing ⟨drive.entryPhase, probe.kineticEnergy⟩

theorem table_of : (of profile drive probe formula).table.toList =
    (List.range profile.size).map (motionAt profile drive probe) :=
  SplitStep.integrate_eq_map _ _ _ _

/-- Behind the last sample the particle reads as it entered. -/
theorem motion_of (i : ℕ) : (of profile drive probe formula).motion i =
    if i < profile.size then motionAt profile drive probe i
      else ⟨drive.entryPhase, probe.kineticEnergy⟩ := by
  rw [motion, Array.getD_eq_getD_getElem?, ← Array.getElem?_toList, table_of, List.getElem?_map]
  split_ifs with hi
  · rw [List.getElem?_range hi]
    rfl
  · rw [List.getElem?_eq_none (by simpa using hi)]
    rfl

/-- Behind a sample stands what its step makes of the particle. -/
theorem motion_succ {i : ℕ} (hi : i + 1 < profile.size) :
    (of profile drive probe formula).motion (i + 1) =
      (synchronous profile drive probe).step i profile.spacing
        ((of profile drive probe formula).motion i) := by
  rw [motion_of, motion_of, if_pos hi, if_pos (Nat.lt_of_succ_lt hi)]
  rfl

/-- From one sample to the next the particle gains the work of the field. -/
theorem energy_succ {i : ℕ} (hi : i + 1 < profile.size) :
    ((of profile drive probe formula).motion (i + 1)).energy =
      ((of profile drive probe formula).motion i).energy +
        probe.charge * drive.amplitude * profile.sample i *
          Scalar.cos ((of profile drive probe formula).motion i).phase * profile.spacing := by
  rw [motion_succ profile drive probe formula hi]
  rfl

/-- The phase advances at the velocity behind the kick. -/
theorem phase_succ {i : ℕ} (hi : i + 1 < profile.size) :
    ((of profile drive probe formula).motion (i + 1)).phase =
      ((of profile drive probe formula).motion i).phase +
        drive.omega * profile.spacing /
          ((of profile drive probe formula).betaAt (i + 1) * speedOfLight) := by
  rw [betaAt, gammaAt, motion_succ profile drive probe formula hi]
  rfl

theorem phases_eq_map : (of profile drive probe formula).phases =
    (List.range profile.size).map fun i => ((of profile drive probe formula).motion i).phase := by
  rw [phases, table_of, List.map_map]
  apply List.map_congr_left
  intro i hi
  rw [motion_of, if_pos (List.mem_range.mp hi)]
  rfl

theorem energies_eq_map : (of profile drive probe formula).energies =
    (List.range profile.size).map fun i => ((of profile drive probe formula).motion i).energy := by
  rw [energies, table_of, List.map_map]
  apply List.map_congr_left
  intro i hi
  rw [motion_of, if_pos (List.mem_range.mp hi)]
  rfl

end Passage

end BeamOptics
