import BeamOptics.Proofs.ParallelWalks
import BeamOptics.Proofs.PhysicalBeams

/-! Space charge without strength. Its kicks leave every beam that has sizes as it is, and the stretches
of free motion between them add up to free motion at once, so that a line has the maps that it has
without space charge, whatever its slices. -/

namespace BeamOptics

noncomputable def SpaceCharge.idle (sliceLength : ℝ) : SpaceCharge ℝ := ⟨0, 0, sliceLength⟩

section Drifts

variable {beam : Covariance ℝ} {sliceLength : ℝ} {acc : PhaseMap ℝ}

/-- A kick without strength changes nothing. -/
theorem SpaceCharge.kick_idle {length : ℝ} {kick : PhaseMap ℝ}
    (h : (idle sliceLength).kick beam length = .ok kick) : kick = PhaseMap.identity := by
  obtain ⟨sizes, -, hkick⟩ := bind_eq_ok.mp h
  have hthin (size : ℝ) : (⟨1, 0, 0 / size * length, 1⟩ : Block ℝ) = Block.identity := by
    rw [zero_div, zero_mul, Block.identity, Scalar.real_zero, Scalar.real_one]
  rw [← pure_eq_ok.mp hkick, ← PhaseMap.ofBlocks_identity]
  simp only [idle, Scalar.real_zero, Scalar.real_one, hthin]

/-- However many kicks lie on the way, a drift with them is the free motion over its length. -/
theorem kickedDrift_idle (hbeam : beam.Physical) (hacc : acc.KeepsOrientation)
    (slicing : Slicing ℝ) (gamma finish : ℝ) (n j : ℕ) (z : ℝ) :
    (kickedDrift ⟨beam, .idle sliceLength⟩ slicing gamma n j z acc).map
        (fun r => PhaseMap.drift (finish - r.2) gamma * r.1) =
      .ok (PhaseMap.drift (finish - z) gamma * acc) := by
  -- The induction is on the kicks ahead; each takes the map on to its own place and stays there.
  induction n generalizing j z acc with
  | zero => rfl
  | succ n ih =>
    have hfree := (PhaseMap.KeepsOrientation.drift (slicing.center j - z) gamma).mul hacc
    obtain ⟨kick, hkick, -⟩ : ∃ kick, (SpaceCharge.idle sliceLength).kick
        (beam.propagate (PhaseMap.drift (slicing.center j - z) gamma * acc)) slicing.length =
          .ok kick ∧ kick.KeepsOrientation := SpaceCharge.kick_ok hbeam hfree slicing.length
    have hnext : kickedDrift ⟨beam, .idle sliceLength⟩ slicing gamma (n + 1) j z acc =
        kickedDrift ⟨beam, .idle sliceLength⟩ slicing gamma n (j + 1) (slicing.center j)
          (PhaseMap.drift (slicing.center j - z) gamma * acc) := by
      change SpaceCharge.kick _ _ _ >>= _ = _
      rw [hkick, SpaceCharge.kick_idle hkick]
      change kickedDrift _ _ _ _ _ _ (Mat.identity 7 * _) = _
      rw [Mat.identity_mul]
    rw [hnext, ih hfree]
    calc
      Except.ok (PhaseMap.drift (finish - slicing.center j) gamma *
            (PhaseMap.drift (slicing.center j - z) gamma * acc))
          = .ok (PhaseMap.drift (finish - slicing.center j + (slicing.center j - z)) gamma * acc) := by
        rw [← Mat.mul_assoc, PhaseMap.drift_mul]
      _ = .ok (PhaseMap.drift (finish - z) gamma * acc) := by rw [sub_add_sub_cancel]

/-- On a physical beam, a drift with idle kicks is a drift without kicks. -/
theorem driftSegment_idle (hbeam : beam.Physical) (hacc : acc.KeepsOrientation)
    (length gamma y z : ℝ) :
    driftSegment (some ⟨beam, .idle sliceLength⟩) length gamma y z acc =
      driftSegment none length gamma y z acc := by
  rcases le_or_gt z y with hzy | hyz
  · rw [driftSegment_self _ length gamma hzy, driftSegment_self _ length gamma hzy]
  · rw [driftSegment_charged _ length gamma hyz acc rfl, driftSegment_uncharged length gamma hyz acc]
    exact kickedDrift_idle hbeam hacc _ gamma z _ _ y

end Drifts

namespace BeamLine

def SameAndUpright (M N : PhaseMap ℝ) : Prop := M = N ∧ M.KeepsOrientation

/-- A walk with idle space charge goes side by side with the one without. -/
theorem parallelCharges_idle {beam : Covariance ℝ} (hbeam : beam.Physical) (sliceLength : ℝ) :
    ParallelCharges (· = ·) SameAndUpright (some ⟨beam, .idle sliceLength⟩) none where
  fault := fun _ => rfl
  entrance := ⟨rfl, PhaseMap.KeepsOrientation.identity⟩
  drift := by
    rintro length gamma y z M _ ⟨rfl, hM⟩
    rw [driftSegment_idle hbeam hM]
    obtain ⟨N, hN, hkeeps⟩ := driftSegment_ok physicallyCharged_none hM length gamma y z
    rw [hN]
    exact .ok ⟨rfl, hkeeps⟩
  gap := by
    rintro p y z M _ ⟨rfl, hM⟩
    exact ⟨rfl, (Passage.transportBetween_keepsOrientation p y z).mul hM⟩

/-- Without space charge there are maps to all accepted positions as soon as the particle gets to the
end of the line. -/
theorem zeroCurrentMaps_ok {line : BeamLine ℝ} (hline : line.Built) {ps : List ℝ}
    (hps : checkPositions line.length 0 ps = .ok ()) (hexit : ∃ q, line.exitProbe = .ok q) :
    ∃ Ms, line.zeroCurrentMaps ps = .ok Ms ∧ Ms.length = ps.length := by
  obtain ⟨q, hq⟩ := hexit
  obtain ⟨M, -, hway⟩ : ∃ M, M.KeepsOrientation ∧ line.wayThrough none =
      line.exitProbe.map (M, ·) :=
    through_eq physicallyCharged_none PhaseMap.KeepsOrientation.identity
  cases h : line.walk none ps with
  | error f =>
    rw [walk_eq_error hline hps, hway, hq] at h
    cases h
  | ok Ms => exact ⟨Ms, h, ((walk_eq_ok hline hps).mp h).2.length_eq.symm⟩

/-- Space charge without strength does not show in the maps of a line, whatever its slices: for every
physical beam they are those without space charge, at all positions and with the same faults. They are
there as soon as the positions are accepted and the particle gets through the gaps. -/
theorem mapsAt_idle {line : BeamLine ℝ} (hline : line.Built) {sliceLength : ℝ}
    (hidle : line.spaceCharge = some (.idle sliceLength)) {beam : Covariance ℝ}
    (hbeam : beam.Physical) (ps : List ℝ) :
    line.mapsAt beam ps = line.zeroCurrentMaps ps ∧
      (checkPositions line.length 0 ps = .ok () →
        PassesGaps line.formula line.elements line.probe →
          ∃ Ms, line.mapsAt beam ps = .ok Ms ∧ Ms.length = ps.length) := by
  have hcharge : line.charge beam = some ⟨beam, .idle sliceLength⟩ := by
    rw [charge, hidle]
    rfl
  -- The two walks stay beside each other, since idle kicks keep every map as it is.
  have hwalks : Alike (· = ·) (List.Forall₂ SameAndUpright) (line.walk (line.charge beam) ps)
      (line.walk none ps) := by
    rw [hcharge]
    exact walk_alike (parallelCharges_idle hbeam sliceLength) line line.spaceCharge ps
  have hsame : line.mapsAt beam ps = line.zeroCurrentMaps ps := by
    rw [mapsAt, zeroCurrentMaps]
    rcases hwalks.elim with ⟨f, g, hf, hg, rfl⟩ | ⟨Ms, Ns, hMs, hNs, hall⟩
    · rw [hf, hg]
    · rw [hMs, hNs]
      exact congrArg Except.ok (List.forall₂_eq_eq_eq ▸ hall.imp fun _ _ h => h.1)
  refine ⟨hsame, fun hps hgaps => ?_⟩
  rw [hsame]
  exact zeroCurrentMaps_ok hline hps hgaps.probeBehind

noncomputable def idleLine : BeamLine ℝ := { rampLine with spaceCharge := some (.idle (3 / 10)) }

theorem mapsAt_idle_rampLine :
    idleLine.Built ∧ idleLine.spaceCharge = some (.idle (3 / 10)) ∧ slantedBeam.Physical ∧
      checkPositions idleLine.length 0 [1 / 4, 1, 1] = .ok () ∧
      PassesGaps idleLine.formula idleLine.elements idleLine.probe ∧
      idleLine.mapsAt slantedBeam [1 / 4, 1, 1] = idleLine.zeroCurrentMaps [1 / 4, 1, 1] ∧
      ∃ Ms, idleLine.mapsAt slantedBeam [1 / 4, 1, 1] = .ok Ms ∧ Ms.length = 3 := by
  have hmodel : SpaceCharge.mk? 0 0 (3 / 10) = .ok (SpaceCharge.idle (3 / 10)) := by
    simp [SpaceCharge.mk?, SpaceCharge.idle]
  have hbuilt : idleLine.Built := .withSpaceCharge hmodel rampLine_built
  have hps : checkPositions idleLine.length 0 [1 / 4, 1, 1] = .ok () := by
    rw [checkPositions_eq_ok le_rfl, length_eq_sum]
    norm_num [idleLine, rampLine, positionSlack, Element.length, FieldModel.length, ramp_length]
  obtain ⟨hsame, hok⟩ := mapsAt_idle hbuilt rfl slantedBeam_physical [1 / 4, 1, 1]
  exact ⟨hbuilt, rfl, slantedBeam_physical, hps, rampLine_passesGaps, hsame, hok hps rampLine_passesGaps⟩

end BeamLine

end BeamOptics
