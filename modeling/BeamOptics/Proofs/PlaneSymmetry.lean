import BeamOptics.Proofs.InterchangedPlanes
import BeamOptics.Proofs.ParallelRuns
import BeamOptics.Proofs.RelaxationLaw
import BeamOptics.Command.Reconstruction

/-! Reconstruction with the horizontal and the vertical plane in each other's place. The run of a beam and
of readings with these planes interchanged goes side by side with that of the beam and the readings:
each plane has the history that the other has there, and the factor is the largest over all planes. -/

namespace BeamOptics.Estimator

open Command PhaseMap

/-- What is kept between the runs of a beam and of that beam with two planes interchanged. -/
noncomputable def interchanging : Likeness ℝ (BeamLine ℝ) (BeamLine ℝ) where
  source line line' := line = line'
  maps Ms Ns := Ns = Ms.map planeSwap.conjugate
  beam s t := t = s.propagate planeSwap
  histories h h' := ∀ p, h'.get p = h.get p.interchanged
  fault := Fault.Kindred

/-- The increments on record change places with the planes. -/
theorem recordIncrements_planeSwap {h h' : Histories ℝ}
    (hh : ∀ p, h'.get p = h.get p.interchanged) {i j : Iteration ℝ}
    (hij : interchanging.Twins i j) (s t : Covariance ℝ) (p : Plane) :
    (recordIncrements h' j (s.propagate planeSwap) (t.propagate planeSwap)).get p =
      (recordIncrements h i s t).get p.interchanged := by
  have htrial : j.trial = i.trial.propagate planeSwap := hij.trial
  have hrecursion : j.recursion = i.recursion.propagate planeSwap := hij.recursion
  simp only [recordIncrements, Triple.get_ofFn, hh, htrial, hrecursion,
    Covariance.moments_planeSwap]

/-- The factor is the largest candidate, in whichever plane it is found. -/
theorem relaxation_interchanged (settings : Settings ℝ) {h h' : Histories ℝ}
    (hh : ∀ p, h'.get p = h.get p.interchanged) :
    (relaxation settings h).1 = (relaxation settings h').1 := by
  have hcandidates : {v | ∃ p, (h'.get p).candidate settings.rankTolerance = .ok (some v)} =
      {v | ∃ p, (h.get p).candidate settings.rankTolerance = .ok (some v)} := by
    ext v
    constructor
    · rintro ⟨p, hp⟩
      exact ⟨p.interchanged, by rwa [hh] at hp⟩
    · rintro ⟨p, hp⟩
      exact ⟨p.interchanged, by rwa [hh, Plane.interchanged_interchanged]⟩
  have hgreatest := relaxation_isGreatest settings h'
  rw [hcandidates] at hgreatest
  exact (relaxation_isGreatest settings h).unique hgreatest

/-- Every part of an iteration keeps beams and readings interchanged. -/
theorem interchanging_kept (readings : List (Reading ℝ)) :
    interchanging.Kept lineSource lineSource readings (readings.map Reading.interchanged) where
  check := Reading.check_interchanged readings
  answer := by
    rintro line _ s _ rfl rfl
    rw [Reading.positions_interchanged]
    exact line.mapsAt_planeSwap s _
  behind := fun h _ => h
  observe := by
    rintro Ms _ rfl
    exact Observation.observe_planeSwap Ms readings
  residual := by
    rintro Ms _ s _ rfl rfl
    exact .of_eq (s.residual_planeSwap Ms readings).symm fun _ => rfl
  relax := by
    rintro s _ t _ alpha rfl rfl
    exact s.relax_planeSwap t alpha
  empty := by
    intro p
    simp only [Histories.empty, Triple.get_ofFn]
  record := by
    rintro h h' i j s _ t _ hh hij rfl rfl
    exact recordIncrements_planeSwap hh hij s t
  factor := fun settings _ _ hh => relaxation_interchanged settings hh
  cap := fun _ _ _ => rfl

/-- What an estimation has in common with that of the beam with two planes interchanged. -/
structure Interchanged (x y : Except (Fault ℝ) (Covariance ℝ) × Estimator ℝ (BeamLine ℝ)) :
    Prop where
  result : Alike Fault.Kindred (fun s t => t = s.propagate planeSwap) x.1 y.1
  status : y.2.status = x.2.status
  begun : y.2.begun = x.2.begun
  alphas : y.2.alphas = x.2.alphas
  convergence : y.2.convergence = x.2.convergence
  residual : y.2.residual = x.2.residual

theorem Likeness.Twins.step_interchanging {i j : Iteration ℝ} (h : interchanging.Twins i j) :
    j.step = i.step := by
  have hnext : j.next = i.next.propagate planeSwap := h.next
  have htrial : j.trial = i.trial.propagate planeSwap := h.trial
  rw [h.step, h.step', hnext, htrial, Covariance.relativeDistance_planeSwap]

/-- The horizontal and the vertical plane are interchangeable on every line, with or without space
charge. A beam with these planes interchanged has the maps of the beam with them interchanged; and an
estimation from such a beam and from readings with their sizes interchanged goes side by side with the
one from the beam and the readings, and ends with its result interchanged or with a fault of the same
kind. -/
theorem planes_interchangeable (e : Estimator ℝ (BeamLine ℝ)) (initial : Covariance ℝ)
    (readings : List (Reading ℝ)) :
    (∀ beam ps, Alike Fault.Kindred (fun Ms Ns => Ns = Ms.map planeSwap.conjugate)
      (e.source.mapsAt beam ps) (e.source.mapsAt (beam.propagate planeSwap) ps)) ∧
    Interchanged (estimate lineSource e initial readings)
      (estimate lineSource e (initial.propagate planeSwap)
        (readings.map Reading.interchanged)) := by
  refine ⟨e.source.mapsAt_planeSwap, ?_⟩
  have hdecide : ∀ i ∈ (estimate lineSource e initial readings).2.completed, ∀ j,
      interchanging.Twins i j →
        (i.step < e.settings.tolerance ↔ j.step < e.settings.tolerance) := by
    intro i _ j htwins
    rw [htwins.step_interchanging]
  have hinitial : interchanging.beam initial (initial.propagate planeSwap) := rfl
  obtain ⟨hresult, hbeside⟩ := Likeness.estimate_alike (d := e) (interchanging_kept readings)
    hinitial rfl rfl hdecide
  have hconvergence := hbeside.convergence fun _ _ h => h.step_interchanging
  exact ⟨hresult, hbeside.status.symm, hbeside.begun.symm, hbeside.alphas.symm, hconvergence,
    hbeside.residual.symm⟩

end BeamOptics.Estimator
