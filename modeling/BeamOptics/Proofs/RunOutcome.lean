import BeamOptics.Proofs.SteadySource

/-! What an estimation comes to. A beam is returned behind the first step below the tolerance, with the
maps made once more for it; without such a step the iteration cap is met, unless a call of the source,
an observation or a residual is at fault. -/

namespace BeamOptics

namespace Estimator

variable {K G : Type} [Scalar K] {initial : Covariance K} {readings : List (Reading K)}
  {e : Estimator K (G × List (Call K))}

/-- What an estimation that returns a beam leaves behind: the iterations of a run whose last step and
no other was below the tolerance, and one more call, for the beam returned. -/
structure Returned (settings : Settings K) (initial : Covariance K) (readings : List (Reading K))
    (after : Estimator K G) (calls : List (Call K)) (beam : Covariance K) : Prop where
  status : after.status = .converged
  covariance : after.covariance = some beam
  begun_pos : 1 ≤ after.begun
  begun_le : after.begun ≤ settings.maxIterations
  alphas_length : after.alphas.length = after.begun
  convergence : ∃ step, after.convergence = some step ∧ step < settings.tolerance
  earlier : ∀ i ∈ after.completed.tail, ¬ i.step < settings.tolerance
  calls_length : calls.length = after.begun + 1
  last : ∃ found r, calls.getLast? = some ⟨beam, readings.map (·.position), .ok found⟩ ∧
    beam.residual found readings = .ok r ∧ after.residual = some r
  record : Completed settings initial readings after.completed calls.dropLast

/-- What an estimation leaves behind at the iteration cap: an iteration for each call, none of them
with a step below the tolerance. -/
structure Exhausted (settings : Settings K) (initial : Covariance K) (readings : List (Reading K))
    (after : Estimator K G) (calls : List (Call K)) (f : Fault K) : Prop where
  fault : ∃ step, after.convergence = some step ∧ f = .notConverged settings.maxIterations step
  begun : after.begun = settings.maxIterations
  alphas_length : after.alphas.length = settings.maxIterations
  calls_length : calls.length = settings.maxIterations
  above : ∀ i ∈ after.completed, ¬ i.step < settings.tolerance
  record : Completed settings initial readings after.completed calls

/-- The fault is that of the latest call, of the observation through its maps in an iteration, or of
the residual through its maps after the last one. -/
def Broken (readings : List (Reading K)) (after : Estimator K G) (calls : List (Call K))
    (f : Fault K) : Prop :=
  ∃ c, calls.getLast? = some c ∧
    (calls.length = after.begun ∧ c.result >>= (Observation.observe · readings) = .error f ∨
      calls.length = after.begun + 1 ∧ c.result >>= (c.beam.residual · readings) = .error f)

/-- An ending with a beam leaves behind all that is said of a return. -/
theorem Ending.returned {settings : Settings K} {beam : Covariance K}
    (h : Ending settings initial readings e (.ok beam)) (hs : e.status = .converged) :
    Returned settings initial readings (e.mapSource Prod.fst) e.source.2 beam := by
  -- Only the ending that converged returns a beam.
  cases h with
  | @converged i its calls found r completed record begun cap above step call evaluated
      residual =>
    have hlength := completed.length_calls
    refine ⟨hs, ?_, ?_, ?_, ?_, ⟨i.step, ?_, step⟩, ?_, ?_, ⟨found, r, ?_, evaluated, residual⟩, ?_⟩
    · change e.completed.head?.map (·.next) = _
      rw [record]
      rfl
    · change 1 ≤ e.begun
      omega
    · change e.begun ≤ _
      omega
    · change (e.completed.reverse.map (·.alpha)).length = e.begun
      simp [record, begun]
    · change e.completed.head?.map (·.step) = _
      rw [record]
      rfl
    · change ∀ j ∈ e.completed.tail, _
      rw [record]
      exact above
    · change _ = e.begun + 1
      simp [call, hlength, begun]
    · simp [call]
    · change Completed settings initial readings e.completed _
      rw [call, record, List.dropLast_concat]
      exact completed

/-- An ending with a fault is one at the cap, or one that its latest call explains. -/
theorem Ending.exhausted_or_broken {settings : Settings K} {f : Fault K}
    (h : Ending settings initial readings e (.error f)) :
    Exhausted settings initial readings (e.mapSource Prod.fst) e.source.2 f ∨
      Broken readings (e.mapSource Prod.fst) e.source.2 f := by
  -- One case for each of the other endings.
  cases h with
  | @unconfirmed i its calls answer _ completed record begun cap above step call fault =>
    have hlength := completed.length_calls
    refine Or.inr ⟨_, by rw [call]; exact List.getLast?_concat .., Or.inr ⟨?_, fault⟩⟩
    change _ = e.begun + 1
    simp [call, hlength, begun]
  | @capped i its completed record begun cap above =>
    have hlength := completed.length_calls
    refine Or.inl ⟨⟨i.step, ?_, rfl⟩, ?_, ?_, ?_, ?_, ?_⟩
    · change e.completed.head?.map (·.step) = _
      rw [record]
      rfl
    · exact begun.trans cap
    · change (e.completed.reverse.map (·.alpha)).length = _
      simp [record, cap]
    · rw [hlength, List.length_cons, cap]
    · change ∀ j ∈ e.completed, _
      rw [record]
      exact above
    · change Completed settings initial readings e.completed _
      rw [record]
      exact completed
  | @interrupted its calls answer _ completed record begun cap above call fault =>
    have hlength := completed.length_calls
    refine Or.inr ⟨_, by rw [call]; exact List.getLast?_concat .., Or.inl ⟨?_, fault⟩⟩
    change _ = e.begun
    simp [call, hlength, begun]

/-- The outcomes of an estimation with accepted settings, for every source of maps. -/
theorem estimate_outcome (maps : MapSource K G) {e : Estimator K G} (he : e.settings.check = .ok ())
    (initial : Covariance K) (readings : List (Reading K)) :
    (∀ beam, (estimate maps e initial readings).1 = .ok beam →
      Returned e.settings initial readings (estimate maps e initial readings).2
        (calls maps e initial readings) beam) ∧
    (∀ f, (estimate maps e initial readings).1 = .error f →
      (estimate maps e initial readings).2.status = .failed ∧
      (∀ cause, Reading.setFault? readings = some cause →
        f = .setup cause ∧ calls maps e initial readings = [] ∧
          (estimate maps e initial readings).2.begun = 0 ∧
          (estimate maps e initial readings).2.covariance = none) ∧
      (Reading.setFault? readings = none →
        Exhausted e.settings initial readings (estimate maps e initial readings).2
            (calls maps e initial readings) f ∨
          Broken readings (estimate maps e initial readings).2
            (calls maps e initial readings) f)) := by
  have hcalls : calls maps e initial readings = (recorded maps e initial readings).source.2 := rfl
  rw [estimate_snd, hcalls]
  cases hr : Reading.setFault? readings with
  | some cause =>
    -- Nothing is begun for readings that are rejected.
    obtain ⟨hresult, hafter⟩ := recorded_rejected maps e initial hr
    rw [hresult, hafter]
    refine ⟨nofun, fun f h => ?_⟩
    cases h
    refine ⟨rfl, fun cause' hcause => ?_, nofun⟩
    cases hcause
    exact ⟨rfl, rfl, rfl, rfl⟩
  | none =>
    obtain ⟨hend, hstatus⟩ := estimate_ending maps initial he hr
    constructor
    · intro beam h
      rw [h] at hend hstatus
      exact hend.returned hstatus
    · intro f h
      rw [h] at hend hstatus
      exact ⟨hstatus, nofun, fun _ => hend.exhausted_or_broken⟩

/-- A run of one iteration that converges. -/
theorem estimate_outcome_quarterTurn : coarse.check = .ok () ∧
    Returned coarse .zero unitReadings
      (estimate (.steady quarterTurn) (fresh () coarse) .zero unitReadings).2
      (calls (.steady quarterTurn) (fresh () coarse) .zero unitReadings)
      (Covariance.zero.relax unitBeam coarse.relaxationFloor) := by
  obtain ⟨r, hok, -⟩ := estimate_quarterTurn
  have hcheck : (fresh () coarse).settings.check = .ok () := coarse_check
  exact ⟨coarse_check,
    (estimate_outcome (.steady quarterTurn) hcheck .zero unitReadings).1 _ hok⟩

end Estimator

end BeamOptics
