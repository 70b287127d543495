import BeamOptics.Proofs.ParallelWalks
import BeamOptics.Proofs.RealBeam
import BeamOptics.Proofs.Segments
import BeamOptics.Proofs.Synthesis

/-! The horizontal and the vertical plane in each other's place. Fields act alike in both, space charge
is symmetric in their sizes, and every plane is fitted for itself. So a beam with its planes
interchanged has the maps of the beam with their planes interchanged, and so has the fit. -/

namespace BeamOptics

def Plane.interchanged : Plane → Plane
  | .horizontal => .vertical
  | .vertical => .horizontal
  | .longitudinal => .longitudinal

@[simp] theorem Plane.interchanged_interchanged (p : Plane) : p.interchanged.interchanged = p := by
  cases p <;> rfl

def Triple.interchanged {α : Type} (t : Triple α) : Triple α := ⟨t.y, t.x, t.z⟩

@[simp] theorem Triple.get_interchanged {α : Type} (t : Triple α) (p : Plane) :
    t.interchanged.get p = t.get p.interchanged := by
  cases p <;> rfl

/-! ### Matrices -/

def interchange : Equiv.Perm (Fin 7) :=
  Equiv.swap Plane.horizontal.position Plane.vertical.position *
    Equiv.swap Plane.horizontal.slope Plane.vertical.slope

theorem interchange_position (p : Plane) : interchange p.position = p.interchanged.position := by
  cases p <;> decide

theorem interchange_slope (p : Plane) : interchange p.slope = p.interchanged.slope := by
  cases p <;> decide

theorem interchange_eq_homogeneous (i : Fin 7) : interchange i = homogeneous ↔ i = homogeneous := by
  revert i
  decide

/-- The interchange moves the coordinates of phase space among themselves. -/
theorem exists_interchange_castSucc :
    ∃ τ : Equiv.Perm (Fin 6), ∀ i, interchange i.castSucc = (τ i).castSucc := by
  refine ⟨Equiv.swap 0 2 * Equiv.swap 1 3, ?_⟩
  decide

/-- Renaming the coordinates keeps the Frobenius norm. -/
theorem Mat.frobenius_reindex {n : ℕ} (τ : Equiv.Perm (Fin n)) {A B : Mat ℝ n}
    (h : ∀ i j, B.entry i j = A.entry (τ i) (τ j)) : B.frobenius = A.frobenius := by
  rw [frobenius_eq_sqrt, frobenius_eq_sqrt]
  simp only [h]
  rw [Equiv.sum_comp τ fun i => ∑ j, A.entry i (τ j) ^ 2]
  congr 1
  exact Finset.sum_congr rfl fun i _ => Equiv.sum_comp τ fun j => A.entry i j ^ 2

namespace PhaseMap

noncomputable def planeSwap : PhaseMap ℝ := Mat.ofFn fun i j => if j = interchange i then 1 else 0

theorem entry_conjugate_planeSwap (M : PhaseMap ℝ) (i j : Fin 7) :
    (planeSwap.conjugate M).entry i j = M.entry (interchange i) (interchange j) := by
  have hleft (k : Fin 7) : (planeSwap * M).entry i k = M.entry (interchange i) k := by
    rw [Mat.entry_mul, Mat.total_eq_sum]
    simp [planeSwap]
  rw [conjugate, Mat.entry_mul, Mat.total_eq_sum]
  simp only [hleft]
  simp [planeSwap]

/-- Interchanging planes is compatible with composition. -/
theorem conjugate_planeSwap_mul (M N : PhaseMap ℝ) :
    planeSwap.conjugate (M * N) = planeSwap.conjugate M * planeSwap.conjugate N := by
  apply Mat.ext_entry
  intro i j
  simp only [Mat.entry_mul, Mat.total_eq_sum, entry_conjugate_planeSwap]
  -- The inner coordinate runs over all of them in either order.
  exact (Equiv.sum_comp interchange fun k =>
    M.entry (interchange i) k * N.entry k (interchange j)).symm

theorem conjugate_planeSwap_identity : planeSwap.conjugate identity = identity := by
  apply Mat.ext_entry
  intro i j
  simp only [entry_conjugate_planeSwap, identity, Mat.entry_identity, interchange.injective.eq_iff]

/-- The blocks of the planes change places. -/
theorem conjugate_planeSwap_ofBlocks (b : Triple (Block ℝ)) :
    planeSwap.conjugate (ofBlocks b) = ofBlocks b.interchanged := by
  apply Mat.ext_entry
  intro i j
  rw [entry_conjugate_planeSwap]
  fin_cases i <;> fin_cases j <;> rfl

theorem block_conjugate_planeSwap (M : PhaseMap ℝ) (p : Plane) :
    (planeSwap.conjugate M).block p = M.block p.interchanged := by
  simp only [block, entry_conjugate_planeSwap, interchange_position, interchange_slope]

theorem conjugate_planeSwap_homogenize (M : PhaseMap ℝ) :
    planeSwap.conjugate M.homogenize = (planeSwap.conjugate M).homogenize := by
  apply Mat.ext_entry
  intro i j
  simp only [entry_conjugate_planeSwap, homogenize, Mat.entry_ofFn, interchange_eq_homogeneous]

end PhaseMap

/-! ### Beams -/

namespace Covariance

open PhaseMap

variable (s t : Covariance ℝ)

/-- Interchanging the planes of map and beam interchanges those of the beam behind the map. -/
theorem planeSwap_propagate (M : PhaseMap ℝ) :
    (s.propagate planeSwap).propagate (planeSwap.conjugate M) =
      (s.propagate M).propagate planeSwap := by
  have htranspose : planeSwap.conjugate M.transpose = (planeSwap.conjugate M).transpose := by
    apply Mat.ext_entry
    intro i j
    simp only [entry_conjugate_planeSwap, Mat.entry_transpose]
  change Covariance.mk (planeSwap.conjugate M * planeSwap.conjugate s.matrix *
    (planeSwap.conjugate M).transpose) = ⟨planeSwap.conjugate (M * s.matrix * M.transpose)⟩
  rw [conjugate_planeSwap_mul, conjugate_planeSwap_mul, htranspose]

theorem block_planeSwap (p : Plane) : (s.propagate planeSwap).block p = s.block p.interchanged :=
  block_conjugate_planeSwap s.matrix p

theorem moments_planeSwap (p : Plane) :
    (s.propagate planeSwap).moments p = s.moments p.interchanged := by
  rw [moments, block_planeSwap]
  rfl

theorem sizes_planeSwap : (s.propagate planeSwap).sizes = s.sizes.interchanged := by
  apply Triple.ext_get
  intro p
  rw [sizes, Triple.get_ofFn, Triple.get_interchanged, sizes, Triple.get_ofFn, rmsSize, rmsSize,
    block_planeSwap]

/-- Mixtures of interchanged beams are interchanged mixtures. -/
theorem relax_planeSwap (alpha : ℝ) :
    (s.propagate planeSwap).relax (t.propagate planeSwap) alpha =
      (s.relax t alpha).propagate planeSwap := by
  change Covariance.mk _ = ⟨planeSwap.conjugate (homogenize _)⟩
  rw [conjugate_planeSwap_homogenize]
  congr 2
  apply Mat.ext_entry
  intro i j
  simp only [propagate, entry_conjugate_planeSwap, Mat.entry_add, Mat.entry_scale]

theorem ofMoments_planeSwap (m : Triple (Moments ℝ)) :
    (ofMoments m).propagate planeSwap = ofMoments m.interchanged :=
  congrArg Covariance.mk (conjugate_planeSwap_ofBlocks (m.map Moments.block))

/-- The distance sums over all pairs of coordinates. -/
theorem relativeDistance_planeSwap :
    (s.propagate planeSwap).relativeDistance (t.propagate planeSwap) = s.relativeDistance t := by
  obtain ⟨τ, hτ⟩ := exists_interchange_castSucc
  have hmoments (r : Covariance ℝ) (i j : Fin 6) :
      (r.propagate planeSwap).phaseMoments.entry i j = r.phaseMoments.entry (τ i) (τ j) := by
    simp only [phaseMoments, Mat.entry_ofFn, ← hτ]
    exact entry_conjugate_planeSwap r.matrix _ _
  have hnorm : (t.propagate planeSwap).momentNorm = t.momentNorm :=
    Mat.frobenius_reindex τ (hmoments t)
  have hdistance : ((s.propagate planeSwap).phaseMoments -
      (t.propagate planeSwap).phaseMoments).frobenius =
        (s.phaseMoments - t.phaseMoments).frobenius := by
    apply Mat.frobenius_reindex τ
    intro i j
    rw [Mat.entry_sub, Mat.entry_sub, hmoments, hmoments]
  rw [relativeDistance_eq, relativeDistance_eq, hdistance, referenceNorm, referenceNorm, hnorm]

end Covariance

/-! ### Faults -/

inductive Fault.Kind where
  | setup
  | dimension
  | numeric
  | notConverged
  | indexRange
deriving DecidableEq

def Fault.kind {K : Type} : Fault K → Fault.Kind
  | .setup _ => .setup
  | .dimension .. => .dimension
  | .numeric _ => .numeric
  | .notConverged .. => .notConverged
  | .indexRange => .indexRange

def Fault.Kindred {K : Type} (f g : Fault K) : Prop := f.kind = g.kind

/-! ### Maps -/

section Maps

open PhaseMap

variable {M N : PhaseMap ℝ}

/-- The second map does in each plane what the first does in the plane in whose place it stands. -/
def PhaseMap.Swapped (M N : PhaseMap ℝ) : Prop := N = planeSwap.conjugate M

theorem PhaseMap.Swapped.mul {M' N' : PhaseMap ℝ} (h : M.Swapped N) (h' : M'.Swapped N') :
    (M * M').Swapped (N * N') := by
  rw [Swapped, h, h', conjugate_planeSwap_mul]

theorem PhaseMap.Swapped.identity : (PhaseMap.identity : PhaseMap ℝ).Swapped .identity :=
  conjugate_planeSwap_identity.symm

/-- A map that acts alike in both transverse planes. -/
theorem PhaseMap.Swapped.round (b c : Block ℝ) : (ofBlocks ⟨b, b, c⟩).Swapped (ofBlocks ⟨b, b, c⟩) :=
  (conjugate_planeSwap_ofBlocks ⟨b, b, c⟩).symm

theorem PhaseMap.Swapped.free (h : M.Swapped N) (length gamma : ℝ) :
    (drift length gamma * M).Swapped (drift length gamma * N) :=
  (Swapped.round _ _).mul h

theorem PhaseMap.Swapped.through (h : M.Swapped N) (p : Passage ℝ) (y z : ℝ) :
    (p.transportBetween y z * M).Swapped (p.transportBetween y z * N) :=
  (Swapped.round _ _).mul h

/-- The local sizes change places, and a fault may name the other plane. -/
theorem SpaceCharge.localSizes_planeSwap (s : Covariance ℝ) :
    Alike Fault.Kindred (fun a b => b = a.interchanged) (localSizes s)
      (localSizes (s.propagate planeSwap)) := by
  obtain ⟨sizes, hsizes⟩ : ∃ sizes : Triple ℝ, sizes = Triple.ofFn fun p =>
      √(s.matrix.entry p.position p.position) := ⟨_, rfl⟩
  have hswapped : (Triple.ofFn fun p : Plane =>
      √((s.propagate planeSwap).matrix.entry p.position p.position)) = sizes.interchanged := by
    apply Triple.ext_get
    intro p
    rw [hsizes, Triple.get_interchanged, Triple.get_ofFn, Triple.get_ofFn]
    change √((planeSwap.conjugate s.matrix).entry p.position p.position) = _
    rw [entry_conjugate_planeSwap, interchange_position]
  unfold localSizes
  simp only [Scalar.real_sqrt]
  rw [hswapped, ← hsizes]
  -- A plane without size has one in its place on the other side, but another plane may be found first.
  have hfound : (Plane.all.find? fun p => !Scalar.isPositive (sizes.interchanged.get p)) = none ↔
      (Plane.all.find? fun p => !Scalar.isPositive (sizes.get p)) = none := by
    simp only [List.find?_eq_none, Triple.get_interchanged]
    constructor
    · intro h p _
      have hp := h p.interchanged (Plane.mem_all _)
      rwa [Plane.interchanged_interchanged] at hp
    · intro h p _
      exact h p.interchanged (Plane.mem_all _)
  cases hs : Plane.all.find? fun p => !Scalar.isPositive (sizes.get p) with
  | none =>
    rw [hfound.mpr hs]
    exact .ok rfl
  | some p =>
    cases ht : Plane.all.find? fun p => !Scalar.isPositive (sizes.interchanged.get p) with
    | none => rw [hfound.mp ht] at hs; cases hs
    | some q => exact .error rfl

/-- A kick acts on the interchanged beam as on the beam, each plane in the place of the other. -/
theorem SpaceCharge.kick_planeSwap (model : SpaceCharge ℝ) (s : Covariance ℝ) (length : ℝ) :
    Alike Fault.Kindred Swapped (model.kick s length) (model.kick (s.propagate planeSwap) length) := by
  refine (localSizes_planeSwap s).bind ?_
  rintro sizes _ rfl
  refine .ok ?_
  rw [Swapped, conjugate_planeSwap_ofBlocks]
  -- The transverse strengths differ in one size and in their sum, which does not see the order.
  simp only [Triple.interchanged, add_comm sizes.y sizes.x]

/-- A drift with kicks keeps maps swapped. -/
theorem driftSegment_planeSwap (charged : Option (SpaceCharge ℝ)) (s : Covariance ℝ)
    (length gamma y z : ℝ) (h : M.Swapped N) :
    Alike Fault.Kindred Swapped (driftSegment (charged.map (⟨s, ·⟩)) length gamma y z M)
      (driftSegment (charged.map (⟨s.propagate planeSwap, ·⟩)) length gamma y z N) := by
  cases charged with
  | none =>
    rcases le_or_gt z y with hzy | hyz
    · rw [Option.map_none, Option.map_none, driftSegment_self _ length gamma hzy,
        driftSegment_self _ length gamma hzy]
      exact .ok h
    · rw [Option.map_none, Option.map_none, driftSegment_uncharged length gamma hyz,
        driftSegment_uncharged length gamma hyz]
      exact .ok (h.free _ _)
  | some model =>
    -- Both drifts have the same slices, and a kick is interchanged with the beam that it is for.
    have hslices : (⟨s, model⟩ : ChargedBeam ℝ).model.sliceLength =
        (⟨s.propagate planeSwap, model⟩ : ChargedBeam ℝ).model.sliceLength := rfl
    refine driftSegment_alike hslices (fun h => h.free) ?_ length gamma y z h
    intro M N h length
    rw [h, Covariance.planeSwap_propagate]
    exact (model.kick_planeSwap _ length).mono (fun _ _ => id) fun _ _ hkick => hkick.mul rfl

/-- The maps of a line for a beam with its planes interchanged. -/
theorem BeamLine.mapsAt_planeSwap (line : BeamLine ℝ) (s : Covariance ℝ) (positions : List ℝ) :
    Alike Fault.Kindred (fun Ms Ns => Ns = Ms.map planeSwap.conjugate) (line.mapsAt s positions)
      (line.mapsAt (s.propagate planeSwap) positions) := by
  have hcharges : ParallelCharges Fault.Kindred Swapped (line.charge s)
      (line.charge (s.propagate planeSwap)) :=
    ⟨fun _ => rfl, .identity, fun length gamma y z _ _ h =>
      driftSegment_planeSwap line.spaceCharge s length gamma y z h, fun p y z _ _ h =>
      h.through p y z⟩
  refine (walk_alike hcharges line line.spaceCharge positions).mono (fun _ _ => id) fun Ms Ns h => ?_
  induction h with
  | nil => rfl
  | cons hM _ ih => rw [hM, ih, List.map_cons]

end Maps

/-! ### Fits -/

section Fits

open PhaseMap

/-- A reading with the sizes of the horizontal and the vertical plane in each other's place. -/
def Reading.interchanged {K : Type} (r : Reading K) : Reading K :=
  { r with sizes := r.sizes.interchanged }

namespace Reading

theorem positions_interchanged {K : Type} (readings : List (Reading K)) :
    (readings.map interchanged).map (·.position) = readings.map (·.position) := by
  rw [List.map_map]
  rfl

theorem fault?_interchanged (r : Reading ℝ) : r.interchanged.fault? = none ↔ r.fault? = none := by
  have hall : r.interchanged.sizes.toList.all Scalar.isPositive =
      r.sizes.toList.all Scalar.isPositive := by
    simp [interchanged, Triple.interchanged, Triple.toList, Bool.and_left_comm]
  unfold fault?
  rw [hall]
  cases r.sizes.toList.all Scalar.isPositive <;> simp [interchanged]

theorem check_interchanged (readings : List (Reading ℝ)) :
    Alike Fault.Kindred (fun _ _ => True) (check readings) (check (readings.map interchanged)) := by
  have hfault : setFault? (readings.map interchanged) = none ↔ setFault? readings = none := by
    unfold setFault?
    rw [List.length_map]
    split_ifs
    · simp
    · simp [List.findSome?_eq_none_iff, fault?_interchanged]
  unfold check
  cases hs : setFault? readings with
  | none =>
    rw [hfault.mpr hs]
    exact .ok trivial
  | some cause =>
    cases ht : setFault? (readings.map interchanged) with
    | none => rw [hfault.mp ht] at hs; cases hs
    | some cause' => exact .error rfl

end Reading

variable (Ms : List (PhaseMap ℝ)) (readings : List (Reading ℝ))

namespace Observation

theorem equations_planeSwap (p : Plane) :
    equations (Ms.map planeSwap.conjugate) (readings.map Reading.interchanged) p =
      equations Ms readings p.interchanged := by
  simp only [equations, row, List.map_map, Function.comp_def, block_conjugate_planeSwap,
    Reading.interchanged, Triple.get_interchanged]

/-- Every plane is fitted for itself. -/
theorem planeMoments_planeSwap (p : Plane) (m : Moments ℝ) :
    planeMoments (Ms.map planeSwap.conjugate) (readings.map Reading.interchanged) p = .ok m ↔
      planeMoments Ms readings p.interchanged = .ok m := by
  unfold planeMoments
  dsimp only
  rw [equations_planeSwap]
  cases (normalMatrix (equations Ms readings p.interchanged)).solve
    (normalRhs (equations Ms readings p.interchanged)) with
  | error f => simp
  | ok v => rfl

/-- The kind of fault of an observation depends on the number of maps only. -/
theorem kind_of_observe {Ms : List (PhaseMap ℝ)} {readings : List (Reading ℝ)} {f : Fault ℝ}
    (h : observe Ms readings = .error f) :
    f.kind = if Ms.length ≠ readings.length then .dimension else .numeric := by
  -- A plane alone fails for its numbers.
  have hplane {p : Plane} (hp : planeMoments Ms readings p = .error f) : f.kind = .numeric := by
    unfold planeMoments at hp
    dsimp only at hp
    split at hp
    · cases hp
    · cases hp
      rfl
  -- The number of maps is looked at before any plane.
  unfold observe at h
  by_cases hlength : Ms.length ≠ readings.length
  · rw [if_pos hlength] at h ⊢
    cases h
    rfl
  rw [if_neg hlength] at h ⊢
  dsimp only at h
  rcases bind_eq_error.mp h with hx | ⟨x, -, h⟩
  · exact hplane hx
  rcases bind_eq_error.mp h with hy | ⟨y, -, h⟩
  · exact hplane hy
  rcases bind_eq_error.mp h with hz | ⟨z, -, h⟩
  · exact hplane hz
  · cases h

/-- The observation of interchanged readings through interchanged maps is the interchanged beam. -/
theorem observe_planeSwap :
    Alike Fault.Kindred (fun s t => t = s.propagate planeSwap) (observe Ms readings)
      (observe (Ms.map planeSwap.conjugate) (readings.map Reading.interchanged)) := by
  -- It is enough to carry a fit over: interchanging twice carries it back.
  have hok (fit : Covariance ℝ) (h : observe Ms readings = .ok fit) :
      observe (Ms.map planeSwap.conjugate) (readings.map Reading.interchanged) =
        .ok (fit.propagate planeSwap) := by
    obtain ⟨hlength, m, hm, rfl⟩ := observe_eq_ok.mp h
    rw [Covariance.ofMoments_planeSwap]
    refine observe_eq_ok.mpr ⟨by simpa using hlength, m.interchanged, fun p => ?_, rfl⟩
    rw [planeMoments_planeSwap, Triple.get_interchanged]
    exact hm _
  cases hs : observe Ms readings with
  | ok fit =>
    rw [hok fit hs]
    exact .ok rfl
  | error f =>
    cases ht : observe (Ms.map planeSwap.conjugate) (readings.map Reading.interchanged) with
    | error g =>
      refine .error ?_
      rw [Fault.Kindred, kind_of_observe hs, kind_of_observe ht, List.length_map, List.length_map]
    | ok fit =>
      obtain ⟨hlength, m, hm, -⟩ := observe_eq_ok.mp ht
      have hback : observe Ms readings = .ok (Covariance.ofMoments m.interchanged) := by
        refine observe_eq_ok.mpr ⟨by simpa using hlength, m.interchanged, fun p => ?_, rfl⟩
        have hp := (planeMoments_planeSwap Ms readings p.interchanged _).mp (hm p.interchanged)
        rwa [Plane.interchanged_interchanged, ← Triple.get_interchanged] at hp
      rw [hs] at hback
      cases hback

end Observation

theorem Covariance.compare_planeSwap (s : Covariance ℝ) :
    (s.propagate planeSwap).compare (Ms.map planeSwap.conjugate) (readings.map Reading.interchanged) =
      (s.compare Ms readings).map (·.map fun r =>
        { r with predicted := r.predicted.interchanged, measured := r.measured.interchanged }) := by
  have henvelope : (s.propagate planeSwap).envelope (Ms.map planeSwap.conjugate) =
      (s.envelope Ms).map Triple.interchanged := by
    simp only [envelope, List.map_map, Function.comp_def, planeSwap_propagate, sizes_planeSwap]
  unfold compare
  rw [List.length_map, List.length_map, henvelope]
  split_ifs
  · rfl
  · rw [List.zip_map, List.map_map, Except.map, List.map_map]
    rfl

/-- The residual runs over all planes. -/
theorem Covariance.residual_planeSwap (s : Covariance ℝ) :
    (s.propagate planeSwap).residual (Ms.map planeSwap.conjugate)
      (readings.map Reading.interchanged) = s.residual Ms readings := by
  unfold residual
  rw [compare_planeSwap]
  cases s.compare Ms readings with
  | error f => rfl
  | ok rows =>
    have hsquares (r : Comparison ℝ) :
        (({ r with predicted := r.predicted.interchanged, measured := r.measured.interchanged } :
          Comparison ℝ).deviation.toList.map Scalar.square).sum =
            (r.deviation.toList.map Scalar.square).sum := by
      simp [Comparison.deviation, Triple.interchanged, Triple.ofFn, Triple.toList, Triple.get]
      ring
    simp only [Except.map, bind, Except.bind, List.isEmpty_map, List.length_map, Scalar.real_sum,
      List.flatMap, List.sum_flatten, List.map_map, Function.comp_def, hsquares]

end Fits

end BeamOptics
