import BeamOptics.Proofs.CellLayout
import BeamOptics.Proofs.GeometricRuns
import BeamOptics.Proofs.IdleSpaceCharge
import BeamOptics.Proofs.RowOrder

/-! The line of the command reaches all of its readings. Wherever the gap starts, the elements are as
long as the last reading is far, and sorted readings that are not in front of the entrance have their
places on the line. What a walk can fail with is then the size of a beam in a kick, and no fault of the
command lies in its geometry. -/

namespace BeamOptics

def Fault.isGeometric {K : Type} : Fault K → Bool
  | .setup .emptyLine | .setup (.elementLength ..) | .setup (.positionOutside ..)
  | .setup .positionOrder => true
  | _ => false

def Fault.IsBeamSize (f : Fault ℝ) : Prop := ∃ p size, f = .numeric (.beamSize p size)

theorem Fault.IsBeamSize.not_geometric {f : Fault ℝ} (h : f.IsBeamSize) : f.isGeometric = false := by
  obtain ⟨p, size, rfl⟩ := h
  rfl

/-! ### Walks through drifts and sampled fields -/

section Walks

variable {charged : Option (ChargedBeam ℝ)} {formula : LongitudinalFormula} {acc : PhaseMap ℝ}
  {probe : Probe ℝ} {f : Fault ℝ}

/-- A kick fails only where the beam has no size. -/
theorem SpaceCharge.kick_error {model : SpaceCharge ℝ} {beam : Covariance ℝ} {length : ℝ}
    (h : model.kick beam length = .error f) : f.IsBeamSize := by
  rcases bind_eq_error.mp h with hsizes | ⟨sizes, -, hkick⟩
  · unfold localSizes at hsizes
    dsimp only at hsizes
    split at hsizes
    · cases hsizes
      exact ⟨_, _, rfl⟩
    · cases hsizes
  · cases pure_ne_error hkick

theorem kickedDrift_error {charged : ChargedBeam ℝ} {slicing : Slicing ℝ} {gamma z : ℝ} {n j : ℕ}
    (h : kickedDrift charged slicing gamma n j z acc = .error f) : f.IsBeamSize := by
  induction n generalizing j z acc with
  | zero => cases h
  | succ n ih =>
    rcases bind_eq_error.mp h with hkick | ⟨kick, -, hrest⟩
    · exact SpaceCharge.kick_error hkick
    · exact ih hrest

theorem driftSegment_error {length gamma y z : ℝ}
    (h : driftSegment charged length gamma y z acc = .error f) : f.IsBeamSize := by
  rcases le_or_gt z y with hzy | hyz
  · rw [driftSegment_self _ length gamma hzy] at h
    cases h
  cases charged with
  | none =>
    rw [driftSegment_uncharged length gamma hyz] at h
    cases h
  | some charged =>
    rw [driftSegment_charged charged length gamma hyz acc rfl] at h
    exact kickedDrift_error (map_eq_error.mp h)

inductive Element.Tabulated : Element ℝ → Prop
  | drift (length : ℝ) : Tabulated (.drift length)
  | gap (profile : Profile ℝ) (drive : Drive ℝ) : Tabulated (.gap (.sampled profile) drive)

namespace BeamLine

variable {es : List (Element ℝ)}

/-- The particle gets behind elements whose fields need no table to be made. -/
theorem exists_probeBehind (hes : ∀ e ∈ es, e.Tabulated) :
    ∃ q, probeBehind formula es probe = .ok q := by
  induction es generalizing probe with
  | nil => exact ⟨probe, rfl⟩
  | cons e es ih =>
    obtain ⟨he, hrest⟩ := List.forall_mem_cons.mp hes
    cases he with
    | drift length => exact ih hrest
    | gap profile drive => exact ih hrest

/-- Elements that need no table fail only where the beam has no size in a kick. -/
theorem through_error (hes : ∀ e ∈ es, e.Tabulated)
    (h : through charged formula es probe acc = .error f) : f.IsBeamSize := by
  induction es generalizing probe acc with
  | nil => cases h
  | cons e es ih =>
    obtain ⟨he, hothers⟩ := List.forall_mem_cons.mp hes
    rw [through_cons] at h
    cases he with
    | drift length =>
      rcases bind_eq_error.mp h with hrule | ⟨r, hrule, hrest⟩
      · cases hrule
      · cases hrule
        rcases bind_eq_error.mp hrest with hsegment | ⟨M, -, hbehind⟩
        · exact driftSegment_error hsegment
        · exact ih hothers hbehind
    | gap profile drive => exact ih hothers h

/-- A line that takes the positions, through drifts and fields that need no table to be made. -/
structure Covers (line : BeamLine ℝ) (ps : List ℝ) : Prop where
  built : line.Built
  tabulated : ∀ e ∈ line.elements, e.Tabulated
  positions : checkPositions line.length 0 ps = .ok ()

variable {line : BeamLine ℝ} {ps : List ℝ}

theorem Covers.withFormula (h : line.Covers ps) (formula : LongitudinalFormula) :
    { line with formula }.Covers ps :=
  ⟨h.built.withFormula formula, h.tabulated, h.positions⟩

theorem Covers.withSpaceCharge (h : line.Covers ps) {perveance longitudinal sliceLength : ℝ}
    {model : SpaceCharge ℝ} (hmodel : SpaceCharge.mk? perveance longitudinal sliceLength = .ok model) :
    { line with spaceCharge := some model }.Covers ps :=
  ⟨h.built.withSpaceCharge hmodel, h.tabulated, h.positions⟩

/-- A walk to accepted positions meets no other obstacle than a beam without a size. -/
theorem Covers.walk_error (h : line.Covers ps) (hf : line.walk charged ps = .error f) :
    f.IsBeamSize :=
  through_error h.tabulated ((walk_eq_error h.built h.positions f).mp hf)

theorem Covers.zeroCurrentMaps (h : line.Covers ps) :
    ∃ Ms, line.zeroCurrentMaps ps = .ok Ms ∧ Ms.length = ps.length :=
  zeroCurrentMaps_ok h.built h.positions (exists_probeBehind h.tabulated)

end BeamLine

end Walks

/-! ### The elements of the command -/

namespace Command

namespace Controls

variable {c : Controls ℝ} {profile : Profile ℝ} {drive : Drive ℝ} {ps : List ℝ}

/-- A drift is there only where it has a length, and the gap has the length of its field. -/
theorem mem_elements {e : Element ℝ} (he : e ∈ c.elements profile drive ps) :
    e.Tabulated ∧ 0 < e.length := by
  unfold elements at he
  dsimp only at he
  rcases List.mem_append.mp he with hfront | hbehind
  · rcases List.mem_append.mp hfront with hstart | hgap
    · rw [Scalar.real_zero] at hstart
      split_ifs at hstart with hpos
      · rw [List.mem_singleton.mp hstart]
        exact ⟨.drift _, hpos⟩
      · cases hstart
    · rw [List.mem_singleton.mp hgap]
      exact ⟨.gap _ _, profile.length_pos⟩
  · split_ifs at hbehind with hlast
    · rw [List.mem_singleton.mp hbehind]
      exact ⟨.drift _, sub_pos.mpr hlast⟩
    · cases hbehind

theorem elements_ne_nil : c.elements profile drive ps ≠ [] := by
  simp [elements]

/-- A gap that starts in front of the entrance is moved there, and the last drift is as long as the way
from where the gap was to end up to the last reading. -/
theorem length_elements : ((c.elements profile drive ps).map Element.length).sum =
    max c.gapStart 0 + profile.length +
      max (ps.getLast?.getD (c.gapStart + profile.length) - (c.gapStart + profile.length)) 0 := by
  unfold elements
  dsimp only
  generalize ps.getLast?.getD (c.gapStart + profile.length) = last
  rw [Scalar.real_zero, List.map_append, List.map_append, List.sum_append, List.sum_append]
  congr 2
  · split_ifs with hstart
    · rw [max_eq_left hstart.le]
      exact List.sum_singleton
    · rw [max_eq_right (not_lt.mp hstart)]
      rfl
  · exact List.sum_singleton
  · split_ifs with hlast
    · rw [max_eq_left (sub_nonneg.mpr hlast.le)]
      exact List.sum_singleton
    · rw [max_eq_right (by linarith)]
      rfl

/-- The elements reach as far as the last position. -/
theorem le_length_elements (hps : ps.Pairwise (· ≤ ·)) :
    ∀ p ∈ ps, p ≤ ((c.elements profile drive ps).map Element.length).sum := by
  intro p hp
  have hlast : p ≤ ps.getLast?.getD (c.gapStart + profile.length) := by
    rw [List.getLast?_eq_some_getLast (List.ne_nil_of_mem hp)]
    exact hps.rel_getLast hp
  -- Behind the gap the line ends at the last reading or further, since the gap starts no earlier.
  have hstart := le_max_left c.gapStart 0
  have hrest := le_max_left
    (ps.getLast?.getD (c.gapStart + profile.length) - (c.gapStart + profile.length)) 0
  rw [length_elements]
  linarith

/-- The drift, gap and drift of the command make a line that takes all readings behind the entrance. -/
theorem exists_covers (c : Controls ℝ) (profile : Profile ℝ) (drive : Drive ℝ) (probe : Probe ℝ)
    (hps : ps.Pairwise (· ≤ ·)) (hentrance : ∀ p ∈ ps, 0 ≤ p) :
    ∃ line, BeamLine.mk? probe (c.elements profile drive ps) = .ok line ∧ line.Covers ps := by
  have hpos : ∀ e ∈ c.elements profile drive ps, Scalar.isPositive e.length = true := fun e he =>
    (Scalar.real_isPositive _).trans (decide_eq_true (mem_elements he).2)
  have hmk := BeamLine.mk?_of_isPositive probe elements_ne_nil hpos
  refine ⟨_, hmk, .new hmk, fun e he => (mem_elements he).1, ?_⟩
  rw [BeamLine.checkPositions_eq_ok le_rfl, BeamLine.length_eq_sum]
  refine ⟨List.pairwise_cons.mpr ⟨hentrance, hps⟩, fun p hp => ?_⟩
  have hslack : (0 : ℝ) ≤ BeamLine.positionSlack := by norm_num [BeamLine.positionSlack]
  exact (le_length_elements hps p hp).trans (le_add_of_nonneg_right hslack)

/-- A line that is made for positions behind the entrance takes them all. -/
theorem line_covers {field : FieldMap ℝ} {line : BeamLine ℝ} (hps : ps.Pairwise (· ≤ ·))
    (hentrance : ∀ p ∈ ps, 0 ≤ p) (h : c.line field ps = .ok line) : line.Covers ps := by
  obtain ⟨probe, -, h⟩ := bind_eq_ok.mp h
  obtain ⟨drive, -, h⟩ := bind_eq_ok.mp h
  obtain ⟨bare, hbare, h⟩ := bind_eq_ok.mp h
  obtain ⟨found, hfound, hcovers⟩ := c.exists_covers field.profile drive probe hps hentrance
  cases hfound.symm.trans hbare
  rw [← pure_eq_ok.mp h]
  exact hcovers.withFormula c.formula

/-- The command has no line only for want of a particle or of a drive. -/
theorem line_error {field : FieldMap ℝ} {f : Fault ℝ} (hps : ps.Pairwise (· ≤ ·))
    (hentrance : ∀ p ∈ ps, 0 ≤ p) (h : c.line field ps = .error f) : f.isGeometric = false := by
  rcases bind_eq_error.mp h with hprobe | ⟨probe, -, h⟩
  · unfold Probe.ofSpecies Probe.mk? at hprobe
    split_ifs at hprobe <;> cases hprobe <;> rfl
  rcases bind_eq_error.mp h with hdrive | ⟨drive, -, h⟩
  · unfold Drive.mk? at hdrive
    split_ifs at hdrive <;> cases hdrive <;> rfl
  obtain ⟨bare, hbare, -⟩ := c.exists_covers field.profile drive probe hps hentrance
  rw [hbare] at h
  cases h

end Controls

/-! ### Runs on the line -/

section Runs

variable {line : BeamLine ℝ} {rs : List (Reading ℝ)} {e : Estimator ℝ (BeamLine ℝ)}
  {initial beam : Covariance ℝ} {f : Fault ℝ}

theorem lineSource_reached {g : BeamLine ℝ} (h : lineSource.Reached line g) : g = line := by
  induction h with
  | start => rfl
  | call _ _ _ ih => exact ih

/-- All calls of an estimator that has the line for its source are for places on the line. -/
theorem calls_error (h : e.source.Covers (rs.map (·.position))) (initial : Covariance ℝ) :
    ∀ call ∈ Estimator.calls lineSource e initial rs, ∀ f, call.result = .error f →
      f.IsBeamSize := by
  intro call hcall f hf
  obtain ⟨g, hg, hresult⟩ := Estimator.calls_answered lineSource e initial rs call hcall
  rw [hresult, lineSource_reached hg] at hf
  exact h.walk_error hf

theorem residual_error {Ms : List (PhaseMap ℝ)} (h : beam.residual Ms rs = .error f) :
    f.isGeometric = false := by
  by_cases hlength : Ms.length = rs.length
  · rw [Covariance.residual_eq hlength] at h
    cases h
  · rw [Covariance.residual_of_length_ne hlength] at h
    cases h
    rfl

/-- An observation fails for the number of maps or for the numbers themselves, and not for a place
on the line. -/
theorem observe_error {Ms : List (PhaseMap ℝ)} (h : Observation.observe Ms rs = .error f) :
    f.isGeometric = false := by
  -- Equations of a plane that are not solved are no matter of the geometry.
  have hplane {p : Plane} (hp : Observation.planeMoments Ms rs p = .error f) :
      f.isGeometric = false := by
    unfold Observation.planeMoments at hp
    dsimp only at hp
    split at hp
    · cases hp
    · cases hp
      rfl
  unfold Observation.observe at h
  split_ifs at h
  · cases h
    rfl
  · rcases bind_eq_error.mp h with hx | ⟨x, -, h⟩
    · exact hplane hx
    rcases bind_eq_error.mp h with hy | ⟨y, -, h⟩
    · exact hplane hy
    rcases bind_eq_error.mp h with hz | ⟨z, -, h⟩
    · exact hplane hz
    · cases h

theorem setFault_not_geometric {cause : SetupFault ℝ} (h : Reading.setFault? rs = some cause) :
    (Fault.setup cause).isGeometric = false := by
  unfold Reading.setFault? at h
  split_ifs at h
  · cases h
    rfl
  · obtain ⟨r, -, hr⟩ := List.exists_of_findSome?_eq_some h
    unfold Reading.fault? at hr
    split_ifs at hr <;> cases hr <;> rfl

/-- What an estimation on the line ends with is not for want of a place. -/
theorem estimate_error (hcheck : e.settings.check = .ok ())
    (h : e.source.Covers (rs.map (·.position)))
    (hf : (Estimator.estimate lineSource e initial rs).1 = .error f) : f.isGeometric = false := by
  cases hr : Reading.setFault? rs with
  | some cause =>
    rw [(Estimator.recorded_rejected lineSource e initial hr).1] at hf
    cases hf
    exact setFault_not_geometric hr
  | none =>
    have hend := (Estimator.estimate_ending lineSource initial hcheck hr).1
    -- A fault of the source is one of its calls, and those fail for a beam size only.
    have hanswer {calls : List (Call ℝ)} {trial : Covariance ℝ} {positions : List ℝ}
        {answer : Except (Fault ℝ) (List (PhaseMap ℝ))}
        (hcall : (Estimator.recorded lineSource e initial rs).source.2 =
          calls ++ [⟨trial, positions, answer⟩]) (hfault : answer = .error f) :
        f.isGeometric = false := by
      have hmem : ⟨trial, positions, answer⟩ ∈
          (Estimator.recorded lineSource e initial rs).source.2 := by
        rw [hcall]
        exact List.mem_append_right _ (List.mem_singleton_self _)
      exact (calls_error h initial _ hmem f hfault).not_geometric
    rw [hf] at hend
    -- The fault is that of a call, of a residual, of the cap or of an observation.
    cases hend with
    | unconfirmed _ _ _ _ _ _ call fault =>
      rcases bind_eq_error.mp fault with hfault | ⟨found, -, hresidual⟩
      · exact hanswer call hfault
      · exact residual_error hresidual
    | capped => rfl
    | interrupted _ _ _ _ _ call fault =>
      rcases bind_eq_error.mp fault with hfault | ⟨found, -, hobserve⟩
      · exact hanswer call hfault
      · exact observe_error hobserve

end Runs

/-! ### Records -/

def Record.KeepsToLine (r : Record ℝ) : Prop := ∀ f, r.fault = some f → f.isGeometric = false

namespace Record.KeepsToLine

variable {r : Record ℝ}

theorem use {α : Type} {result : Except (Fault ℝ) α} {next : α → Record ℝ}
    (hfault : ∀ f, result = .error f → f.isGeometric = false)
    (hnext : ∀ a, result = .ok a → (next a).KeepsToLine) : (Record.use result next).KeepsToLine := by
  cases result with
  | error f =>
    intro g hg
    cases hg
    exact hfault f rfl
  | ok a => exact hnext a rfl

theorem andThen {next : Unit → Record ℝ} (h : r.KeepsToLine) (hnext : (next ()).KeepsToLine) :
    (r.andThen next).KeepsToLine := by
  unfold Record.andThen
  cases hfault : r.fault with
  | some f => exact h
  | none => exact hnext

theorem ellipses (beam : Covariance ℝ) (planes : List Plane) :
    (Record.ellipses beam planes).KeepsToLine := by
  induction planes with
  | nil => exact nofun
  | cons p planes ih =>
    refine use (fun f hf => ?_) fun t _ => ih
    unfold Covariance.twiss Twiss.ofMoments at hf
    dsimp only at hf
    split_ifs at hf
    cases hf
    rfl

end Record.KeepsToLine

section Reconstruction

open Record

variable {c : Controls ℝ} {line : BeamLine ℝ} {rs : List (Reading ℝ)}

/-- The comparison along a line that covers the readings keeps to it. -/
theorem compareAlong_keepsToLine (h : line.Covers (rs.map (·.position))) (beam : Covariance ℝ) :
    (compareAlong line beam rs).KeepsToLine := by
  apply KeepsToLine.use (fun f hf => (h.walk_error hf).not_geometric)
  intro Ms _
  refine .use (fun f hf => ?_) fun rows _ => nofun
  unfold Covariance.compare at hf
  split_ifs at hf
  cases hf
  rfl

/-- So does the estimator on the line with space charge. -/
theorem withSpaceCharge_keepsToLine (h : line.Covers (rs.map (·.position))) (seed : Covariance ℝ) :
    (withSpaceCharge c line seed rs).KeepsToLine := by
  refine .use (fun f hf => ?_) fun model hmodel => .use (fun f hf => ?_) fun fresh hfresh => ?_
  · unfold SpaceCharge.mk? at hf
    dsimp only at hf
    split_ifs at hf <;> cases hf <;> rfl
  · have hcheck := map_eq_error.mp hf
    unfold Settings.check Settings.fault? at hcheck
    split at hcheck
    · rename_i cause hcause
      cases hcheck
      split_ifs at hcause <;> cases hcause <;> rfl
    · cases hcheck
  · obtain ⟨_, hcheck, rfl⟩ := map_eq_ok.mp hfresh
    have hcharged := h.withSpaceCharge hmodel
    refine .use (fun f hf => estimate_error hcheck hcharged hf) fun beam _ => ?_
    exact .andThen (.ellipses beam _) (compareAlong_keepsToLine hcharged beam)

theorem sortReadings_entrance (h : ∀ r ∈ rs, 0 ≤ r.position) :
    ∀ p ∈ (sortReadings rs).map (·.position), 0 ≤ p := by
  intro p hp
  obtain ⟨r, hr, rfl⟩ := List.mem_map.mp hp
  exact h r ((List.mergeSort_perm _ _).mem_iff.mp hr)

/-- Whatever ends a reconstruction from readings behind the entrance, it is no fault of the line or
of a place on it. -/
theorem reconstruct_keepsToLine (c : Controls ℝ) (field : FieldMap ℝ)
    (h : ∀ r ∈ rs, 0 ≤ r.position) : (reconstruct c field (sortReadings rs)).KeepsToLine := by
  have hsorted := sortReadings_sorted rs
  have hentrance := sortReadings_entrance h
  -- One stage after the other: the line, its maps, the fit, and the comparison.
  refine .use (fun f hf => Controls.line_error hsorted hentrance hf) fun line hline => ?_
  have hcovers := Controls.line_covers hsorted hentrance hline
  refine .use (fun f hf => ?_) fun Ms _ => .use (fun f hf => ?_) fun seed _ => ?_
  · obtain ⟨Ms, hMs, -⟩ := hcovers.zeroCurrentMaps
    cases hMs.symm.trans hf
  · rcases bind_eq_error.mp hf with hcheck | ⟨_, -, hobserve⟩
    · unfold Reading.check at hcheck
      split at hcheck
      · rename_i cause hcause
        cases hcheck
        exact setFault_not_geometric hcause
      · cases hcheck
    · exact observe_error hobserve
  · refine .andThen (.ellipses seed _) ?_
    split_ifs
    · exact withSpaceCharge_keepsToLine hcovers seed
    · exact compareAlong_keepsToLine hcovers seed

/-- Wherever the gap starts, the line of the command takes all readings that are not in front of the
entrance, in whatever order they come. The maps without space charge are there, an estimator on the line
with space charge fails on the way with nothing but a beam without a size, and what may end the command
has nothing to do with elements or positions. -/
theorem readings_on_line (c : Controls ℝ) (field : FieldMap ℝ) (probe : Probe ℝ) (drive : Drive ℝ)
    (h : ∀ r ∈ rs, 0 ≤ r.position) :
    (∃ line, BeamLine.mk? probe
        (c.elements field.profile drive ((sortReadings rs).map (·.position))) = .ok line ∧
      BeamLine.checkPositions line.length 0 ((sortReadings rs).map (·.position)) = .ok () ∧
      ∀ formula : LongitudinalFormula,
        (∃ Ms, BeamLine.zeroCurrentMaps { line with formula }
            ((sortReadings rs).map (·.position)) = .ok Ms ∧ Ms.length = rs.length) ∧
        ∀ {perveance longitudinal sliceLength : ℝ} {model : SpaceCharge ℝ},
          SpaceCharge.mk? perveance longitudinal sliceLength = .ok model →
          ∀ e : Estimator ℝ (BeamLine ℝ), e.source = { line with formula, spaceCharge := some model } →
            ∀ initial, ∀ call ∈ Estimator.calls lineSource e initial (sortReadings rs),
              ∀ f, call.result = .error f → ∃ p size, f = .numeric (.beamSize p size)) ∧
    ∀ f, (reconstruct c field (sortReadings rs)).fault = some f → f.isGeometric = false := by
  refine ⟨?_, reconstruct_keepsToLine c field h⟩
  obtain ⟨line, hline, hcovers⟩ := c.exists_covers field.profile drive probe (sortReadings_sorted rs)
    (sortReadings_entrance h)
  -- The formula and the model do not change which positions the line covers.
  refine ⟨line, hline, hcovers.positions, fun formula => ⟨?_, ?_⟩⟩
  · obtain ⟨Ms, hMs, hlength⟩ := (hcovers.withFormula formula).zeroCurrentMaps
    refine ⟨Ms, hMs, hlength.trans ?_⟩
    rw [List.length_map, sortReadings, List.length_mergeSort]
  · intro perveance longitudinal sliceLength model hmodel e he initial
    apply calls_error
    rw [he]
    exact (hcovers.withFormula formula).withSpaceCharge hmodel

noncomputable def scatteredReadings : List (Reading ℝ) :=
  [⟨"M3", 1, ⟨1, 1, 1⟩⟩, ⟨"M1", 0, ⟨1, 1, 1⟩⟩, ⟨"M2", 1 / 20, ⟨1, 1, 1⟩⟩]

noncomputable def earlyControls : Controls ℝ := { tiedControls with gapStart := -1 / 20 }

theorem readings_on_line_early :
    (∀ r ∈ scatteredReadings, 0 ≤ r.position) ∧
      SpaceCharge.mk? (1 / 1000000) 0 (1 / 20) = .ok (⟨1 / 1000000, 0, 1 / 20⟩ : SpaceCharge ℝ) ∧
      (∃ line, BeamLine.mk? ⟨3000000, 938272088, 1⟩ (earlyControls.elements BeamLine.ramp
          ⟨80000000, 1, -1⟩ ((sortReadings scatteredReadings).map (·.position))) = .ok line ∧
        BeamLine.checkPositions line.length 0
          ((sortReadings scatteredReadings).map (·.position)) = .ok () ∧
        ∀ call ∈ Estimator.calls lineSource (Estimator.fresh { line with
            formula := .quadratic, spaceCharge := some ⟨1 / 1000000, 0, 1 / 20⟩ } coarse)
            unitBeam (sortReadings scatteredReadings),
          ∀ f, call.result = .error f → ∃ p size, f = .numeric (.beamSize p size)) ∧
      ∀ f, (reconstruct earlyControls ⟨BeamLine.ramp, 1⟩ (sortReadings scatteredReadings)).fault =
        some f → f.isGeometric = false := by
  have h : ∀ r ∈ scatteredReadings, 0 ≤ r.position := by
    simp [scatteredReadings]
  have hmodel : SpaceCharge.mk? (1 / 1000000) 0 (1 / 20) =
      .ok (⟨1 / 1000000, 0, 1 / 20⟩ : SpaceCharge ℝ) := by
    simp [SpaceCharge.mk?]
  obtain ⟨⟨line, hline, hpositions, hruns⟩, hfault⟩ := readings_on_line earlyControls
    ⟨BeamLine.ramp, 1⟩ ⟨3000000, 938272088, 1⟩ ⟨80000000, 1, -1⟩ h
  exact ⟨h, hmodel, ⟨line, hline, hpositions, (hruns .quadratic).2 hmodel _ rfl unitBeam⟩, hfault⟩

end Reconstruction

end Command

end BeamOptics
