import BeamOptics.Proofs.Emittances
import BeamOptics.Proofs.Synthesis
import BeamOptics.Command.Reconstruction

/-! Reports of reconstructions that come to their end. The last entries compare the beam with the
readings, place by place. Where space charge leaves the maps to the readings as they are, the beam
that was found without it is the fit through its own maps, and one iteration confirms it. -/

namespace BeamOptics.Command

def Record.EndsAt (r : Record ℝ) (locations : List String) : Prop :=
  r.fault = none ∧ ∃ (common : List (Entry ℝ)) (rows : List (Comparison ℝ)),
    r.entries = common ++ rows.map .row ∧ rows.map (·.location) = locations

def Record.TellsSolved (r : Record ℝ) (iterations : ℕ) : Prop :=
  ∃ alpha residual, Entry.solved iterations alpha residual ∈ r.entries

namespace Record

variable {r : Record ℝ} {locations : List String} {iterations : ℕ}

theorem EndsAt.cons (e : Entry ℝ) (h : r.EndsAt locations) : (r.cons e).EndsAt locations := by
  obtain ⟨hfault, common, rows, hentries, hrows⟩ := h
  refine ⟨hfault, e :: common, rows, ?_, hrows⟩
  rw [Record.cons, hentries, List.cons_append]

theorem TellsSolved.cons (e : Entry ℝ) (h : r.TellsSolved iterations) :
    (r.cons e).TellsSolved iterations := by
  obtain ⟨alpha, residual, hmem⟩ := h
  exact ⟨alpha, residual, List.mem_cons_of_mem e hmem⟩

/-- What follows a record without a fault comes behind its entries. -/
theorem andThen_entries (h : r.fault = none) (next : Unit → Record ℝ) :
    r.andThen next = ⟨r.entries ++ (next ()).entries, (next ()).fault⟩ := by
  rw [andThen, h]

theorem EndsAt.andThen (h : r.fault = none) {next : Unit → Record ℝ}
    (hnext : (next ()).EndsAt locations) : (r.andThen next).EndsAt locations := by
  obtain ⟨hfault, common, rows, hentries, hrows⟩ := hnext
  rw [andThen_entries h]
  refine ⟨hfault, r.entries ++ common, rows, ?_, hrows⟩
  rw [List.append_assoc, hentries]

theorem TellsSolved.andThen (h : r.fault = none) {next : Unit → Record ℝ}
    (hnext : (next ()).TellsSolved iterations) : (r.andThen next).TellsSolved iterations := by
  obtain ⟨alpha, residual, hmem⟩ := hnext
  rw [andThen_entries h]
  exact ⟨alpha, residual, List.mem_append_right _ hmem⟩

/-- The ellipses of a sound beam can be printed. -/
theorem ellipses_fault {beam : Covariance ℝ} (h : beam.Sound) (planes : List Plane) :
    (ellipses beam planes).fault = none := by
  induction planes with
  | nil => rfl
  | cons p planes ih =>
    obtain ⟨t, ht⟩ := h.exists_twiss p
    rw [ellipses, ht]
    exact ih

end Record

section Finished

variable {c : Controls ℝ} {field : FieldMap ℝ} {line : BeamLine ℝ} {model : SpaceCharge ℝ}
  {beam : Covariance ℝ} {Ms : List (PhaseMap ℝ)} {rs : List (Reading ℝ)}

/-- If the maps are found, the comparisons come in the order of the readings and end the report. -/
theorem compareAlong_endsAt (hmaps : line.mapsAt beam (rs.map (·.position)) = .ok Ms)
    (hlength : Ms.length = rs.length) :
    (compareAlong line beam rs).EndsAt (rs.map (·.location)) := by
  have hcompare : beam.compare Ms rs = .ok (((beam.envelope Ms).zip rs).map fun e =>
      ⟨e.2.location, e.2.position, e.1, e.2.sizes⟩) := if_neg (not_not.mpr hlength)
  have hlocations : (((beam.envelope Ms).zip rs).map fun e => e.2.location) =
      rs.map (·.location) := by
    have hcount : rs.length ≤ (beam.envelope Ms).length := by
      rw [Covariance.envelope, List.length_map, hlength]
    conv_rhs => rw [← List.map_snd_zip hcount, List.map_map]
    rfl
  unfold compareAlong
  dsimp only
  rw [hmaps]
  refine .cons _ (.cons _ ?_)
  simp only [Record.use, hcompare]
  refine ⟨rfl, [], _, rfl, ?_⟩
  rw [List.map_map]
  exact hlocations

/-- With maps that are those of its own fit, the first trial is confirmed by one iteration. -/
theorem withSpaceCharge_endsAt (hmodel : SpaceCharge.mk? c.perveance c.longitudinalPerveance
      c.sliceLength = .ok model) (hsettings : c.settings.check = .ok ()) (hbeam : beam.Sound)
    (hr : Reading.setFault? rs = none) (hobs : Observation.observe Ms rs = .ok beam)
    (hmaps : BeamLine.mapsAt { line with spaceCharge := some model } beam (rs.map (·.position)) =
      .ok Ms) :
    (withSpaceCharge c line beam rs).EndsAt (rs.map (·.location)) ∧
      (withSpaceCharge c line beam rs).TellsSolved 1 := by
  obtain ⟨hlength, m, -, hm⟩ := Observation.observe_eq_ok.mp hobs
  have hbeam' : beam.Uncoupled := hm ▸ Covariance.uncoupled_ofMoments m
  have hfresh : Estimator.mk? { line with spaceCharge := some model } c.settings =
      .ok (.fresh { line with spaceCharge := some model } c.settings) := by
    rw [Estimator.mk?, hsettings]
    rfl
  -- A line does not change when it is asked for maps, so every call has the same answer.
  have hsource : ∀ g, lineSource.Reached { line with spaceCharge := some model } g →
      (lineSource.maps g beam (rs.map (·.position))).1 = .ok Ms := by
    intro g hg
    induction hg with
    | start => exact hmaps
    | call _ _ _ ih => exact ih
  obtain ⟨residual, hres⟩ := Estimator.residual_isOk hlength beam
  obtain ⟨g, hestimate⟩ := Estimator.estimate_of_fit
    (e := .fresh { line with spaceCharge := some model } c.settings) hbeam' hr hobs hsettings hsource
    hres
  have hrest := compareAlong_endsAt hmaps hlength
  have hellipses := Record.ellipses_fault hbeam Plane.all
  unfold withSpaceCharge
  rw [hmodel]
  simp only [Record.use, hfresh, hestimate]
  refine ⟨.cons _ (.cons _ (.cons _ (.andThen hellipses hrest))), .cons _ ?_⟩
  exact ⟨_, _, List.mem_cons_self ..⟩

/-- A reconstruction comes to its end if space charge leaves the maps to the readings as they are for
the beam that is found without it. -/
theorem reconstruct_endsAt (hline : c.line field (rs.map (·.position)) = .ok line)
    (hzero : line.zeroCurrentMaps (rs.map (·.position)) = .ok Ms)
    (hseed : Observation.zeroCurrent Ms rs = .ok beam) (hbeam : beam.Sound)
    (hcharge : c.hasSpaceCharge = true)
    (hmodel : SpaceCharge.mk? c.perveance c.longitudinalPerveance c.sliceLength = .ok model)
    (hsettings : c.settings.check = .ok ())
    (hmaps : BeamLine.mapsAt { line with spaceCharge := some model } beam (rs.map (·.position)) =
      .ok Ms) :
    (reconstruct c field rs).EndsAt (rs.map (·.location)) ∧
      (reconstruct c field rs).TellsSolved 1 := by
  obtain ⟨hr, hobs⟩ := Observation.zeroCurrent_eq_ok.mp hseed
  have hellipses := Record.ellipses_fault hbeam Plane.all
  obtain ⟨hends, htells⟩ := withSpaceCharge_endsAt hmodel hsettings hbeam hr hobs hmaps
  unfold reconstruct
  simp only [Record.use, hline, hzero, hseed, if_pos hcharge]
  exact ⟨.cons _ (.cons _ (.andThen hellipses hends)), .cons _ (.cons _ (.andThen hellipses htells))⟩

end Finished

end BeamOptics.Command
