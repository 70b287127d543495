import BeamOptics.Proofs.FinishedReports
import BeamOptics.Proofs.PhysicalBeams
import BeamOptics.Proofs.RunRecord

/-! Tables whose rows come in another order. Sorting leaves only readings at one place to change theirs,
and these have the same map. The fit, the residual and the whole run are sums over pairs of a map and a
reading, so they do not see the order, and the comparison shows it only within one place. -/

namespace BeamOptics

/-- Accepted readings of which only those at one place may have changed their order. -/
structure Reordered (rs rs' : List (Reading ℝ)) : Prop where
  accepted : ∀ r ∈ rs, r.fault? = none
  perm : rs.Perm rs'
  positions : rs'.map (·.position) = rs.map (·.position)

/-! ### Fits -/

section Fits

variable {rs rs' : List (Reading ℝ)}

theorem Reordered.length_eq (h : Reordered rs rs') : rs'.length = rs.length := h.perm.length_eq.symm

/-- The check of the readings does not see their order. -/
theorem Reordered.setFault (h : Reordered rs rs') : Reading.setFault? rs' = Reading.setFault? rs := by
  have hfirst {qs : List (Reading ℝ)} (hqs : ∀ r ∈ qs, r.fault? = none) :
      qs.findSome? Reading.fault? = none := List.findSome?_eq_none_iff.mpr hqs
  have haccepted : ∀ r ∈ rs', r.fault? = none := fun r hr => h.accepted r (h.perm.mem_iff.mpr hr)
  rw [Reading.setFault?, Reading.setFault?, h.length_eq, hfirst h.accepted, hfirst haccepted]

/-- Maps that belong to the positions of the readings: as many, and equal ones at equal positions. -/
def Located (Ms : List (PhaseMap ℝ)) (rs : List (Reading ℝ)) : Prop :=
  ∃ f : ℝ → PhaseMap ℝ, Ms = (rs.map (·.position)).map f

variable {Ms : List (PhaseMap ℝ)}

theorem Located.length_eq (hMs : Located Ms rs) : Ms.length = rs.length := by
  obtain ⟨f, rfl⟩ := hMs
  rw [List.length_map, List.length_map]

/-- Each reading keeps its map. -/
theorem Reordered.zip_perm (h : Reordered rs rs') (hMs : Located Ms rs) :
    (Ms.zip rs).Perm (Ms.zip rs') := by
  obtain ⟨f, rfl⟩ := hMs
  have hpairs (qs : List (Reading ℝ)) :
      ((qs.map (·.position)).map f).zip qs = qs.map fun r => (f r.position, r) := by
    induction qs with
    | nil => rfl
    | cons r qs ih => rw [List.map_cons, List.map_cons, List.zip_cons_cons, ih, List.map_cons]
  rw [hpairs rs, ← h.positions, hpairs rs']
  exact h.perm.map _

namespace Observation

/-- An observation does not depend on the order of readings at one place. -/
theorem observe_reordered (h : Reordered rs rs') (hMs : Located Ms rs) :
    observe Ms rs' = observe Ms rs := by
  rw [observe, observe, h.length_eq]
  simp only [planeMoments_perm (h.zip_perm hMs)]

end Observation

namespace Covariance

variable (beam : Covariance ℝ)

/-- As many maps as readings are compared, and the comparison keeps the order. -/
theorem compare_reordered (h : Reordered rs rs') (hMs : Located Ms rs) :
    ∃ rows rows', beam.compare Ms rs = .ok rows ∧ beam.compare Ms rs' = .ok rows' ∧
      rows.Perm rows' ∧ rows'.map (·.position) = rows.map (·.position) := by
  have hcompare {qs : List (Reading ℝ)} (hlength : Ms.length = qs.length) :
      beam.compare Ms qs = .ok ((Ms.zip qs).map fun e =>
        ⟨e.2.location, e.2.position, (beam.propagate e.1).sizes, e.2.sizes⟩) := by
    rw [compare, if_neg (not_not.mpr hlength), envelope, List.zip_map_left, List.map_map]
    rfl
  have hpositions {qs : List (Reading ℝ)} (hlength : Ms.length = qs.length) :
      (Ms.zip qs).map (·.2.position) = qs.map (·.position) := by
    conv_rhs => rw [← List.map_snd_zip hlength.ge, List.map_map]
    rfl
  have hlength' : Ms.length = rs'.length := hMs.length_eq.trans h.length_eq.symm
  refine ⟨_, _, hcompare hMs.length_eq, hcompare hlength', (h.zip_perm hMs).map _, ?_⟩
  rw [List.map_map, List.map_map]
  exact (hpositions hlength').trans (h.positions.trans (hpositions hMs.length_eq).symm)

/-- Neither does a residual. -/
theorem residual_reordered (h : Reordered rs rs') (hMs : Located Ms rs) :
    beam.residual Ms rs' = beam.residual Ms rs := by
  obtain ⟨rows, rows', hrows, hrows', hperm, -⟩ := beam.compare_reordered h hMs
  have hsum : (rows'.flatMap fun c => c.deviation.toList.map Scalar.square).sum =
      (rows.flatMap fun c => c.deviation.toList.map Scalar.square).sum :=
    (hperm.symm.flatMap_right _).sum_eq
  have hempty : rows'.isEmpty = rows.isEmpty := by
    rw [Bool.eq_iff_iff, List.isEmpty_iff_length_eq_zero, List.isEmpty_iff_length_eq_zero,
      hperm.length_eq]
  rw [residual, residual, hrows, hrows']
  simp only [bind, Except.bind, hempty, Scalar.real_sum, hsum, hperm.length_eq]

end Covariance

/-- The maps of a walk belong to its positions. -/
theorem BeamLine.located_of_walk {line : BeamLine ℝ} (hline : line.Built)
    {charged : Option (ChargedBeam ℝ)} (h : line.walk charged (rs.map (·.position)) = .ok Ms) :
    Located Ms rs := by
  obtain ⟨-, hall⟩ := (walk_eq_ok hline (checkPositions_of_walk h)).mp h
  refine ⟨fun z => match line.wayTo charged z with | .ok M => M | .error _ => PhaseMap.identity, ?_⟩
  clear h
  generalize rs.map (·.position) = ps at hall
  induction hall with
  | nil => rfl
  | cons hM _ ih => rw [List.map_cons, ← ih, hM]

end Fits

/-! ### Runs -/

namespace Estimator

open Command

variable {rs rs' : List (Reading ℝ)} {e : Estimator ℝ (BeamLine ℝ)}

theorem relaxed_reordered (h : Reordered rs rs') {Ms : List (PhaseMap ℝ)} (hMs : Located Ms rs)
    (settings : Settings ℝ) (sofar : PlaneHistories ℝ planeMoments)
    (previous : Option (Iteration ℝ)) (trial recursion : Covariance ℝ) :
    relaxed settings sofar previous trial recursion Ms rs' =
      relaxed settings sofar previous trial recursion Ms rs := by
  unfold relaxed
  simp only [Covariance.residual_reordered _ h hMs]

/-- An iteration on a line is the same for reordered readings. -/
theorem iterate_reordered (h : Reordered rs rs') (hline : e.source.Built) (initial : Covariance ℝ) :
    iterate lineSource initial rs' e = iterate lineSource initial rs e := by
  have hask : ask lineSource rs' (e.trial initial) e = ask lineSource rs (e.trial initial) e := by
    rw [ask, ask, h.positions]
  have hattempt : e.attempt (e.trial initial) rs' (ask lineSource rs (e.trial initial) e).1 =
      e.attempt (e.trial initial) rs (ask lineSource rs (e.trial initial) e).1 := by
    cases hanswer : (ask lineSource rs (e.trial initial) e).1 with
    | error f => rfl
    | ok Ms =>
      have hMs : Located Ms rs := BeamLine.located_of_walk hline hanswer
      change (Observation.observe Ms rs' >>= fun recursion =>
          relaxed e.settings e.histories e.completed.head? (e.trial initial) recursion Ms rs') =
        Observation.observe Ms rs >>= fun recursion =>
          relaxed e.settings e.histories e.completed.head? (e.trial initial) recursion Ms rs
      simp only [Observation.observe_reordered h hMs, relaxed_reordered h hMs]
  rw [iterate_eq, iterate_eq, hask, hattempt]

theorem finish_reordered (h : Reordered rs rs') (hline : e.source.Built) (beam : Covariance ℝ) :
    finish lineSource rs' beam e = finish lineSource rs beam e := by
  have hask : ask lineSource rs' beam e = ask lineSource rs beam e := by
    rw [ask, ask, h.positions]
  have hresidual : (ask lineSource rs' beam e).1 >>= (beam.residual · rs') =
      (ask lineSource rs beam e).1 >>= (beam.residual · rs) := by
    rw [hask]
    cases hanswer : (ask lineSource rs beam e).1 with
    | error f => rfl
    | ok Ms => exact beam.residual_reordered h (BeamLine.located_of_walk hline hanswer)
  cases hr : (ask lineSource rs beam e).1 >>= (beam.residual · rs) with
  | error f => rw [finish_error hr, finish_error (hresidual.trans hr), hask]
  | ok r => rw [finish_ok hr, finish_ok (hresidual.trans hr), hask]

/-- A line stays the source of the maps. -/
theorem source_of_iterate {initial : Covariance ℝ} {x : Except (Fault ℝ) (Iteration ℝ)}
    {d : Estimator ℝ (BeamLine ℝ)} (hi : iterate lineSource initial rs e = (x, d)) :
    d.source = e.source := by
  have hsource := congrArg (fun r => r.2.source) hi
  dsimp only at hsource
  rw [iterate_source] at hsource
  exact hsource.symm

/-- A run on a line is the same for reordered readings, by induction over the iterations that it may
take. -/
theorem run_reordered (h : Reordered rs rs') (hline : e.source.Built) (initial : Covariance ℝ)
    (further : ℕ) :
    run lineSource initial rs' further e = run lineSource initial rs further e := by
  -- The induction is on the iterations left, each the same in both runs.
  induction further generalizing e with
  | zero =>
    rw [run, run, iterate_reordered h hline]
    rcases hi : iterate lineSource initial rs e with ⟨f | i, d⟩
    · rfl
    · dsimp only
      rw [finish_reordered h (source_of_iterate hi ▸ hline)]
  | succ further ih =>
    rw [run, run, iterate_reordered h hline]
    rcases hi : iterate lineSource initial rs e with ⟨f | i, d⟩
    · rfl
    · dsimp only
      rw [finish_reordered h (source_of_iterate hi ▸ hline), ih (source_of_iterate hi ▸ hline)]

/-- An estimation does not see the order of readings at one place, in its result and in its record. -/
theorem estimate_reordered (h : Reordered rs rs') (hline : e.source.Built)
    (initial : Covariance ℝ) :
    estimate lineSource e initial rs' = estimate lineSource e initial rs := by
  have hfresh : (fresh e.source e.settings).source.Built := hline
  rw [estimate, estimate, h.setFault, reset_eq_fresh, run_reordered h hfresh]

end Estimator

/-! ### The command line -/

namespace Command

/-- The same report, except that comparisons at one place may have changed their order. -/
def Record.SameReport (r r' : Record ℝ) : Prop :=
  r'.fault = r.fault ∧ ∃ (common : List (Entry ℝ)) (rows rows' : List (Comparison ℝ)),
    r.entries = common ++ rows.map .row ∧ r'.entries = common ++ rows'.map .row ∧
      rows.Perm rows' ∧ rows'.map (·.position) = rows.map (·.position)

namespace Record.SameReport

variable {r r' : Record ℝ}

theorem refl (r : Record ℝ) : r.SameReport r :=
  ⟨rfl, r.entries, [], [], (List.append_nil _).symm, (List.append_nil _).symm, .refl _, rfl⟩

theorem cons (e : Entry ℝ) (h : r.SameReport r') : (r.cons e).SameReport (r'.cons e) := by
  obtain ⟨hfault, common, rows, rows', hr, hr', hperm, hpositions⟩ := h
  refine ⟨hfault, e :: common, rows, rows', ?_, ?_, hperm, hpositions⟩
  · rw [Record.cons, hr, List.cons_append]
  · rw [Record.cons, hr', List.cons_append]

theorem use {α : Type} {result : Except (Fault ℝ) α} {next next' : α → Record ℝ}
    (h : ∀ a, result = .ok a → (next a).SameReport (next' a)) :
    (Record.use result next).SameReport (Record.use result next') := by
  cases result with
  | error f => exact refl _
  | ok a => exact h a rfl

/-- What is done after the same beginning may reorder comparisons at its own end. -/
theorem andThen (r : Record ℝ) {next next' : Unit → Record ℝ}
    (h : (next ()).SameReport (next' ())) : (r.andThen next).SameReport (r.andThen next') := by
  unfold Record.andThen
  cases r.fault with
  | some f => exact refl r
  | none =>
    obtain ⟨hfault, common, rows, rows', hr, hr', hperm, hpositions⟩ := h
    refine ⟨hfault, r.entries ++ common, rows, rows', ?_, ?_, hperm, hpositions⟩
    · rw [List.append_assoc, ← hr]
    · rw [List.append_assoc, ← hr']

end Record.SameReport

section Reconstruction

open Record

variable {rs rs' : List (Reading ℝ)} {line : BeamLine ℝ}

/-- The comparisons along a line come in the order of the readings, and are otherwise the same. -/
theorem compareAlong_reordered (h : Reordered rs rs') (hline : line.Built) (beam : Covariance ℝ) :
    (compareAlong line beam rs).SameReport (compareAlong line beam rs') := by
  unfold compareAlong
  rw [h.positions]
  refine .cons _ (.cons _ (.use fun Ms hMs => ?_))
  obtain ⟨rows, rows', hrows, hrows', hperm, hpositions⟩ :=
    beam.compare_reordered h (BeamLine.located_of_walk hline hMs)
  rw [hrows, hrows']
  exact ⟨rfl, [], rows, rows', rfl, rfl, hperm, hpositions⟩

theorem withSpaceCharge_reordered (c : Controls ℝ) (h : Reordered rs rs') (hline : line.Built)
    (seed : Covariance ℝ) :
    (withSpaceCharge c line seed rs).SameReport (withSpaceCharge c line seed rs') := by
  refine .use fun model hmodel => ?_
  have hcharged := hline.withSpaceCharge hmodel
  refine .use fun fresh hfresh => ?_
  have hsource : fresh.source.Built := by
    obtain ⟨-, -, rfl⟩ := map_eq_ok.mp hfresh
    exact hcharged
  rw [Estimator.estimate_reordered h hsource]
  refine .cons _ (.use fun beam _ => .cons _ (.cons _ (.andThen _ ?_)))
  exact compareAlong_reordered h hcharged beam

theorem Controls.line_built {c : Controls ℝ} {field : FieldMap ℝ} {positions : List ℝ}
    (h : c.line field positions = .ok line) : line.Built := by
  obtain ⟨probe, -, h⟩ := bind_eq_ok.mp h
  obtain ⟨drive, -, h⟩ := bind_eq_ok.mp h
  obtain ⟨bare, hbare, h⟩ := bind_eq_ok.mp h
  rw [← pure_eq_ok.mp h]
  exact .withFormula _ (.new hbare)

/-- Reordered readings are reconstructed to the same report. -/
theorem reconstruct_reordered (c : Controls ℝ) (field : FieldMap ℝ) (h : Reordered rs rs') :
    (reconstruct c field rs).SameReport (reconstruct c field rs') := by
  unfold reconstruct
  rw [h.positions]
  refine .use fun line hline => .cons _ (.use fun Ms hMs => ?_)
  have hbuilt := Controls.line_built hline
  have hseed : Observation.zeroCurrent Ms rs' = Observation.zeroCurrent Ms rs := by
    rw [Observation.zeroCurrent, Observation.zeroCurrent, Reading.check, Reading.check, h.setFault,
      Observation.observe_reordered h (BeamLine.located_of_walk hbuilt hMs)]
  rw [hseed]
  refine .use fun seed _ => .cons _ (.andThen _ ?_)
  split_ifs
  · exact withSpaceCharge_reordered c h hbuilt seed
  · exact compareAlong_reordered h hbuilt seed

/-- Sorted readings have their positions in order. -/
theorem sortReadings_sorted (rs : List (Reading ℝ)) :
    ((sortReadings rs).map (·.position)).Pairwise (· ≤ ·) := by
  rw [List.pairwise_map]
  refine (List.pairwise_mergeSort ?_ ?_ rs).imp fun hab => of_decide_eq_true hab
  · intro a b c hab hbc
    exact decide_eq_true ((of_decide_eq_true hab).trans (of_decide_eq_true hbc))
  · intro a b
    exact (Bool.or_eq_true _ _).mpr
      ((le_total a.position b.position).imp decide_eq_true decide_eq_true)

/-- Sorting leaves accepted readings in the order of their positions, whatever their order was. -/
theorem sortReadings_reordered (h : rs.Perm rs') (haccepted : ∀ r ∈ rs, r.fault? = none) :
    Reordered (sortReadings rs) (sortReadings rs') := by
  have hsame (qs : List (Reading ℝ)) : (sortReadings qs).Perm qs := List.mergeSort_perm _ _
  have hperm : (sortReadings rs).Perm (sortReadings rs') :=
    (hsame rs).trans (h.trans (hsame rs').symm)
  refine ⟨fun r hr => haccepted r ((hsame rs).mem_iff.mp hr), hperm, ?_⟩
  exact (hperm.symm.map _).eq_of_pairwise' (sortReadings_sorted rs') (sortReadings_sorted rs)

/-- The reading of a row was accepted. -/
theorem rowReading_accepted {row : String × ℝ × ℝ × ℝ × ℝ} {r : Reading ℝ}
    (h : rowReading row = .ok r) : r.fault? = none := by
  obtain ⟨location, position, x, y, z⟩ := row
  unfold rowReading Reading.mk? at h
  dsimp only at h
  cases hfault : (⟨location, position, ⟨x, y, z⟩⟩ : Reading ℝ).fault? with
  | some cause =>
    rw [hfault] at h
    cases h
  | none =>
    rw [hfault] at h
    cases h
    exact hfault

theorem readings_accepted {rows : List (String × ℝ × ℝ × ℝ × ℝ)}
    (h : List.Forall₂ (fun row r => rowReading row = .ok r) rows rs) : ∀ r ∈ rs, r.fault? = none := by
  induction h with
  | nil => exact nofun
  | cons hrow _ ih => exact List.forall_mem_cons.mpr ⟨rowReading_accepted hrow, ih⟩

/-- Rows in another order are accepted or not as they are in the first one. -/
theorem readingsOf_reordered {rows rows' : List (String × ℝ × ℝ × ℝ × ℝ)} (h : rows.Perm rows') :
    Alike (fun _ _ => True) Reordered (readingsOf rows) (readingsOf rows') := by
  -- Reading is a relation between rows and readings, so that a permutation of one side gives one of
  -- the other.
  have hok {rows rows' : List (String × ℝ × ℝ × ℝ × ℝ)} (h : rows.Perm rows')
      {rs : List (Reading ℝ)} (hrs : readingsOf rows = .ok rs) :
      ∃ rs', readingsOf rows' = .ok rs' ∧ Reordered rs rs' := by
    obtain ⟨qs, hqs, rfl⟩ := map_eq_ok.mp hrs
    have hread := mapM_eq_ok.mp hqs
    obtain ⟨qs', hqs', hperm⟩ := List.perm_comp_forall₂ h.symm hread
    exact ⟨_, map_eq_ok.mpr ⟨qs', mapM_eq_ok.mpr hqs', rfl⟩,
      sortReadings_reordered hperm.symm (readings_accepted hread)⟩
  cases hrs : readingsOf rows with
  | ok rs =>
    obtain ⟨rs', hrs', hreordered⟩ := hok h hrs
    rw [hrs']
    exact .ok hreordered
  | error f =>
    cases hrs' : readingsOf rows' with
    | error f' => exact .error trivial
    | ok rs' =>
      obtain ⟨rs, hback, -⟩ := hok h.symm hrs'
      rw [hrs] at hback
      cases hback

/-- The order of the rows of a table does not matter to the command line: the same rows in any order
are accepted or not, and their reconstruction has the same report, with the same fault or none, up to
the order of comparisons at one place. -/
theorem reconstruct_rows_perm (c : Controls ℝ) (field : FieldMap ℝ)
    {rows rows' : List (String × ℝ × ℝ × ℝ × ℝ)} (h : rows.Perm rows') :
    Alike (fun _ _ => True) Record.SameReport ((readingsOf rows).map (reconstruct c field))
      ((readingsOf rows').map (reconstruct c field)) :=
  (readingsOf_reordered h).map fun _ _ hreordered => reconstruct_reordered c field hreordered

end Reconstruction

/-! ### A table with a tie -/

noncomputable def tiedRows : List (String × ℝ × ℝ × ℝ × ℝ) :=
  [("M3", 1 / 2, 5, 5, 5), ("M1", 0, 1, 1, 1), ("M4", 1 / 2, 1, 1, 1), ("M2", 1 / 4, 2, 2, 2)]

noncomputable def tiedReadings (first second : String) (u v : ℝ) : List (Reading ℝ) :=
  [⟨"M1", 0, ⟨1, 1, 1⟩⟩, ⟨"M2", 1 / 4, ⟨2, 2, 2⟩⟩, ⟨first, 1 / 2, ⟨u, u, u⟩⟩,
    ⟨second, 1 / 2, ⟨v, v, v⟩⟩]

/-- Sorting keeps the rows of the last place in the order of the table. -/
theorem readingsOf_tiedRows :
    readingsOf tiedRows = .ok (tiedReadings "M3" "M4" 5 1) ∧
      readingsOf tiedRows.reverse = .ok (tiedReadings "M4" "M3" 1 5) := by
  have hrow (location : String) (position : ℝ) {size : ℝ} (h : 0 < size) :
      rowReading (location, position, size, size, size) =
        .ok ⟨location, position, ⟨size, size, size⟩⟩ := by
    simp [rowReading, Reading.mk?, Reading.fault?, Triple.toList, Except.mapError, h]
  have hfirst := hrow "M1" 0 one_pos
  have hmiddle := hrow "M2" (1 / 4) two_pos
  have hlarge := hrow "M3" (1 / 2) (by norm_num : (0 : ℝ) < 5)
  have hsmall := hrow "M4" (1 / 2) one_pos
  constructor
  · refine map_eq_ok.mpr ⟨_, mapM_eq_ok.mpr
      (.cons hlarge (.cons hfirst (.cons hsmall (.cons hmiddle .nil)))), ?_⟩
    norm_num [sortReadings, tiedReadings, List.mergeSort, List.MergeSort.Internal.splitInTwo,
      List.merge, Scalar.precedes]
  · refine map_eq_ok.mpr ⟨_, mapM_eq_ok.mpr
      (.cons hmiddle (.cons hsmall (.cons hfirst (.cons hlarge .nil)))), ?_⟩
    norm_num [sortReadings, tiedReadings, List.mergeSort, List.MergeSort.Internal.splitInTwo,
      List.merge, Scalar.precedes]

section Fit

open Observation

variable {t u v k : ℝ}

noncomputable def tiedEquations (t u v : ℝ) : List (Vector ℝ 3 × ℝ) :=
  [(0, 1), (t, 2), (2 * t, u), (2 * t, v)].map fun e => (#v[1, 2 * e.1, e.1 ^ 2], e.2)

theorem normalMatrix_tied : normalMatrix (tiedEquations t u v) =
    .ofSquares 4 (11 * t ^ 2) (8 / 11 * t ^ 4) (5 / 2 * t) (9 / 4 * t ^ 2) (23 / 22 * t) := by
  apply Mat.ext_entry
  intro i j
  rw [normalMatrix_entry]
  fin_cases i <;> fin_cases j
  all_goals simp [tiedEquations, Mat.ofSquares, Mat.entry, Vector.get]
  all_goals ring

/-- The sizes at the last place enter the normal equations through the sum of their squares. -/
theorem normalMatrix_tied_solves (h : u * u + v * v = 26) (hk : t ^ 2 * k = 3) :
    (normalMatrix (tiedEquations t u v)).Solves #v[1, 0, k] (normalRhs (tiedEquations t u v)) := by
  intro i
  rw [normalMatrix_tied, normalRhs_get, Fin.sum_univ_three]
  fin_cases i
  all_goals simp [tiedEquations, Mat.ofSquares, Mat.entry, Vector.get]
  · linear_combination 9 * hk - h
  · linear_combination 34 * t * hk - 4 * t * h
  · linear_combination 33 * t ^ 2 * hk - 4 * t ^ 2 * h

/-- The equations pass the pivot test, whichever reading of the last place comes first. -/
theorem solve_tied (h : u * u + v * v = 26) (h₀ : 1 / 16 ≤ t) (h₁ : t ≤ 1 / 4)
    (hk : t ^ 2 * k = 3) :
    (normalMatrix (tiedEquations t u v)).solve (normalRhs (tiedEquations t u v)) =
      .ok #v[1, 0, k] := by
  have hsolves := normalMatrix_tied_solves h hk
  rw [normalMatrix_tied] at hsolves ⊢
  exact Mat.solve_ofSquares_powers h₀ h₁ (by norm_num) (by norm_num) (by norm_num) (by norm_num)
    (by norm_num) (by norm_num) (by norm_num [Mat.negligiblePivot]) hsolves

/-- Drifts to the readings determine the moments of every plane. -/
theorem planeMoments_tiedReadings {gamma : ℝ} (h₁ : 1 ≤ gamma) (h₂ : gamma ≤ 2)
    (first second : String) (h : u * u + v * v = 26) (p : Plane) :
    ∃ k : ℝ, 0 < k ∧ planeMoments
      (((tiedReadings first second u v).map (·.position)).map fun z => PhaseMap.drift z gamma)
      (tiedReadings first second u v) p = .ok ⟨1, 0, k⟩ := by
  -- In every plane a drift slips by some share of its length, and the share is not small.
  obtain ⟨share, hlower, hupper, hblock⟩ := PhaseMap.exists_block_drift h₁ p
  have hquarter : 1 / 4 ≤ share := by
    refine le_trans ?_ hlower
    rw [div_le_div_iff_of_pos_left one_pos four_pos (by positivity)]
    nlinarith
  obtain ⟨t, rfl⟩ : ∃ t, share = 4 * t := ⟨share / 4, by ring⟩
  have hpos : 0 < t := by linarith
  have hequations : equations
      (((tiedReadings first second u v).map (·.position)).map fun z => PhaseMap.drift z gamma)
      (tiedReadings first second u v) p = tiedEquations t u v := by
    have hmiddle : 1 / 4 * (4 * t) = t := by ring
    have hlast : 1 / 2 * (4 * t) = 2 * t := by ring
    have hsize (x : ℝ) : (⟨x, x, x⟩ : Triple ℝ).get p = x := by
      cases p <;> rfl
    rw [equations_drifts hblock]
    simp only [tiedReadings, tiedEquations, List.map_cons, List.map_nil, hsize, zero_mul, hmiddle,
      hlast]
  -- The last moment is what the sizes at half a metre leave to the slope.
  obtain ⟨k, hk⟩ : ∃ k, t ^ 2 * k = 3 := ⟨3 / t ^ 2, mul_div_cancel₀ 3 (by positivity)⟩
  refine ⟨k, pos_of_mul_pos_right (hk ▸ three_pos) (sq_nonneg t), ?_⟩
  unfold planeMoments
  dsimp only
  rw [hequations, solve_tied h (by linarith) (by linarith) hk]
  rfl

end Fit

noncomputable def tiedField : FieldMap ℝ where
  profile := {
    positions := #[0, 1 / 10]
    samples := #[1, 0]
    accepted := Profile.fault?_of_equal_steps (by norm_num : (0 : ℝ) < 1 / 10) rfl le_rfl
      fun i (hi : i < 2) => by interval_cases i <;> simp }
  peak := 150000

noncomputable def tiedControls : Controls ℝ where
  species := .proton
  energy := 5 / 2
  frequency := 352
  phase := -30
  amplitude := none
  gapStart := 2
  perveance := 1 / 1000000
  longitudinalPerveance := 0
  sliceLength := 2
  settings := .standard
  formula := .logRatio

noncomputable def tiedLine : BeamLine ℝ where
  probe := ⟨2500000, 93827208816 / 100, 1⟩
  elements := [.drift 2,
    .gap (.sampled tiedField.profile) ⟨352000000, 150000, Scalar.radians (-30)⟩]

/-- The line is a drift and the gap behind it, whose lengths are accepted. -/
theorem line_tied {ps : List ℝ} (h : ps.getLast? = some (1 / 2)) :
    tiedControls.line tiedField ps = .ok tiedLine := by
  have hprobe : Probe.ofSpecies tiedControls.species (tiedControls.energy * 1000000) =
      .ok tiedLine.probe := by
    simp [Probe.ofSpecies, Probe.mk?, tiedControls, tiedLine, Species.restEnergy, Species.charge]
    norm_num
  have hdrive : Drive.mk? (tiedControls.frequency * 1000000)
      (tiedControls.amplitude.getD tiedField.peak) (Scalar.radians tiedControls.phase) =
      .ok ⟨352000000, 150000, Scalar.radians (-30)⟩ := by
    simp [Drive.mk?, tiedControls, tiedField]
    norm_num
  have hmega : @OfNat.ofNat ℝ 1000000 (@Scalar.instOfNat ℝ _ 1000000) = 1000000 := by
    change ((1000000 : ℕ) : ℝ) = 1000000
    norm_num
  have hlength := tiedField.profile.length_pos
  have helements : tiedControls.elements tiedField.profile
      ⟨352000000, 150000, Scalar.radians (-30)⟩ ps = tiedLine.elements := by
    -- The last reading is in front of the gap, so no drift follows the gap.
    have hlast : ¬ 2 + tiedField.profile.length < 1 / 2 := by linarith
    unfold Controls.elements
    dsimp only
    rw [h, Option.getD_some, tiedControls, if_neg hlast]
    simp [tiedLine]
  have hbare : BeamLine.mk? tiedLine.probe (tiedControls.elements tiedField.profile
      ⟨352000000, 150000, Scalar.radians (-30)⟩ ps) = .ok tiedLine := by
    rw [helements]
    refine BeamLine.mk?_of_isPositive _ (List.cons_ne_nil _ _) ?_
    simp [tiedLine, Element.length, FieldModel.length, hlength]
  unfold Controls.line
  dsimp only
  rw [hmega]
  exact bind_eq_ok.mpr ⟨_, hprobe, bind_eq_ok.mpr ⟨_, hdrive, bind_eq_ok.mpr ⟨_, hbare, rfl⟩⟩⟩

theorem tiedLine_built : tiedLine.Built := Controls.line_built (line_tied List.getLast?_singleton)

/-- The readings are in front of the only kick, so space charge does not change their maps. -/
theorem walk_tiedLine {s : Option (SpaceCharge ℝ)} {charged : Option (ChargedBeam ℝ)}
    (hline : BeamLine.Built { tiedLine with spaceCharge := s })
    (hcharged : PhysicallyCharged charged) (hslices : ∀ c ∈ charged, c.model.sliceLength = 2) :
    BeamLine.walk { tiedLine with spaceCharge := s } charged [0, 1 / 4, 1 / 2, 1 / 2] =
      .ok ([0, 1 / 4, 1 / 2, 1 / 2].map fun z => PhaseMap.drift z tiedLine.probe.gamma) := by
  have hnear : ∀ z ∈ ([0, 1 / 4, 1 / 2, 1 / 2] : List ℝ), z ≤ 1 / 2 := by norm_num
  obtain ⟨M, -, hthrough⟩ : ∃ M, M.KeepsOrientation ∧
      BeamLine.wayThrough { tiedLine with spaceCharge := s } charged =
        (BeamLine.probeBehind .logRatio tiedLine.elements tiedLine.probe).map (M, ·) :=
    BeamLine.through_eq hcharged PhaseMap.KeepsOrientation.identity
  -- The centre of the only slice lies at one metre, behind all readings.
  refine BeamLine.walk_front hline rfl hthrough ?_ (fun z hz => Or.inr ?_) fun c hc z hz => ?_
  · have hlength := tiedField.profile.length_pos
    have hslack : (0 : ℝ) ≤ BeamLine.positionSlack := by norm_num [BeamLine.positionSlack]
    have htotal : (tiedLine.elements.map Element.length).sum = 2 + tiedField.profile.length := by
      simp [tiedLine, Element.length, FieldModel.length]
    rw [BeamLine.checkPositions_eq_ok le_rfl, BeamLine.length_eq_sum, htotal]
    exact ⟨by norm_num, fun z hz => by linarith [hnear z hz]⟩
  · exact (hnear z hz).trans (by norm_num)
  · have hnone : ⌊z / 2 + 1 / 2⌋₊ = 0 := Nat.floor_eq_zero.mpr (by linarith [hnear z hz])
    have hlength : (Slicing.of 2 c.model.sliceLength : Slicing ℝ).length = 2 := by
      rw [hslices c hc]
      simp [Slicing.of, Index.saturate, Index.limit]
    rw [Slicing.kicksUpTo_eq, hlength, hnone, Nat.zero_min]

/-- The beam that explains the readings without space charge can be printed. -/
theorem zeroCurrent_tiedReadings (first second : String) {u v : ℝ} (hu : 0 < u) (hv : 0 < v)
    (h : u * u + v * v = 26) :
    ∃ seed : Covariance ℝ, seed.Sound ∧
      Observation.zeroCurrent ([0, 1 / 4, 1 / 2, 1 / 2].map fun z =>
        PhaseMap.drift z tiedLine.probe.gamma) (tiedReadings first second u v) = .ok seed := by
  -- The particle is slow enough for the plane along the line to be seen.
  obtain ⟨hslow, hfast⟩ : 1 ≤ tiedLine.probe.gamma ∧ tiedLine.probe.gamma ≤ 2 := by
    rw [Probe.gamma, Relativity.gamma, Scalar.real_one]
    norm_num [tiedLine]
  choose k hk hmoments using planeMoments_tiedReadings hslow hfast first second h
  refine ⟨.ofMoments (Triple.ofFn fun p => ⟨1, 0, k p⟩), ?_, ?_⟩
  · have hblock (p : Plane) :
        (Covariance.ofMoments (Triple.ofFn fun p => ⟨1, 0, k p⟩)).block p = ⟨1, 0, 0, k p⟩ := by
      cases p <;> rfl
    refine ⟨fun p => by rw [hblock], fun p => ?_⟩
    rw [hblock, Block.positiveDefinite_iff rfl]
    simpa [Block.det] using hk p
  · refine Observation.zeroCurrent_eq_ok.mpr
      ⟨?_, Observation.observe_eq_ok.mpr ⟨rfl, _, fun p => ?_, rfl⟩⟩
    · simp [Reading.setFault?, Reading.fewest, tiedReadings, Reading.fault?, Triple.toList, hu, hv]
    · rw [Triple.get_ofFn]
      exact hmoments p

/-- The reconstruction comes to its end, whatever the sizes at the last place are. -/
theorem reconstruct_tiedReadings (first second : String) {u v : ℝ} (hu : 0 < u) (hv : 0 < v)
    (h : u * u + v * v = 26) :
    (reconstruct tiedControls tiedField (tiedReadings first second u v)).EndsAt
        ["M1", "M2", first, second] ∧
      (reconstruct tiedControls tiedField (tiedReadings first second u v)).TellsSolved 1 := by
  obtain ⟨seed, hsound, hseed⟩ := zeroCurrent_tiedReadings first second hu hv h
  have hmodel : SpaceCharge.mk? (1 / 1000000) 0 2 = .ok (⟨1 / 1000000, 0, 2⟩ : SpaceCharge ℝ) := by
    simp [SpaceCharge.mk?]
  have hsettings : (Settings.standard : Settings ℝ).check = .ok () :=
    Settings.check_real.mpr (by norm_num [Settings.standard])
  have hcharge : tiedControls.hasSpaceCharge = true := by
    simp [Controls.hasSpaceCharge, tiedControls]
  refine reconstruct_endsAt (line_tied rfl)
    (walk_tiedLine tiedLine_built physicallyCharged_none (by simp)) hseed hsound hcharge hmodel
    hsettings ?_
  -- With space charge the walk is made for the seed, which is physical.
  refine walk_tiedLine (tiedLine_built.withSpaceCharge hmodel) ?_ ?_
  · rintro c ⟨⟩
    exact hsound.physical
  · rintro c ⟨⟩
    rfl

/-- The rows and the rows turned round are both reconstructed to the end, and only the comparisons at
the last place change their order. -/
theorem reconstruct_tiedRows : tiedRows.Perm tiedRows.reverse ∧ ∃ r r' : Record ℝ,
    (readingsOf tiedRows).map (reconstruct tiedControls tiedField) = .ok r ∧
      (readingsOf tiedRows.reverse).map (reconstruct tiedControls tiedField) = .ok r' ∧
      r.SameReport r' ∧ r.EndsAt ["M1", "M2", "M3", "M4"] ∧ r'.EndsAt ["M1", "M2", "M4", "M3"] ∧
      r.TellsSolved 1 ∧ r'.TellsSolved 1 := by
  have hperm : tiedRows.Perm tiedRows.reverse := tiedRows.reverse_perm.symm
  have hsame := reconstruct_rows_perm tiedControls tiedField hperm
  obtain ⟨hread, hreversed⟩ := readingsOf_tiedRows
  obtain ⟨hends, htells⟩ := reconstruct_tiedReadings "M3" "M4" (u := 5) (v := 1) (by norm_num)
    one_pos (by norm_num)
  obtain ⟨hends', htells'⟩ := reconstruct_tiedReadings "M4" "M3" (u := 1) (v := 5) one_pos
    (by norm_num) (by norm_num)
  rw [hread, hreversed] at hsame ⊢
  cases hsame with
  | ok hreport => exact ⟨hperm, _, _, rfl, rfl, hreport, hends, hends', htells, htells'⟩

end Command

end BeamOptics
