import BeamOptics.Proofs.Segments
import BeamOptics.Proofs.Documents

/-! The maps of a walk beside the positions they were requested for. In front of the last element a walk
stops at the positions up to the end of the element it passes and leaves the others, and in the last
element it stops at all of them; so it stops once at each, whatever lengths the elements have. Without
an element there is no place to stop at. -/

namespace BeamOptics.BeamLine

variable {K : Type} [Scalar K]

/-! ### Tours -/

section Tours

variable {line : BeamLine K} {charged : Option (ChargedBeam K)} {formula : LongitudinalFormula}
  {e : Element K} {es : List (Element K)} {probe exit : Probe K} {start here finish p : K}
  {acc M : PhaseMap K} {ps : List K} {Ms : List (PhaseMap K)}
  {segment : K → K → PhaseMap K → Except (Fault K) (PhaseMap K)}

/-- A way through elements that stops at positions, each stop with its map. It stands in the first of
the elements, which begins at `start`, at the place `here` of it, with the map `acc`. -/
inductive Tour (charged : Option (ChargedBeam K)) (formula : LongitudinalFormula) :
    List (Element K) → Probe K → (start here : K) → PhaseMap K → List K → List (PhaseMap K) → Prop
  | done {probe : Probe K} {start here : K} {acc : PhaseMap K} :
      Tour charged formula [] probe start here acc [] []
  | stop {e : Element K} {es : List (Element K)} {probe exit : Probe K} {start here p : K}
      {acc M : PhaseMap K} {ps : List K} {Ms : List (PhaseMap K)}
      {segment : K → K → PhaseMap K → Except (Fault K) (PhaseMap K)}
      (hrule : e.rule charged formula probe = .ok (segment, exit))
      (hin : es = [] ∨ p ≤ start + e.length) (hmap : segment here (p - start) acc = .ok M)
      (next : Tour charged formula (e :: es) probe start (p - start) M ps Ms) :
      Tour charged formula (e :: es) probe start here acc (p :: ps) (M :: Ms)
  | pass {e : Element K} {es : List (Element K)} {probe exit : Probe K} {start here : K}
      {acc M : PhaseMap K} {ps : List K} {Ms : List (PhaseMap K)}
      {segment : K → K → PhaseMap K → Except (Fault K) (PhaseMap K)}
      (hrule : e.rule charged formula probe = .ok (segment, exit))
      (hout : ∀ p ∈ ps.head?, ¬ (es = [] ∨ p ≤ start + e.length))
      (hmap : segment here e.length acc = .ok M)
      (next : Tour charged formula es exit (start + e.length) 0 M ps Ms) :
      Tour charged formula (e :: es) probe start here acc ps Ms

/-- A tour has a map for each position. -/
theorem Tour.length_eq (h : Tour charged formula es probe start here acc ps Ms) :
    Ms.length = ps.length := by
  induction h with
  | done => rfl
  | stop _ _ _ _ ih => exact congrArg Nat.succ ih
  | pass _ _ _ _ ih => exact ih

theorem Tour.rule_eq_ok (h : Tour charged formula (e :: es) probe start here acc ps Ms) :
    ∃ r, e.rule charged formula probe = .ok r := by
  cases h with
  | stop hrule => exact ⟨_, hrule⟩
  | pass hrule => exact ⟨_, hrule⟩

theorem Tour.eq_nil (h : Tour charged formula [] probe start here acc ps Ms) : Ms = [] := by
  cases h
  rfl

/-- A tour whose next position lies in the present element stops there. -/
theorem tour_stop_iff (hrule : e.rule charged formula probe = .ok (segment, exit))
    (hin : es = [] ∨ p ≤ start + e.length) :
    Tour charged formula (e :: es) probe start here acc (p :: ps) Ms ↔
      ∃ M rest, segment here (p - start) acc = .ok M ∧
        Tour charged formula (e :: es) probe start (p - start) M ps rest ∧ Ms = M :: rest := by
  constructor
  · intro h
    cases h with
    | stop hrule' _ hmap next =>
      cases hrule.symm.trans hrule'
      exact ⟨_, _, hmap, next, rfl⟩
    | pass _ hout => exact absurd hin (hout p rfl)
  · rintro ⟨M, rest, hmap, next, rfl⟩
    exact .stop hrule hin hmap next

/-- A tour whose next position lies behind the present element passes it. -/
theorem tour_pass_iff (hrule : e.rule charged formula probe = .ok (segment, exit))
    (hout : ∀ p ∈ ps.head?, ¬ (es = [] ∨ p ≤ start + e.length)) :
    Tour charged formula (e :: es) probe start here acc ps Ms ↔
      ∃ M, segment here e.length acc = .ok M ∧
        Tour charged formula es exit (start + e.length) 0 M ps Ms := by
  constructor
  · intro h
    cases h with
    | stop _ hin => exact absurd hin (hout _ rfl)
    | pass hrule' _ hmap next =>
      cases hrule.symm.trans hrule'
      exact ⟨_, hmap, next⟩
  · rintro ⟨M, hmap, next⟩
    exact .pass hrule hout hmap next

omit [Scalar K] in
theorem throughStops_nil_iff {P : PhaseMap K → List (PhaseMap K) → Prop} :
    (∃ stops last rest, throughStops segment finish [] here acc = .ok (stops, last) ∧
      P last rest ∧ Ms = stops ++ rest) ↔ ∃ M, segment here finish acc = .ok M ∧ P M Ms := by
  constructor
  · rintro ⟨stops, last, rest, hstops, hrest, rfl⟩
    obtain ⟨M, hmap, he⟩ := map_eq_ok.mp hstops
    cases he
    exact ⟨last, hmap, hrest⟩
  · rintro ⟨M, hmap, hrest⟩
    exact ⟨[], M, Ms, map_eq_ok.mpr ⟨M, hmap, rfl⟩, hrest, rfl⟩

/-- The tour of one element: its stops are the positions due, and the tour goes on to those left. -/
theorem tour_cons_iff (hrule : e.rule charged formula probe = .ok (segment, exit)) :
    Tour charged formula (e :: es) probe start here acc ps Ms ↔
      ∃ stops last rest, throughStops segment e.length
          ((due es.isEmpty (start + e.length) ps).map (· - start)) here acc = .ok (stops, last) ∧
        Tour charged formula es exit (start + e.length) 0 last
          (left es.isEmpty (start + e.length) ps) rest ∧
        Ms = stops ++ rest := by
  -- The induction is on the positions, of which those in the element come first.
  induction ps generalizing here acc Ms with
  | nil =>
    have hout : ∀ p ∈ ([] : List K).head?, ¬ (es = [] ∨ p ≤ start + e.length) := nofun
    have hnone : ∀ p ∈ ([] : List K).head?, ¬ (es.isEmpty = true ∨ p ≤ start + e.length) := nofun
    obtain ⟨hdue, hleft⟩ := due_nil hnone
    rw [tour_pass_iff hrule hout, hdue, hleft]
    exact throughStops_nil_iff.symm
  | cons p ps ih =>
    by_cases hin : es = [] ∨ p ≤ start + e.length
    · obtain ⟨hdue, hleft⟩ := due_cons (hin.imp_left List.isEmpty_iff.mpr) ps
      rw [tour_stop_iff hrule hin, hdue, hleft, List.map_cons, throughStops]
      constructor
      · rintro ⟨M, more, hmap, hmore, rfl⟩
        obtain ⟨stops, last, rest, hstops, next, rfl⟩ := ih.mp hmore
        refine ⟨M :: stops, last, rest, ?_, next, rfl⟩
        exact bind_eq_ok.mpr ⟨M, hmap, bind_eq_ok.mpr ⟨(stops, last), hstops, rfl⟩⟩
      · rintro ⟨stops, last, rest, hstops, next, rfl⟩
        obtain ⟨M, hmap, hstops⟩ := bind_eq_ok.mp hstops
        obtain ⟨⟨more, finish⟩, hmore, he⟩ := bind_eq_ok.mp hstops
        cases pure_eq_ok.mp he
        exact ⟨M, more ++ rest, hmap, ih.mpr ⟨more, last, rest, hmore, next, rfl⟩, rfl⟩
    · have hout : ∀ q ∈ (p :: ps).head?, ¬ (es = [] ∨ q ≤ start + e.length) := by
        rintro q ⟨⟩
        exact hin
      have hnone : ∀ q ∈ (p :: ps).head?, ¬ (es.isEmpty = true ∨ q ≤ start + e.length) := by
        intro q hq h
        exact hout q hq (h.imp_left List.isEmpty_iff.mp)
      obtain ⟨hdue, hleft⟩ := due_nil hnone
      rw [tour_pass_iff hrule hout, hdue, hleft]
      exact throughStops_nil_iff.symm

/-- What comes behind an element in a tour comes behind its stops. -/
theorem tour_of_advance {c d : Cursor K}
    (h : line.advance charged es.isEmpty e c = .ok d) :
    ∃ stops, d.passed = c.passed ++ stops ∧
      ∀ rest, Tour charged line.formula es d.probe d.start 0 d.map d.ahead rest →
        Tour charged line.formula (e :: es) c.probe c.start 0 c.map c.ahead (stops ++ rest) := by
  rw [advance_eq] at h
  obtain ⟨⟨segment, exit⟩, hrule, h⟩ := bind_eq_ok.mp h
  obtain ⟨⟨stops, last⟩, hstops, rfl⟩ := map_eq_ok.mp h
  refine ⟨stops, rfl, ?_⟩
  intro rest hrest
  exact (tour_cons_iff hrule).mpr ⟨stops, last, rest, hstops, hrest, rfl⟩

/-- A tour tells how the walk passes the first element. -/
theorem advance_of_tour {c : Cursor K}
    (h : Tour charged line.formula (e :: es) c.probe c.start 0 c.map c.ahead Ms) :
    ∃ d stops rest, line.advance charged es.isEmpty e c = .ok d ∧ d.passed = c.passed ++ stops ∧
      Tour charged line.formula es d.probe d.start 0 d.map d.ahead rest ∧ Ms = stops ++ rest := by
  obtain ⟨⟨segment, exit⟩, hrule⟩ := h.rule_eq_ok
  obtain ⟨stops, last, rest, hstops, hrest, rfl⟩ := (tour_cons_iff hrule).mp h
  refine ⟨⟨last, exit, c.start + e.length, left es.isEmpty (c.start + e.length) c.ahead,
    c.passed ++ stops⟩, stops, rest, ?_, rfl, hrest, rfl⟩
  rw [advance_eq]
  exact bind_eq_ok.mpr ⟨(segment, exit), hrule, map_eq_ok.mpr ⟨(stops, last), hstops, rfl⟩⟩

/-- A passage of elements is a tour of them, unless it has positions left and no element to stop in. -/
theorem tour_of_passAll {c d : Cursor K} (hplace : es = [] → c.ahead = [])
    (h : line.passAll charged es c = .ok d) :
    ∃ Ms, d.passed = c.passed ++ Ms ∧
      Tour charged line.formula es c.probe c.start 0 c.map c.ahead Ms := by
  induction es generalizing c with
  | nil =>
    cases h
    rw [hplace rfl]
    exact ⟨[], (List.append_nil _).symm, .done⟩
  | cons e es ih =>
    obtain ⟨b, hb, hd⟩ := bind_eq_ok.mp h
    -- The last element leaves nothing behind it.
    have hlast : es = [] → b.ahead = [] := by
      rintro rfl
      rw [advance_eq] at hb
      obtain ⟨r, -, hb⟩ := bind_eq_ok.mp hb
      obtain ⟨t, -, rfl⟩ := map_eq_ok.mp hb
      rfl
    obtain ⟨stops, hpassed, hstops⟩ := tour_of_advance hb
    obtain ⟨rest, hrest, htour⟩ := ih hlast hd
    refine ⟨stops ++ rest, ?_, hstops rest htour⟩
    rw [hrest, hpassed, List.append_assoc]

/-- A walk along a tour finds the maps of its stops. -/
theorem passAll_of_tour {c : Cursor K}
    (h : Tour charged line.formula es c.probe c.start 0 c.map c.ahead Ms) :
    ∃ d, line.passAll charged es c = .ok d ∧ d.passed = c.passed ++ Ms := by
  induction es generalizing c Ms with
  | nil =>
    rw [h.eq_nil]
    exact ⟨c, rfl, (List.append_nil _).symm⟩
  | cons e es ih =>
    obtain ⟨b, stops, rest, hb, hpassed, hrest, rfl⟩ := advance_of_tour h
    obtain ⟨d, hd, hbehind⟩ := ih hrest
    refine ⟨d, bind_eq_ok.mpr ⟨b, hb, hd⟩, ?_⟩
    rw [hbehind, hpassed, List.append_assoc]

end Tours

/-! ### Walks -/

section Walks

variable {line : BeamLine K} {charged : Option (ChargedBeam K)} {ps : List K}
  {Ms : List (PhaseMap K)}

/-- As many maps as positions, and a tour of the line whose stops at the positions have these maps. -/
structure OnePerPosition (line : BeamLine K) (charged : Option (ChargedBeam K)) (ps : List K)
    (Ms : List (PhaseMap K)) : Prop where
  count : Ms.length = ps.length
  inStep : Tour charged line.formula line.elements line.probe 0 0 PhaseMap.identity ps Ms

/-- A walk that has somewhere to stop gives one map for each position. -/
theorem walk_onePerPosition (hplace : line.elements ≠ [] ∨ ps = [])
    (h : line.walk charged ps = .ok Ms) : line.OnePerPosition charged ps Ms := by
  obtain ⟨-, -, h⟩ := bind_eq_ok.mp h
  obtain ⟨d, hd, he⟩ := bind_eq_ok.mp h
  obtain ⟨found, hpassed, htour⟩ := tour_of_passAll (fun hnil => hplace.resolve_left (· hnil)) hd
  obtain rfl : found = Ms := hpassed.symm.trans (pure_eq_ok.mp he)
  exact ⟨htour.length_eq, htour⟩

/-- A tour of accepted positions is a walk. -/
theorem walk_of_tour (hps : checkPositions line.length 0 ps = .ok ())
    (h : Tour charged line.formula line.elements line.probe 0 0 PhaseMap.identity ps Ms) :
    line.walk charged ps = .ok Ms := by
  obtain ⟨d, hd, hpassed⟩ := passAll_of_tour (c := line.entrance ps) h
  refine bind_eq_ok.mpr ⟨(), hps, bind_eq_ok.mpr ⟨d, hd, ?_⟩⟩
  exact congrArg Except.ok hpassed

/-- A walk along no element returns no map. -/
theorem walk_of_nil (hnil : line.elements = []) (h : line.walk charged ps = .ok Ms) : Ms = [] := by
  obtain ⟨-, -, h⟩ := bind_eq_ok.mp h
  obtain ⟨d, hd, he⟩ := bind_eq_ok.mp h
  rw [hnil] at hd
  cases hd
  exact (pure_eq_ok.mp he).symm

/-- A walk gives one map for each position exactly if there is an element to stop in, or nothing to
stop for. -/
theorem walk_onePerPosition_iff (h : line.walk charged ps = .ok Ms) :
    line.OnePerPosition charged ps Ms ↔ line.elements ≠ [] ∨ ps = [] := by
  constructor
  · intro hone
    by_contra! hplace
    have hcount := hone.count
    rw [walk_of_nil hplace.1 h] at hcount
    exact hplace.2 (List.eq_nil_of_length_eq_zero hcount.symm)
  · intro hplace
    exact walk_onePerPosition hplace h

/-- Returned maps are one for each position, in step with a tour of the line, if and only if the line
has an element or no position was requested; the lengths of the elements do not matter. -/
theorem maps_onePerPosition_iff (line : BeamLine K) (beam : Covariance K) (ps : List K) :
    (∀ Ms, line.mapsAt beam ps = .ok Ms →
      (line.OnePerPosition (line.charge beam) ps Ms ↔ line.elements ≠ [] ∨ ps = [])) ∧
    ∀ Ms, line.zeroCurrentMaps ps = .ok Ms →
      (line.OnePerPosition none ps Ms ↔ line.elements ≠ [] ∨ ps = []) := by
  constructor
  · intro Ms h
    exact walk_onePerPosition_iff h
  · intro Ms h
    exact walk_onePerPosition_iff h

end Walks

/-- A metre forth and half a metre back, which a document can hold and no constructor gives. -/
noncomputable def backtracking : BeamLine ℝ where
  probe := ⟨1, 1, 1⟩
  elements := [.drift 1, .drift (-1 / 2)]

/-- The walk stops in both elements, although the second one leads back. -/
theorem walk_backtracking : backtracking.walk none [1 / 4, 1 / 2] =
    .ok [PhaseMap.drift (1 / 4) backtracking.probe.gamma,
      PhaseMap.drift (1 / 2) backtracking.probe.gamma] := by
  obtain ⟨γ, hγ⟩ : ∃ γ, γ = backtracking.probe.gamma := ⟨_, rfl⟩
  have hrule (length : ℝ) : (Element.drift length).rule none .logRatio backtracking.probe =
      .ok (driftSegment none length γ, backtracking.probe) := by
    rw [hγ]
    rfl
  have hps : checkPositions backtracking.length 0 [1 / 4, 1 / 2] = .ok () := by
    rw [checkPositions_eq_ok le_rfl, length_eq_sum]
    norm_num [backtracking, Element.length, positionSlack]
  have hfirst : driftSegment none 1 γ 0 (1 / 4 - 0) PhaseMap.identity =
      .ok (PhaseMap.drift (1 / 4) γ) := by
    rw [sub_zero]
    exact driftSegment_front γ (by norm_num) nofun
  have hsecond : driftSegment none 1 γ (1 / 4 - 0) (1 / 2 - 0) (PhaseMap.drift (1 / 4) γ) =
      .ok (PhaseMap.drift (1 / 2) γ) := by
    rw [sub_zero, sub_zero, driftSegment_uncharged 1 γ (by norm_num), PhaseMap.drift_mul,
      sub_add_cancel]
  have hforth : driftSegment none 1 γ (1 / 2 - 0) 1 (PhaseMap.drift (1 / 2) γ) =
      .ok (PhaseMap.drift 1 γ) := by
    rw [sub_zero, driftSegment_uncharged 1 γ (by norm_num), PhaseMap.drift_mul, sub_add_cancel]
  have hback : driftSegment none (-1 / 2) γ 0 (-1 / 2) (PhaseMap.drift 1 γ) =
      .ok (PhaseMap.drift 1 γ) := driftSegment_self none (-1 / 2) γ (by norm_num) _
  have hin (p : ℝ) (hp : p ≤ 1) :
      [Element.drift (-1 / 2 : ℝ)] = [] ∨ p ≤ 0 + (Element.drift (1 : ℝ)).length := by
    rw [zero_add]
    exact Or.inr hp
  -- Both stops are in the first drift; the one behind it goes back and leaves the map as it is.
  have htour : Tour none .logRatio backtracking.elements backtracking.probe 0 0 PhaseMap.identity
      [1 / 4, 1 / 2] [PhaseMap.drift (1 / 4) γ, PhaseMap.drift (1 / 2) γ] := by
    apply Tour.stop (hrule 1) (hin _ (by norm_num)) hfirst
    apply Tour.stop (hrule 1) (hin _ (by norm_num)) hsecond
    refine .pass (hrule 1) nofun hforth ?_
    rw [Scalar.real_zero]
    exact .pass (hrule (-1 / 2)) nofun hback .done
  rw [← hγ]
  apply walk_of_tour
  · rw [Scalar.real_zero]
    exact hps
  · rw [Scalar.real_zero]
    exact htour

theorem maps_onePerPosition_backtracking :
    ofJson? backtracking.toJson = some backtracking ∧
      ∃ Ms, backtracking.mapsAt .zero [1 / 4, 1 / 2] = .ok Ms ∧
        backtracking.zeroCurrentMaps [1 / 4, 1 / 2] = .ok Ms ∧
        backtracking.OnePerPosition (backtracking.charge .zero) [1 / 4, 1 / 2] Ms ∧
        backtracking.OnePerPosition none [1 / 4, 1 / 2] Ms := by
  have hread : ofJson? backtracking.toJson = some backtracking := by
    apply ofJson?_toJson
    refine ⟨⟨rfl, rfl, rfl⟩, ?_, nofun⟩
    intro e he
    have hdrifts : e = .drift 1 ∨ e = .drift (-1 / 2) := by simpa [backtracking] using he
    rcases hdrifts with rfl | rfl
    · rfl
    · rfl
  have hplace : backtracking.elements ≠ [] ∨ [(1 / 4 : ℝ), 1 / 2] = [] :=
    Or.inl (List.cons_ne_nil _ _)
  obtain ⟨hmaps, hzeroCurrent⟩ := maps_onePerPosition_iff backtracking .zero [1 / 4, 1 / 2]
  exact ⟨hread, _, walk_backtracking, walk_backtracking,
    (hmaps _ walk_backtracking).mpr hplace, (hzeroCurrent _ walk_backtracking).mpr hplace⟩

noncomputable def emptyLine : BeamLine ℝ where
  probe := ⟨1000000, 938272088, 1⟩
  elements := []

/-- A line without elements is read from its document, though the constructor refuses it, and returns
no map for the position at its entrance. -/
theorem emptyLine_not_onePerPosition :
    ofJson? emptyLine.toJson = some emptyLine ∧
      mk? emptyLine.probe emptyLine.elements = .error (.setup .emptyLine) ∧
      emptyLine.mapsAt .zero [0] = .ok [] ∧ emptyLine.zeroCurrentMaps [0] = .ok [] ∧
      ([] : List (PhaseMap ℝ)).length ≠ [(0 : ℝ)].length := by
  have hread : ofJson? emptyLine.toJson = some emptyLine :=
    ofJson?_toJson ⟨⟨rfl, rfl, rfl⟩, nofun, nofun⟩
  have hps : checkPositions emptyLine.length 0 [0] = .ok () := by
    rw [checkPositions_eq_ok le_rfl, length_eq_sum]
    norm_num [emptyLine, positionSlack]
  have hwalk : emptyLine.walk none [0] = .ok [] := by
    rw [walk, Scalar.real_zero, hps]
    rfl
  exact ⟨hread, rfl, hwalk, hwalk, Nat.zero_ne_one⟩

end BeamOptics.BeamLine
