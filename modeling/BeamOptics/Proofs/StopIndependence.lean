import BeamOptics.Proofs.Segments
import BeamOptics.Proofs.Walks

/-! A walk through a line gives the same map at a position whatever other positions are asked for,
and whether it fails does not depend on the positions at all. -/

namespace BeamOptics

/-- Every element of positive length splits at any place. -/
theorem Element.rule_splits {charged : Option (ChargedBeam ℝ)} {formula : LongitudinalFormula}
    {probe exit : Probe ℝ} {e : Element ℝ}
    {segment : ℝ → ℝ → PhaseMap ℝ → Except (Fault ℝ) (PhaseMap ℝ)} (hpos : 0 < e.length)
    (h : e.rule charged formula probe = .ok (segment, exit)) : Splits e.length segment := by
  cases e with
  | drift length =>
    cases h
    exact driftSegment_splits charged probe.gamma hpos
  | gap model drive =>
    cases hp : model.profileFor probe with
    | error f =>
      rw [rule, hp] at h
      cases h
    | ok profile =>
      rw [rule, hp] at h
      cases h
      exact Passage.transportBetween_splits _ _

/-! ### Stops inside one element -/

section Stops

variable {length : ℝ} {segment : ℝ → ℝ → PhaseMap ℝ → Except (Fault ℝ) (PhaseMap ℝ)}

/-- The map at a stop is that of the way to it without interruption, and so is the map at the end of
the element if no stop lies behind it. -/
theorem throughStops_ok (h : Splits length segment) {stops : List ℝ} {start : ℝ}
    {acc last : PhaseMap ℝ} {maps : List (PhaseMap ℝ)}
    (hs : (start :: stops).Pairwise (· ≤ ·))
    (hrun : throughStops segment length stops start acc = .ok (maps, last)) :
    List.Forall₂ (fun s M => segment start s acc = .ok M) stops maps ∧
      ((∀ s ∈ stops, s ≤ length) → start ≤ length → segment start length acc = .ok last) := by
  induction stops generalizing start acc maps with
  | nil =>
    rw [throughStops, map_eq_ok] at hrun
    obtain ⟨M, hM, he⟩ := hrun
    cases he
    exact ⟨.nil, fun _ _ => hM⟩
  | cons stop stops ih =>
    obtain ⟨hstart, hstops⟩ := List.pairwise_cons.mp hs
    have hle : start ≤ stop := hstart stop (List.mem_cons_self ..)
    have hbehind : ∀ s ∈ stops, stop ≤ s := (List.pairwise_cons.mp hstops).1
    rw [throughStops, bind_eq_ok] at hrun
    obtain ⟨M, hM, hrun⟩ := hrun
    rw [bind_eq_ok] at hrun
    obtain ⟨⟨maps', last'⟩, hrest, he⟩ := hrun
    cases pure_eq_ok.mp he
    obtain ⟨hmaps, hlast⟩ := ih hstops hrest
    -- The induction has the later stops from the first stop on; `Splits` has them from the start.
    have hvia {b : ℝ} (hb : stop ≤ b) : segment start b acc = segment stop b M := by
      rw [h.split hle hb, hM]
      rfl
    refine ⟨.cons hM ?_, ?_⟩
    · rw [List.forall₂_iff_get] at hmaps ⊢
      refine ⟨hmaps.1, fun i hi hi' => ?_⟩
      exact (hvia (hbehind _ (List.get_mem ..))).trans (hmaps.2 i hi hi')
    · intro hall _
      have hend : stop ≤ length := hall stop (List.mem_cons_self ..)
      rw [hvia hend]
      exact hlast (fun s hs' => hall s (List.mem_cons_of_mem _ hs')) hend

/-- Going on behind the end of an element adds no way to fail. -/
theorem Splits.error_past (h : Splits length segment) {start stop : ℝ} (hend : length ≤ stop)
    (acc : PhaseMap ℝ) (f : Fault ℝ) :
    segment start stop acc = .error f ↔ segment start length acc = .error f := by
  rcases le_total start length with hstart | hstart
  · rw [h.split hstart hend, bind_eq_error]
    refine ⟨fun hf => hf.resolve_right ?_, Or.inl⟩
    rintro ⟨M, -, hM⟩
    obtain ⟨N, hN⟩ := h.beyond stop le_rfl M
    simp [hN] at hM
  · obtain ⟨M, hM⟩ := h.beyond stop hstart acc
    obtain ⟨N, hN⟩ := h.beyond length hstart acc
    simp [hM, hN]

/-- Passing an element fails with the fault of passing it without a stop. -/
theorem throughStops_error_iff (h : Splits length segment) {stops : List ℝ} {start : ℝ}
    {acc : PhaseMap ℝ} (f : Fault ℝ) (hs : (start :: stops).Pairwise (· ≤ ·)) :
    throughStops segment length stops start acc = .error f ↔
      segment start length acc = .error f := by
  induction stops generalizing start acc with
  | nil => rw [throughStops, map_eq_error]
  | cons stop stops ih =>
    obtain ⟨hstart, hstops⟩ := List.pairwise_cons.mp hs
    have hle : start ≤ stop := hstart stop (List.mem_cons_self ..)
    have hfirst : throughStops segment length (stop :: stops) start acc = .error f ↔
        segment start stop acc >>= segment stop length = .error f := by
      simp only [throughStops, bind_eq_error, pure_ne_error, and_false, exists_false, or_false,
        ih hstops]
    rw [hfirst]
    -- A stop behind the end is an interruption of the free way there, which cannot fail.
    rcases le_total stop length with hend | hend
    · rw [h.split hle hend]
    · rw [← h.error_past hend, bind_eq_error]
      refine ⟨fun hf => hf.resolve_right ?_, Or.inl⟩
      rintro ⟨M, -, hM⟩
      obtain ⟨N, hN⟩ := h.beyond length hend M
      simp [hN] at hM

end Stops

/-! ### One element of a walk -/

namespace BeamLine

section Positions

variable {c : Cursor ℝ} {finish : ℝ} {ps : List ℝ}

theorem le_of_mem_due {p : ℝ} (hp : p ∈ due false finish ps) : p ≤ finish := by
  simpa using List.mem_takeWhile_imp hp

/-- The positions that are left lie behind the element. -/
theorem lt_of_mem_left (hs : ps.Pairwise (· ≤ ·)) {p : ℝ} (hp : p ∈ left false finish ps) :
    finish < p := by
  change p ∈ ps.dropWhile _ at hp
  induction ps with
  | nil => simp at hp
  | cons q qs ih =>
    obtain ⟨hq, hqs⟩ := List.pairwise_cons.mp hs
    by_cases hle : q ≤ finish
    · rw [List.dropWhile_cons_of_pos (by simpa using hle)] at hp
      exact ih hqs hp
    · rw [List.dropWhile_cons_of_neg (by simpa using hle)] at hp
      rcases List.mem_cons.mp hp with rfl | hp
      · exact not_le.mp hle
      · exact (not_le.mp hle).trans_le (hq p hp)

/-- Stops counted from the start of their element are in order and not in front of it. -/
theorem stops_sorted (isLast : Bool) (finish : ℝ) (hs : (c.start :: c.ahead).Pairwise (· ≤ ·)) :
    (0 :: (due isLast finish c.ahead).map (· - c.start)).Pairwise (· ≤ ·) := by
  have hsub : (c.start :: due isLast finish c.ahead).Sublist (c.start :: c.ahead) := by
    apply List.Sublist.cons_cons
    conv_rhs => rw [← due_append_left isLast finish c.ahead]
    exact List.sublist_append_left _ _
  have hmap := (hs.sublist hsub).map (· - c.start) (S := (· ≤ ·))
    fun a b hab => sub_le_sub_right hab c.start
  simpa using hmap

theorem due_ahead {qs : List ℝ} (h : ∀ q ∈ qs, finish < q) :
    due false finish qs = [] ∧ left false finish qs = qs := by
  apply due_nil
  rintro q hq (hlast | hle)
  · cases hlast
  · exact hle.not_gt (h q (List.mem_of_mem_head? hq))

theorem due_single {isLast : Bool} {p : ℝ} (hp : p ∈ due isLast finish ps) :
    due isLast finish [p] = [p] ∧ left isLast finish [p] = [] := by
  cases isLast with
  | true => exact ⟨rfl, rfl⟩
  | false => exact due_cons (Or.inr (le_of_mem_due hp)) []

end Positions

variable {line : BeamLine ℝ} {charged : Option (ChargedBeam ℝ)} {e : Element ℝ} {c d : Cursor ℝ}
  {isLast : Bool}

/-- One element passed, in terms of its rule and its stops. -/
theorem advance_eq_ok :
    line.advance charged isLast e c = .ok d ↔
      ∃ segment exit, e.rule charged line.formula c.probe = .ok (segment, exit) ∧
        ∃ maps last, throughStops segment e.length
            ((due isLast (c.start + e.length) c.ahead).map (· - c.start)) 0 c.map =
              .ok (maps, last) ∧
          ⟨last, exit, c.start + e.length, left isLast (c.start + e.length) c.ahead,
            c.passed ++ maps⟩ = d := by
  simp only [advance_eq, bind_eq_ok, map_eq_ok, Prod.exists, Scalar.real_zero]

theorem advance_eq_error {f : Fault ℝ} :
    line.advance charged isLast e c = .error f ↔
      e.rule charged line.formula c.probe = .error f ∨
        ∃ segment exit, e.rule charged line.formula c.probe = .ok (segment, exit) ∧
          throughStops segment e.length
            ((due isLast (c.start + e.length) c.ahead).map (· - c.start)) 0 c.map = .error f := by
  simp only [advance_eq, bind_eq_error, map_eq_error, Prod.exists, Scalar.real_zero]

/-- An element fails for its own sake, and not for the stops in it. -/
theorem advance_error_iff (hpos : 0 < e.length) (hs : (c.start :: c.ahead).Pairwise (· ≤ ·))
    (f : Fault ℝ) :
    line.advance charged isLast e c = .error f ↔
      line.advance charged isLast e (c.only []) = .error f := by
  have hnone : ((c.only []).start :: (c.only []).ahead).Pairwise (· ≤ ·) :=
    List.pairwise_singleton _ _
  rw [advance_eq_error, advance_eq_error]
  apply or_congr Iff.rfl
  apply exists_congr
  intro segment
  apply exists_congr
  intro exit
  apply and_congr_right
  intro hrule
  have hsplits := Element.rule_splits hpos hrule
  rw [throughStops_error_iff hsplits f (stops_sorted isLast _ hs),
    throughStops_error_iff hsplits f (stops_sorted isLast _ hnone)]
  rfl

/-- An element that is not the last hands positions behind its end on to the next, with the map
and the particle that any walk has there. -/
theorem advance_between (hpos : 0 < e.length) (hs : (c.start :: c.ahead).Pairwise (· ≤ ·))
    (h : line.advance charged false e c = .ok d) {qs : List ℝ} (hq : ∀ q ∈ qs, d.start < q) :
    line.advance charged false e (c.only qs) = .ok (d.only qs) := by
  obtain ⟨segment, exit, hrule, maps, last, hrun, rfl⟩ := advance_eq_ok.mp h
  obtain ⟨-, hlast⟩ := throughStops_ok (Element.rule_splits hpos hrule) (stops_sorted false _ hs)
    hrun
  have hend : segment 0 e.length c.map = .ok last := by
    refine hlast (fun s hmem => ?_) hpos.le
    obtain ⟨p, hp, rfl⟩ := List.mem_map.mp hmem
    linarith [le_of_mem_due hp]
  obtain ⟨hdue, hleft⟩ := due_ahead hq
  refine advance_eq_ok.mpr ⟨segment, exit, hrule, [], last, ?_, ?_⟩
  · change throughStops segment e.length ((due false (c.start + e.length) qs).map _) 0 c.map = _
    rw [hdue]
    exact map_eq_ok.mpr ⟨last, hend, rfl⟩
  · change (⟨last, exit, c.start + e.length, left false (c.start + e.length) qs, []⟩ :
      Cursor ℝ) = _
    rw [hleft]
    rfl

/-- A stop of an element is reached by a walk to it alone. The walk ends the element without
positions ahead and, unless the element is the last, as any other walk does. -/
theorem advance_at (hpos : 0 < e.length) (hs : (c.start :: c.ahead).Pairwise (· ≤ ·))
    (h : line.advance charged isLast e c = .ok d) :
    ∃ maps, d.passed = c.passed ++ maps ∧
      List.Forall₂ (fun p M => ∃ d', line.advance charged isLast e (c.only [p]) = .ok d' ∧
        d'.ahead = [] ∧ d'.passed = [M] ∧ (isLast = false → d'.only [] = d.only []))
        (due isLast (c.start + e.length) c.ahead) maps := by
  obtain ⟨segment, exit, hrule, maps, last, hrun, rfl⟩ := advance_eq_ok.mp h
  have hsplits := Element.rule_splits hpos hrule
  have hsorted := stops_sorted isLast (c.start + e.length) hs
  obtain ⟨hmaps, hlast⟩ := throughStops_ok hsplits hsorted hrun
  rw [List.forall₂_map_left_iff] at hmaps
  have hmem := (List.forall₂_and_left _ _).mpr ⟨fun p hp => hp, hmaps⟩
  refine ⟨maps, rfl, hmem.imp ?_⟩
  rintro p M ⟨hp, hM⟩
  obtain ⟨hdue, hleft⟩ := due_single hp
  have hstart : (0 : ℝ) ≤ p - c.start :=
    (List.pairwise_cons.mp hsorted).1 _ (List.mem_map_of_mem hp)
  have hone : ([0, p - c.start] : List ℝ).Pairwise (· ≤ ·) := by simpa using hstart
  -- The single stop cannot fail, because the stops of the given walk did not.
  cases hrun' : throughStops segment e.length [p - c.start] 0 c.map with
  | error f =>
    rw [throughStops_error_iff hsplits f hone, ← throughStops_error_iff hsplits f hsorted,
      hrun] at hrun'
    cases hrun'
  | ok r =>
    obtain ⟨maps', last'⟩ := r
    obtain ⟨hmaps', hlast'⟩ := throughStops_ok hsplits hone hrun'
    obtain ⟨M', _, hM', hnil, rfl⟩ := List.forall₂_cons_left_iff.mp hmaps'
    cases List.forall₂_nil_left_iff.mp hnil
    cases hM.symm.trans hM'
    refine ⟨⟨last', exit, c.start + e.length, [], [M]⟩, ?_, rfl, rfl, ?_⟩
    · refine advance_eq_ok.mpr ⟨segment, exit, hrule, [M], last', ?_, ?_⟩
      · change throughStops segment e.length
          ((due isLast (c.start + e.length) [p]).map (· - c.start)) 0 c.map = _
        rw [hdue]
        exact hrun'
      · change (⟨last', exit, c.start + e.length, left isLast (c.start + e.length) [p], [M]⟩ :
          Cursor ℝ) = _
        rw [hleft]
    · rintro rfl
      have hbound {q : ℝ} (hq : q ∈ due false (c.start + e.length) c.ahead) :
          q - c.start ≤ e.length := by
        linarith [le_of_mem_due hq]
      have hsame : Except.ok (ε := Fault ℝ) last' = .ok last := by
        rw [← hlast' (by simpa using hbound hp) hpos.le, ← hlast ?_ hpos.le]
        intro s hmem
        obtain ⟨q, hq, rfl⟩ := List.mem_map.mp hmem
        exact hbound hq
      cases hsame
      rfl

/-! ### Whole walks -/

theorem passAll_cons_ok {es : List (Element ℝ)} :
    line.passAll charged (e :: es) c = .ok d ↔
      ∃ d', line.advance charged es.isEmpty e c = .ok d' ∧ line.passAll charged es d' = .ok d := by
  rw [passAll, bind_eq_ok]

theorem passAll_cons_error {es : List (Element ℝ)} {f : Fault ℝ} :
    line.passAll charged (e :: es) c = .error f ↔
      line.advance charged es.isEmpty e c = .error f ∨
        ∃ d, line.advance charged es.isEmpty e c = .ok d ∧
          line.passAll charged es d = .error f := by
  rw [passAll, bind_eq_error]

/-- What is left stays in order behind the end of the element. -/
theorem left_sorted (isLast : Bool) (finish : ℝ) (hs : c.ahead.Pairwise (· ≤ ·)) :
    (finish :: left isLast finish c.ahead).Pairwise (· ≤ ·) := by
  rw [List.pairwise_cons]
  cases isLast with
  | true => simp [left]
  | false =>
    exact ⟨fun p hp => (lt_of_mem_left hs hp).le, hs.sublist (List.dropWhile_sublist _)⟩

/-- The elements behind a cursor fail or not whatever positions are ahead. -/
theorem passAll_error_iff {es : List (Element ℝ)} (hpos : ∀ e ∈ es, 0 < e.length)
    (hs : (c.start :: c.ahead).Pairwise (· ≤ ·)) (f : Fault ℝ) :
    line.passAll charged es c = .error f ↔ line.passAll charged es (c.only []) = .error f := by
  induction es generalizing c with
  | nil => simp [passAll]
  | cons e es ih =>
    obtain ⟨he, hes⟩ := List.forall_mem_cons.mp hpos
    have hahead : c.ahead.Pairwise (· ≤ ·) := (List.pairwise_cons.mp hs).2
    rw [passAll_cons_error, passAll_cons_error, advance_error_iff he hs]
    apply or_congr Iff.rfl
    -- Both walks come to the next element, or none does; there the induction goes on.
    have hnext {d : Cursor ℝ} (hd : line.advance charged es.isEmpty e c = .ok d) :
        (d.start :: d.ahead).Pairwise (· ≤ ·) := by
      obtain ⟨_, _, _, _, _, _, rfl⟩ := advance_eq_ok.mp hd
      exact left_sorted _ _ hahead
    cases es with
    | nil => simp [passAll]
    | cons e' es =>
      constructor
      · rintro ⟨d, hd, hf⟩
        refine ⟨d.only [], advance_between he hs hd (by simp), ?_⟩
        exact (ih hes (hnext hd)).mp hf
      · rintro ⟨d', hd', hf⟩
        cases hd : line.advance charged false e c with
        | error g =>
          rw [advance_error_iff he hs] at hd
          cases hd.symm.trans hd'
        | ok d =>
          cases (advance_between he hs hd (by simp)).symm.trans hd'
          exact ⟨d, hd, (ih hes (hnext hd)).mpr hf⟩

/-- A walk that succeeds leaves the maps of the walks to one position each. -/
theorem passAll_ok {es : List (Element ℝ)} (hpos : ∀ e ∈ es, 0 < e.length)
    (hs : (c.start :: c.ahead).Pairwise (· ≤ ·)) (hnil : es = [] → c.ahead = [])
    (h : line.passAll charged es c = .ok d) :
    ∃ maps, d.passed = c.passed ++ maps ∧
      List.Forall₂ (fun p M => ∃ d', line.passAll charged es (c.only [p]) = .ok d' ∧
        d'.passed = [M]) c.ahead maps := by
  induction es generalizing c d with
  | nil =>
    cases h
    exact ⟨[], by simp, by rw [hnil rfl]; exact .nil⟩
  | cons e es ih =>
    obtain ⟨he, hes⟩ := List.forall_mem_cons.mp hpos
    have hahead : c.ahead.Pairwise (· ≤ ·) := (List.pairwise_cons.mp hs).2
    obtain ⟨b, hb, hrest⟩ := passAll_cons_ok.mp h
    obtain ⟨first, hfirst, hdue⟩ := advance_at he hs hb
    obtain ⟨hstart, hleft⟩ : b.start = c.start + e.length ∧
        b.ahead = left es.isEmpty (c.start + e.length) c.ahead := by
      obtain ⟨_, _, _, _, _, _, rfl⟩ := advance_eq_ok.mp hb
      exact ⟨rfl, rfl⟩
    have hbs : (b.start :: b.ahead).Pairwise (· ≤ ·) := by
      rw [hstart, hleft]
      exact left_sorted _ _ hahead
    have hbnil : es = [] → b.ahead = [] := by
      rintro rfl
      exact hleft
    obtain ⟨second, hsecond, hbehind⟩ := ih hes hbs hbnil hrest
    refine ⟨first ++ second, by rw [hsecond, hfirst, List.append_assoc], ?_⟩
    have hsplit := due_append_left es.isEmpty (c.start + e.length) c.ahead
    rw [← hleft] at hsplit
    rw [← hsplit]
    apply List.rel_append
    · refine hdue.imp ?_
      rintro p M ⟨b', hb', hdone, hpassed, hsame⟩
      have hbs' : (b'.start :: b'.ahead).Pairwise (· ≤ ·) := by simp [hdone]
      -- Behind its stop this walk goes on like the given one, which does not fail.
      cases hd' : line.passAll charged es b' with
      | error f =>
        cases es with
        | nil => cases hd'
        | cons e' es =>
          rw [passAll_error_iff hes hbs', hsame rfl, ← passAll_error_iff hes hbs, hrest] at hd'
          cases hd'
      | ok d' =>
        obtain ⟨more, hmore, hnone⟩ := ih hes hbs' (fun _ => hdone) hd'
        rw [hdone] at hnone
        cases hnone
        exact ⟨d', passAll_cons_ok.mpr ⟨b', hb', hd'⟩, by rw [hmore, hpassed]; rfl⟩
    · -- A position behind the element is no stop of it, and the rest of the walk has its map.
      refine ((List.forall₂_and_left _ _).mpr ⟨fun p hp => hp, hbehind⟩).imp ?_
      rintro p M ⟨hp, d', hd', hM⟩
      cases es with
      | nil => simp [hbnil rfl] at hp
      | cons e' es =>
        have hlater : ∀ q ∈ [p], b.start < q := by
          simp only [List.mem_singleton, forall_eq, hstart]
          exact lt_of_mem_left hahead (hleft ▸ hp)
        exact ⟨d', passAll_cons_ok.mpr ⟨_, advance_between he hs hb hlater, hd'⟩, hM⟩

/-- A walk to accepted positions passes all elements. -/
theorem walk_eq {ps : List ℝ} (hps : checkPositions line.length 0 ps = .ok ()) :
    line.walk charged ps =
      (line.passAll charged line.elements (line.entrance ps)).map (·.passed) := by
  rw [walk, Scalar.real_zero, hps]
  change line.passAll charged line.elements (line.entrance ps) >>= _ = _
  cases line.passAll charged line.elements (line.entrance ps) with
  | error f => rfl
  | ok c => rfl

/-- What a line gives for positions does not depend on the positions asked for beside them: each map
of a list is the one map of its own position, and all accepted lists fail alike. -/
structure StopIndependent (line : BeamLine ℝ)
    (maps : List ℝ → Except (Fault ℝ) (List (PhaseMap ℝ))) : Prop where
  length : ∀ {ps Ms}, checkPositions line.length 0 ps = .ok () → maps ps = .ok Ms →
    Ms.length = ps.length
  alone : ∀ {ps Ms}, checkPositions line.length 0 ps = .ok () → maps ps = .ok Ms →
    ∀ (i : ℕ) (hp : i < ps.length) (hM : i < Ms.length), maps [ps[i]] = .ok [Ms[i]]
  fault : ∀ {ps qs}, checkPositions line.length 0 ps = .ok () →
    checkPositions line.length 0 qs = .ok () → ∀ f, maps ps = .error f ↔ maps qs = .error f

theorem entrance_sorted {ps : List ℝ} (hps : checkPositions line.length 0 ps = .ok ()) :
    ((line.entrance ps).start :: (line.entrance ps).ahead).Pairwise (· ≤ ·) := by
  have h := ((checkPositions_eq_ok le_rfl).mp hps).1
  rw [← Scalar.real_zero] at h
  exact h

/-- The walk of a line is independent of its stops, with any charge. -/
theorem walk_stopIndependent (hline : line.Built) (charged : Option (ChargedBeam ℝ)) :
    StopIndependent line (line.walk charged) := by
  -- A single position of an accepted list is accepted.
  have hone {ps : List ℝ} (hps : checkPositions line.length 0 ps = .ok ()) {p : ℝ}
      (hp : p ∈ ps) : checkPositions line.length 0 [p] = .ok () := by
    obtain ⟨hs, hin⟩ := (checkPositions_eq_ok le_rfl).mp hps
    refine (checkPositions_eq_ok le_rfl).mpr ⟨?_, by simpa using hin p hp⟩
    simpa using (List.pairwise_cons.mp hs).1 p hp
  -- Each map of the list is the one that its position has alone.
  have hmaps {ps : List ℝ} {Ms : List (PhaseMap ℝ)}
      (hps : checkPositions line.length 0 ps = .ok ()) (h : line.walk charged ps = .ok Ms) :
      List.Forall₂ (fun p M => line.walk charged [p] = .ok [M]) ps Ms := by
    rw [walk_eq hps, map_eq_ok] at h
    obtain ⟨d, hd, rfl⟩ := h
    obtain ⟨maps, hpassed, hall⟩ := passAll_ok hline.length_pos (entrance_sorted hps)
      (fun hnil => absurd hnil hline.ne_nil) hd
    rw [hpassed]
    refine ((List.forall₂_and_left _ _).mpr ⟨fun p hp => hp, hall⟩).imp ?_
    rintro p M ⟨hp, d', hd', hM⟩
    rw [walk_eq (hone hps hp), map_eq_ok]
    exact ⟨d', hd', hM⟩
  refine ⟨fun hps h => (hmaps hps h).length_eq.symm, ?_, ?_⟩
  · intro ps Ms hps h i hp hM
    exact (List.forall₂_iff_get.mp (hmaps hps h)).2 i hp hM
  · intro ps qs hps hqs f
    rw [walk_eq hps, walk_eq hqs, map_eq_error, map_eq_error,
      passAll_error_iff hline.length_pos (entrance_sorted hps),
      passAll_error_iff hline.length_pos (entrance_sorted hqs)]
    rfl

/-- The maps of a line, for a beam with its space charge and without, do not depend on the other
positions asked for. -/
theorem maps_stopIndependent {line : BeamLine ℝ} (hline : line.Built) (beam : Covariance ℝ) :
    StopIndependent line (line.mapsAt beam) ∧ StopIndependent line line.zeroCurrentMaps :=
  ⟨walk_stopIndependent hline (line.charge beam), walk_stopIndependent hline none⟩

noncomputable def mixedLine : BeamLine ℝ where
  probe := ⟨2500000, 938272088, 1⟩
  elements := [.drift 1, .gap (.transitFit ⟨1 / 10, [200000, -3]⟩) ⟨50000000, 1, -1⟩,
    .drift (1 / 2)]
  spaceCharge := some ⟨1 / 1000, 0, 1 / 4⟩
  formula := .quadratic

/-- Stops at the entrance, twice at a kick, where the gap begins, and behind the end. -/
theorem mixedLine_stopIndependent :
    mixedLine.Built ∧
      checkPositions mixedLine.length 0 [0, 3 / 8, 3 / 8, 1, 1.6000000005] = .ok () ∧
      StopIndependent mixedLine (mixedLine.mapsAt (.ofMoments ⟨⟨1, 0, 1⟩, ⟨2, 1, 1⟩, ⟨1, 0, 3⟩⟩)) ∧
      StopIndependent mixedLine mixedLine.zeroCurrentMaps := by
  have hbuilt : mixedLine.Built := by
    have hnew : mk? mixedLine.probe mixedLine.elements =
        .ok { probe := mixedLine.probe, elements := mixedLine.elements } := by
      simp [mixedLine, mk?, lengthFault?, Element.length, FieldModel.length]
    have hmodel : SpaceCharge.mk? (1 / 1000) 0 (1 / 4) =
        .ok (⟨1 / 1000, 0, 1 / 4⟩ : SpaceCharge ℝ) := by
      simp [SpaceCharge.mk?]
    exact .withSpaceCharge hmodel (.withFormula .quadratic (.new hnew))
  refine ⟨hbuilt, ?_, maps_stopIndependent hbuilt _⟩
  rw [checkPositions_eq_ok le_rfl, length_eq_sum]
  norm_num [mixedLine, positionSlack, Element.length, FieldModel.length]

end BeamLine

end BeamOptics
