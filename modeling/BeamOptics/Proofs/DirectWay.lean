import BeamOptics.Proofs.StopIndependence

/-! The way through a line without stops. A walk that succeeds has at each position the map of the
direct way there, and it fails as the way through all elements does. The way through elements that
follow others is the way through the others and then through them. -/

namespace BeamOptics

theorem Passage.transportBetween_self (p : Passage ℝ) (a : ℝ) :
    p.transportBetween a a = PhaseMap.identity := by
  have hnone (i : ℕ) : min i p.lastIndex - i = 0 := by omega
  rw [transportBetween, transportRange, compose_eq, hnone]
  exact PhaseMap.ofBlocks_identity

/-- No way in an element leaves the map as it is. -/
theorem Element.rule_self {charged : Option (ChargedBeam ℝ)} {formula : LongitudinalFormula}
    {probe exit : Probe ℝ} {e : Element ℝ}
    {segment : ℝ → ℝ → PhaseMap ℝ → Except (Fault ℝ) (PhaseMap ℝ)}
    (h : e.rule charged formula probe = .ok (segment, exit)) (a : ℝ) (acc : PhaseMap ℝ) :
    segment a a acc = .ok acc := by
  cases e with
  | drift length =>
    cases h
    exact driftSegment_self charged length probe.gamma le_rfl acc
  | gap model drive =>
    obtain ⟨profile, -, he⟩ := map_eq_ok.mp h
    cases he
    change Except.ok _ = Except.ok _
    rw [Passage.transportBetween_self, PhaseMap.identity, Mat.identity_mul]

namespace BeamLine

section Way

variable {K : Type} [Scalar K] (charged : Option (ChargedBeam K)) (formula : LongitudinalFormula)

def through : List (Element K) → Probe K → PhaseMap K → Except (Fault K) (PhaseMap K × Probe K)
  | [], probe, acc => .ok (acc, probe)
  | e :: es, probe, acc => do
    let (segment, exit) ← e.rule charged formula probe
    let acc ← segment 0 e.length acc
    through es exit acc

/-- The map `acc` extended to a place, counted from the start of the elements. The last element takes
every place that the others leave. -/
def reach : List (Element K) → Probe K → K → PhaseMap K → Except (Fault K) (PhaseMap K)
  | [], _, _, acc => .ok acc
  | e :: es, probe, z, acc => do
    let (segment, exit) ← e.rule charged formula probe
    if es = [] ∨ z ≤ e.length then segment 0 z acc
    else do
      let acc ← segment 0 e.length acc
      reach es exit (z - e.length) acc

theorem through_append (A B : List (Element K)) (probe : Probe K) (acc : PhaseMap K) :
    through charged formula (A ++ B) probe acc =
      through charged formula A probe acc >>= fun r => through charged formula B r.2 r.1 := by
  induction A generalizing probe acc with
  | nil => rfl
  | cons e A ih =>
    rw [List.cons_append, through, through, bind_assoc]
    apply bind_congr
    intro r
    rw [bind_assoc]
    exact bind_congr fun M => ih r.2 M

theorem probeBehind_append (A B : List (Element K)) (probe : Probe K) :
    probeBehind formula (A ++ B) probe =
      probeBehind formula A probe >>= probeBehind formula B := by
  induction A generalizing probe with
  | nil => rfl
  | cons e A ih =>
    cases e with
    | drift length => exact ih probe
    | gap model drive =>
      rw [List.cons_append, probeBehind, probeBehind, bind_assoc]
      exact bind_congr fun profile => ih _

variable {charged formula}

theorem probeBehind_cons {e : Element K} {es : List (Element K)} {probe exit : Probe K}
    {segment : K → K → PhaseMap K → Except (Fault K) (PhaseMap K)}
    (h : e.rule charged formula probe = .ok (segment, exit)) :
    probeBehind formula (e :: es) probe = probeBehind formula es exit := by
  cases e with
  | drift length =>
    cases h
    rfl
  | gap model drive =>
    obtain ⟨profile, hprofile, he⟩ := map_eq_ok.mp h
    cases he
    rw [probeBehind, hprofile]
    rfl

/-- The way through elements leads to the particle behind them. -/
theorem probeBehind_of_through {es : List (Element K)} {probe q : Probe K} {acc M : PhaseMap K}
    (h : through charged formula es probe acc = .ok (M, q)) :
    probeBehind formula es probe = .ok q := by
  induction es generalizing probe acc with
  | nil =>
    cases h
    rfl
  | cons e es ih =>
    obtain ⟨⟨segment, exit⟩, hrule, h⟩ := bind_eq_ok.mp h
    obtain ⟨N, -, h⟩ := bind_eq_ok.mp h
    rw [probeBehind_cons hrule]
    exact ih h

end Way

/-! ### Places along the way -/

section Places

variable {charged : Option (ChargedBeam ℝ)} {formula : LongitudinalFormula}
  {A B es : List (Element ℝ)}

theorem through_cons (e : Element ℝ) (es : List (Element ℝ)) (probe : Probe ℝ)
    (acc : PhaseMap ℝ) :
    through charged formula (e :: es) probe acc =
      e.rule charged formula probe >>= fun r =>
        r.1 0 e.length acc >>= through charged formula es r.2 := by
  rw [through, Scalar.real_zero]

theorem reach_here {e : Element ℝ} {z : ℝ} (h : es = [] ∨ z ≤ e.length) (probe : Probe ℝ)
    (acc : PhaseMap ℝ) :
    reach charged formula (e :: es) probe z acc =
      e.rule charged formula probe >>= fun r => r.1 0 z acc := by
  rw [reach, Scalar.real_zero]
  exact bind_congr fun r => if_pos h

theorem reach_later {e : Element ℝ} {z : ℝ} (h : ¬ (es = [] ∨ z ≤ e.length)) (probe : Probe ℝ)
    (acc : PhaseMap ℝ) :
    reach charged formula (e :: es) probe z acc =
      e.rule charged formula probe >>= fun r =>
        r.1 0 e.length acc >>= reach charged formula es r.2 (z - e.length) := by
  rw [reach, Scalar.real_zero]
  exact bind_congr fun r => if_neg h

theorem sum_length_nonneg (hpos : ∀ e ∈ es, 0 < e.length) : 0 ≤ (es.map Element.length).sum := by
  apply List.sum_nonneg
  intro l hl
  obtain ⟨e, he, rfl⟩ := List.mem_map.mp hl
  exact (hpos e he).le

theorem sum_length_pos (hpos : ∀ e ∈ es, 0 < e.length) (hne : es ≠ []) :
    0 < (es.map Element.length).sum := by
  obtain ⟨e, es, rfl⟩ := List.exists_cons_of_ne_nil hne
  obtain ⟨he, hes⟩ := List.forall_mem_cons.mp hpos
  rw [List.map_cons, List.sum_cons]
  exact add_pos_of_pos_of_nonneg he (sum_length_nonneg hes)

/-- The place at the end of elements is reached by the way through all of them. -/
theorem reach_end (hpos : ∀ e ∈ es, 0 < e.length) (probe : Probe ℝ) (acc : PhaseMap ℝ) :
    reach charged formula es probe (es.map Element.length).sum acc =
      through charged formula es probe acc >>= fun r => .ok r.1 := by
  -- By induction over the elements: the end lies in the last one.
  induction es generalizing probe acc with
  | nil => rfl
  | cons e es ih =>
    obtain ⟨he, hes⟩ := List.forall_mem_cons.mp hpos
    rw [through_cons, bind_assoc, List.map_cons, List.sum_cons]
    by_cases hnil : es = []
    · subst hnil
      rw [reach_here (Or.inl rfl), List.map_nil, List.sum_nil, add_zero]
      apply bind_congr
      intro r
      rw [bind_assoc]
      exact (bind_pure _).symm
    · have hlater : ¬ (es = [] ∨ e.length + (es.map Element.length).sum ≤ e.length) := by
        rintro (h | h)
        · exact hnil h
        · linarith [sum_length_pos hes hnil]
      rw [reach_later hlater, add_sub_cancel_left]
      apply bind_congr
      intro r
      rw [bind_assoc]
      exact bind_congr fun M => ih hes r.2 M

/-- A place in the first elements is reached as if there were no others. -/
theorem reach_append_front (hne : A ≠ []) (B : List (Element ℝ)) (probe : Probe ℝ) {z : ℝ}
    (hz : z ≤ (A.map Element.length).sum) (acc : PhaseMap ℝ) :
    reach charged formula (A ++ B) probe z acc = reach charged formula A probe z acc := by
  -- By induction over the front elements: the place is in the first of them, or in those behind it.
  induction A generalizing probe z acc with
  | nil => exact absurd rfl hne
  | cons e A ih =>
    rw [List.map_cons, List.sum_cons] at hz
    rw [List.cons_append]
    by_cases hhere : A = [] ∨ z ≤ e.length
    · have hle : z ≤ e.length := by
        rcases hhere with rfl | hle
        · simpa using hz
        · exact hle
      rw [reach_here hhere, reach_here (Or.inr hle)]
    · have hne' : A ≠ [] := fun h => hhere (Or.inl h)
      have hlater : ¬ (A ++ B = [] ∨ z ≤ e.length) := by
        rintro (h | h)
        · exact hne' (List.append_eq_nil_iff.mp h).1
        · exact hhere (Or.inr h)
      rw [reach_later hhere, reach_later hlater]
      apply bind_congr
      intro r
      apply bind_congr
      intro M
      exact ih hne' r.2 (by linarith) M

/-- A place behind the first elements is reached through all of them. -/
theorem reach_append_behind (hpos : ∀ e ∈ A, 0 < e.length) (hne : B ≠ []) (probe : Probe ℝ) {z : ℝ}
    (hz : (A.map Element.length).sum < z) (acc : PhaseMap ℝ) :
    reach charged formula (A ++ B) probe z acc =
      through charged formula A probe acc >>= fun r =>
        reach charged formula B r.2 (z - (A.map Element.length).sum) r.1 := by
  induction A generalizing probe z acc with
  | nil =>
    rw [List.map_nil, List.sum_nil, sub_zero]
    rfl
  | cons e A ih =>
    obtain ⟨he, hA⟩ := List.forall_mem_cons.mp hpos
    rw [List.map_cons, List.sum_cons] at hz
    have hsum : 0 ≤ (A.map Element.length).sum := sum_length_nonneg hA
    -- No front element holds a place behind all of them.
    have hlater : ¬ (A ++ B = [] ∨ z ≤ e.length) := by
      rintro (h | h)
      · exact hne (List.append_eq_nil_iff.mp h).2
      · linarith
    rw [List.cons_append, reach_later hlater, through_cons, bind_assoc, List.map_cons, List.sum_cons]
    apply bind_congr
    intro r
    rw [bind_assoc]
    apply bind_congr
    intro M
    rw [← sub_sub]
    exact ih hA r.2 (by linarith) M

/-- At the start of elements that can be passed the map is not extended. -/
theorem reach_start (hpos : ∀ e ∈ es, 0 < e.length) {probe exit : Probe ℝ} {acc M : PhaseMap ℝ}
    (h : through charged formula es probe acc = .ok (M, exit)) (N : PhaseMap ℝ) :
    reach charged formula es probe 0 N = .ok N := by
  cases es with
  | nil => rfl
  | cons e es =>
    obtain ⟨⟨segment, exit⟩, hrule, -⟩ := bind_eq_ok.mp h
    have he : 0 < e.length := hpos e (List.mem_cons_self ..)
    have hself : segment 0 0 N = .ok N := Element.rule_self hrule 0 N
    rw [reach_here (Or.inr he.le), hrule]
    exact hself

end Places

/-! ### Walks and direct ways -/

section Walks

variable {line : BeamLine ℝ} {charged : Option (ChargedBeam ℝ)} {c d : Cursor ℝ}

/-- Without positions ahead, passing elements is the way through them. -/
theorem passAll_through (es : List (Element ℝ)) (hc : c.ahead = []) :
    (line.passAll charged es c >>= fun d => .ok (d.map, d.probe)) =
      through charged line.formula es c.probe c.map := by
  -- Without positions ahead an element has no stops, and only its own map is made.
  induction es generalizing c with
  | nil => rfl
  | cons e es ih =>
    have hnone (isLast : Bool) (finish : ℝ) : due isLast finish ([] : List ℝ) = [] := by
      cases isLast with
      | true => rfl
      | false => rfl
    have hdone (isLast : Bool) (finish : ℝ) : left isLast finish ([] : List ℝ) = [] := by
      cases isLast with
      | true => rfl
      | false => rfl
    rw [passAll, through_cons, advance_eq, hc, hnone, hdone, bind_assoc, bind_assoc,
      Scalar.real_zero]
    apply bind_congr
    intro r
    change ((r.1 0 e.length c.map).map _).map _ >>= _ = _
    cases r.1 0 e.length c.map with
    | error f => rfl
    | ok M => exact ih (c := ⟨M, r.2, c.start + e.length, [], c.passed ++ []⟩) rfl

/-- Without positions ahead, the elements that remain add no map. -/
theorem passAll_done {es : List (Element ℝ)} (hpos : ∀ e ∈ es, 0 < e.length)
    (hc : c.ahead = []) (h : line.passAll charged es c = .ok d) : d.passed = c.passed := by
  obtain ⟨maps, hpassed, hnone⟩ := passAll_ok hpos (by simp [hc]) (fun _ => hc) h
  rw [hc] at hnone
  cases hnone
  rw [hpassed, List.append_nil]

section Advance

variable {e : Element ℝ} {es : List (Element ℝ)} {p : ℝ}

/-- The element that a position is in stops there and leaves none ahead. -/
theorem advance_stop (hhere : es = [] ∨ p - c.start ≤ e.length)
    (h : line.advance charged es.isEmpty e (c.only [p]) = .ok d) :
    d.ahead = [] ∧ ∃ M, d.passed = [M] ∧
      reach charged line.formula (e :: es) c.probe (p - c.start) c.map = .ok M := by
  obtain ⟨segment, exit, hrule, maps, last, hstops, rfl⟩ := advance_eq_ok.mp h
  change e.rule charged line.formula c.probe = _ at hrule
  change throughStops segment e.length
    ((due es.isEmpty (c.start + e.length) [p]).map (· - c.start)) 0 c.map = _ at hstops
  -- The position is a stop of this element, and the only one.
  have hmem : p ∈ due es.isEmpty (c.start + e.length) [p] := by
    rcases hhere with rfl | hle
    · exact List.mem_singleton_self p
    · have hle : p ≤ c.start + e.length := by linarith
      unfold due
      split
      · exact List.mem_singleton_self p
      · simp [hle]
  obtain ⟨hdue, hleft⟩ := due_single hmem
  rw [hdue] at hstops
  obtain ⟨M, hM, hstops⟩ := bind_eq_ok.mp hstops
  obtain ⟨⟨none, finish⟩, hend, he⟩ := bind_eq_ok.mp hstops
  obtain ⟨_, -, hnone⟩ := map_eq_ok.mp hend
  cases hnone
  cases pure_eq_ok.mp he
  refine ⟨hleft, M, rfl, ?_⟩
  rw [reach_here hhere, hrule]
  exact hM

/-- An element in front of a position is passed as a whole. -/
theorem advance_whole (hhere : ¬ (es = [] ∨ p - c.start ≤ e.length))
    (h : line.advance charged es.isEmpty e (c.only [p]) = .ok d) :
    d.only [p] = d ∧
      reach charged line.formula (e :: es) c.probe (p - c.start) c.map =
        reach charged line.formula es d.probe (p - d.start) d.map := by
  obtain ⟨segment, exit, hrule, maps, last, hstops, rfl⟩ := advance_eq_ok.mp h
  change e.rule charged line.formula c.probe = _ at hrule
  change throughStops segment e.length
    ((due es.isEmpty (c.start + e.length) [p]).map (· - c.start)) 0 c.map = _ at hstops
  have hne : es ≠ [] := fun hnil => hhere (Or.inl hnil)
  have hempty : es.isEmpty = false := by simpa using hne
  -- The position is left for the elements behind.
  have hlater : ∀ q ∈ [p], c.start + e.length < q := by
    intro q hq
    rw [List.mem_singleton.mp hq]
    have hlt : e.length < p - c.start := not_le.mp fun hle => hhere (Or.inr hle)
    linarith
  obtain ⟨hdue, hleft⟩ := due_ahead hlater
  rw [hempty, hdue] at hstops
  obtain ⟨M, hM, he⟩ := map_eq_ok.mp hstops
  cases he
  constructor
  · change (⟨last, exit, c.start + e.length, [p], []⟩ : Cursor ℝ) =
      ⟨last, exit, c.start + e.length, left es.isEmpty (c.start + e.length) [p], []⟩
    rw [hempty, hleft]
  · rw [reach_later hhere, hrule, sub_sub]
    change segment 0 e.length c.map >>= _ = _
    rw [hM]
    rfl

end Advance

/-- A walk to one position has the map of the direct way there. -/
theorem passAll_reach {es : List (Element ℝ)} (hpos : ∀ e ∈ es, 0 < e.length) (hne : es ≠ []) {p : ℝ}
    (h : line.passAll charged es (c.only [p]) = .ok d) :
    ∃ M, d.passed = [M] ∧
      reach charged line.formula es c.probe (p - c.start) c.map = .ok M := by
  induction es generalizing c with
  | nil => exact absurd rfl hne
  | cons e es ih =>
    obtain ⟨-, hes⟩ := List.forall_mem_cons.mp hpos
    obtain ⟨b, hb, hrest⟩ := passAll_cons_ok.mp h
    by_cases hhere : es = [] ∨ p - c.start ≤ e.length
    · obtain ⟨hahead, M, hM, hreach⟩ := advance_stop hhere hb
      exact ⟨M, (passAll_done hes hahead hrest).trans hM, hreach⟩
    · obtain ⟨honly, hreach⟩ := advance_whole hhere hb
      rw [← honly] at hrest
      rw [hreach]
      exact ih hes (fun hnil => hhere (Or.inl hnil)) hrest

section Line

variable (line charged)

noncomputable def wayThrough : Except (Fault ℝ) (PhaseMap ℝ × Probe ℝ) :=
  through charged line.formula line.elements line.probe PhaseMap.identity

noncomputable def wayTo (p : ℝ) : Except (Fault ℝ) (PhaseMap ℝ) :=
  reach charged line.formula line.elements line.probe p PhaseMap.identity

end Line

/-- A walk to accepted positions fails exactly where the way through all elements does, and for the
same reason. -/
theorem walk_eq_error (hline : line.Built) {ps : List ℝ}
    (hps : checkPositions line.length 0 ps = .ok ()) (f : Fault ℝ) :
    line.walk charged ps = .error f ↔ line.wayThrough charged = .error f := by
  have hpass : (line.passAll charged line.elements ((line.entrance ps).only []) >>= fun d =>
      .ok (d.map, d.probe)) = line.wayThrough charged := passAll_through line.elements rfl
  rw [walk_eq hps, map_eq_error, passAll_error_iff hline.length_pos (entrance_sorted hps),
    ← hpass, bind_eq_error]
  simp

/-- A walk succeeds if the line can be passed, and has the maps of the direct ways. -/
theorem walk_eq_ok (hline : line.Built) {ps : List ℝ} {Ms : List (PhaseMap ℝ)}
    (hps : checkPositions line.length 0 ps = .ok ()) :
    line.walk charged ps = .ok Ms ↔
      (∃ r, line.wayThrough charged = .ok r) ∧
        List.Forall₂ (fun p M => line.wayTo charged p = .ok M) ps Ms := by
  -- Each map on the walk is what the way to its position makes.
  have hmaps {Ns : List (PhaseMap ℝ)} (h : line.walk charged ps = .ok Ns) :
      List.Forall₂ (fun p M => line.wayTo charged p = .ok M) ps Ns := by
    rw [walk_eq hps, map_eq_ok] at h
    obtain ⟨d, hd, rfl⟩ := h
    obtain ⟨maps, hpassed, hall⟩ := passAll_ok hline.length_pos (entrance_sorted hps)
      (fun hnil => absurd hnil hline.ne_nil) hd
    rw [hpassed]
    refine hall.imp ?_
    rintro p M ⟨d', hd', hM⟩
    obtain ⟨N, hN, hreach⟩ := passAll_reach hline.length_pos hline.ne_nil hd'
    cases hM.symm.trans hN
    have hp : p - (line.entrance ps).start = p := by
      change p - Scalar.ofNat 0 = p
      simp
    rw [hp] at hreach
    exact hreach
  constructor
  · intro h
    refine ⟨?_, hmaps h⟩
    cases hway : line.wayThrough charged with
    | error f =>
      rw [← walk_eq_error hline hps, h] at hway
      cases hway
    | ok r => exact ⟨r, rfl⟩
  · -- Conversely the walk cannot fail, and its maps are the ones of the ways.
    rintro ⟨⟨r, hr⟩, hways⟩
    cases h : line.walk charged ps with
    | error f =>
      rw [walk_eq_error hline hps, hr] at h
      cases h
    | ok Ns =>
      have hunique : Relator.RightUnique fun p M => line.wayTo charged p = .ok M := by
        intro p M N hM hN
        exact Except.ok.inj (hM.symm.trans hN)
      rw [List.right_unique_forall₂' hunique (hmaps h) hways]

/-- The way to the end of the line is the way through all elements. -/
theorem wayTo_length (hline : line.Built) :
    line.wayTo charged line.length = line.wayThrough charged >>= fun r => .ok r.1 := by
  rw [wayTo, length_eq_sum]
  exact reach_end hline.length_pos line.probe PhaseMap.identity

theorem checkPositions_single {total p : ℝ} :
    checkPositions total 0 [p] = .ok () ↔ 0 ≤ p ∧ p ≤ total + positionSlack := by
  rw [checkPositions_eq_ok le_rfl]
  simp

theorem walk_single (hline : line.Built) {p : ℝ} (h₀ : 0 ≤ p) (h₁ : p ≤ line.length + positionSlack)
    {r : PhaseMap ℝ × Probe ℝ} (hr : line.wayThrough charged = .ok r) {M : PhaseMap ℝ}
    (hM : line.wayTo charged p = .ok M) : line.walk charged [p] = .ok [M] :=
  (walk_eq_ok hline (checkPositions_single.mpr ⟨h₀, h₁⟩)).mpr ⟨⟨r, hr⟩, .cons hM .nil⟩

theorem checkPositions_of_walk {ps : List ℝ} {Ms : List (PhaseMap ℝ)}
    (h : line.walk charged ps = .ok Ms) : checkPositions line.length 0 ps = .ok () := by
  rw [walk, Scalar.real_zero] at h
  obtain ⟨_, hps, -⟩ := bind_eq_ok.mp h
  exact hps

/-- In a drift at the entrance the maps to places in front of its first kick are those of free motion. -/
theorem walk_front (hline : line.Built) {length : ℝ} {es : List (Element ℝ)}
    (helements : line.elements = .drift length :: es) {r : PhaseMap ℝ × Probe ℝ}
    (hr : line.wayThrough charged = .ok r) {ps : List ℝ}
    (hps : checkPositions line.length 0 ps = .ok ()) (hhere : ∀ z ∈ ps, es = [] ∨ z ≤ length)
    (hfront : ∀ c ∈ charged, ∀ z ∈ ps, (Slicing.of length c.model.sliceLength).kicksUpTo z = 0) :
    line.walk charged ps = .ok (ps.map fun z => PhaseMap.drift z line.probe.gamma) := by
  have hentrance : ∀ z ∈ ps, 0 ≤ z :=
    (List.pairwise_cons.mp ((checkPositions_eq_ok le_rfl).mp hps).1).1
  rw [walk_eq_ok hline hps, List.forall₂_map_right_iff, List.forall₂_same]
  refine ⟨⟨r, hr⟩, fun z hz => ?_⟩
  rw [wayTo, helements, reach_here (hhere z hz)]
  exact driftSegment_front _ (hentrance z hz) fun c hc => hfront c hc z hz

theorem length_nonneg (hline : line.Built) : 0 ≤ line.length := by
  rw [length_eq_sum]
  exact sum_length_nonneg hline.length_pos

end Walks

end BeamLine

end BeamOptics
