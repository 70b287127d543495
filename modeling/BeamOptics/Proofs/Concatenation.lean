import BeamOptics.Proofs.DirectWay
import BeamOptics.Proofs.RealBeam

/-! One line behind another. The second part of a line treats the beam that the first part makes of
the one at the entrance as its own, so the map of the whole is the product of the maps of the
parts. -/

namespace BeamOptics

def ChargedBeam.propagate {K : Type} [Scalar K] (charged : ChargedBeam K) (M : PhaseMap K) :
    ChargedBeam K :=
  { charged with beam := charged.beam.propagate M }

/-! ### Extending a map, and the beam behind it

A map `acc * M` is extended for a beam as `acc` is for the beam behind `M`. -/

section Extension

/-- Kicks behind a map are the kicks on the beam that the map leaves. -/
theorem kickedDrift_mul (charged : ChargedBeam ℝ) (slicing : Slicing ℝ) (gamma : ℝ) (n j : ℕ)
    (z : ℝ) (acc M : PhaseMap ℝ) :
    kickedDrift charged slicing gamma n j z (acc * M) =
      kickedDrift (charged.propagate M) slicing gamma n j z acc >>= fun r => .ok (r.1 * M, r.2) := by
  induction n generalizing j z acc with
  | zero => rfl
  | succ n ih =>
    have hbeam : charged.beam.propagate (PhaseMap.drift (slicing.center j - z) gamma * (acc * M)) =
        (charged.beam.propagate M).propagate
          (PhaseMap.drift (slicing.center j - z) gamma * acc) := by
      rw [Covariance.propagate_propagate, Mat.mul_assoc]
    simp only [kickedDrift, hbeam, bind_assoc]
    apply bind_congr
    intro kick
    rw [← Mat.mul_assoc, ← Mat.mul_assoc, ih, Mat.mul_assoc]

/-- The map of a drift behind another map is the drift's own map on the beam that the other one
leaves. -/
theorem driftSegment_mul (charged : Option (ChargedBeam ℝ)) (length gamma a b : ℝ)
    (acc M : PhaseMap ℝ) :
    driftSegment charged length gamma a b (acc * M) =
      driftSegment (charged.map (·.propagate M)) length gamma a b acc >>= fun N => .ok (N * M) := by
  rcases le_or_gt b a with hba | hab
  · rw [driftSegment_self charged length gamma hba, driftSegment_self _ length gamma hba]
    rfl
  cases charged with
  -- Without charge the two segments are drifts, and composition is associative.
  | none =>
    change _ = driftSegment none length gamma a b acc >>= _
    rw [driftSegment_uncharged length gamma hab, driftSegment_uncharged length gamma hab]
    exact congrArg Except.ok (Mat.mul_assoc _ _ _).symm
  | some charged =>
    obtain ⟨slicing, hs⟩ : ∃ s, s = Slicing.of length charged.model.sliceLength := ⟨_, rfl⟩
    have hs' : slicing = Slicing.of length (charged.propagate M).model.sliceLength := hs
    change _ = driftSegment (some (charged.propagate M)) length gamma a b acc >>= _
    rw [driftSegment_charged charged length gamma hab _ hs,
      driftSegment_charged (charged.propagate M) length gamma hab _ hs', kickedDrift_mul]
    cases kickedDrift (charged.propagate M) slicing gamma (slicing.kicksBetween a b)
      (slicing.kicksUpTo a) a acc with
    | error f => rfl
    | ok r => exact congrArg Except.ok (Mat.mul_assoc _ _ _).symm

/-- An element treats a beam behind a map as its own, or fails whatever the beam is. -/
theorem Element.rule_propagate (charged : Option (ChargedBeam ℝ)) (formula : LongitudinalFormula)
    (probe : Probe ℝ) (e : Element ℝ) (M : PhaseMap ℝ) :
    (∃ f, e.rule charged formula probe = .error f ∧
      e.rule (charged.map (·.propagate M)) formula probe = .error f) ∨
    ∃ segment segment' exit, e.rule charged formula probe = .ok (segment, exit) ∧
      e.rule (charged.map (·.propagate M)) formula probe = .ok (segment', exit) ∧
      ∀ a b acc, segment a b (acc * M) = segment' a b acc >>= fun N => .ok (N * M) := by
  cases e with
  | drift length =>
    exact Or.inr ⟨_, _, probe, rfl, rfl, fun a b acc =>
      driftSegment_mul charged length probe.gamma a b acc M⟩
  | gap model drive =>
    -- A gap does not look at the beam.
    have hsame : (gap model drive).rule (charged.map (·.propagate M)) formula probe =
        (gap model drive).rule charged formula probe := rfl
    rw [hsame]
    cases hrule : (gap model drive).rule charged formula probe with
    | error f => exact Or.inl ⟨f, rfl, rfl⟩
    | ok r =>
      obtain ⟨profile, -, rfl⟩ := map_eq_ok.mp hrule
      refine Or.inr ⟨_, _, _, rfl, rfl, fun a b acc => ?_⟩
      exact congrArg Except.ok (Mat.mul_assoc _ _ _).symm

end Extension

namespace BeamLine

section Extension

variable (charged : Option (ChargedBeam ℝ)) (formula : LongitudinalFormula)
  (es : List (Element ℝ)) (probe : Probe ℝ) (acc M : PhaseMap ℝ)

/-- Elements behind a map make the map that they make of the beam behind it. -/
theorem through_mul :
    through charged formula es probe (acc * M) =
      through (charged.map (·.propagate M)) formula es probe acc >>= fun r =>
        .ok (r.1 * M, r.2) := by
  induction es generalizing probe acc with
  | nil => rfl
  | cons e es ih =>
    rw [through_cons, through_cons]
    obtain ⟨f, hf, hf'⟩ | ⟨segment, segment', exit, hrule, hrule', hmul⟩ :=
      Element.rule_propagate charged formula probe e M
    · rw [hf, hf']
      rfl
    · rw [hrule, hrule']
      change segment 0 e.length (acc * M) >>= _ = (segment' 0 e.length acc >>= _) >>= _
      rw [hmul, bind_assoc, bind_assoc]
      exact bind_congr fun N => ih exit N

theorem reach_mul (z : ℝ) :
    reach charged formula es probe z (acc * M) =
      reach (charged.map (·.propagate M)) formula es probe z acc >>= fun N => .ok (N * M) := by
  induction es generalizing probe z acc with
  | nil => rfl
  | cons e es ih =>
    obtain ⟨f, hf, hf'⟩ | ⟨segment, segment', exit, hrule, hrule', hmul⟩ :=
      Element.rule_propagate charged formula probe e M
    · rw [reach, reach, hf, hf']
      rfl
    by_cases hhere : es = [] ∨ z ≤ e.length
    · rw [reach_here hhere, reach_here hhere, hrule, hrule']
      exact hmul 0 z acc
    · rw [reach_later hhere, reach_later hhere, hrule, hrule']
      change segment 0 e.length (acc * M) >>= _ = (segment' 0 e.length acc >>= _) >>= _
      rw [hmul, bind_assoc, bind_assoc]
      exact bind_congr fun N => ih exit N (z - e.length)

end Extension

/-! ### Lines -/

section Lines

variable {K : Type} [Scalar K]

def followedBy (line : BeamLine K) (elements : List (Element K)) : BeamLine K :=
  { line with elements := line.elements ++ elements }

/-- A line of other elements, entered by another particle, with the settings of this one. -/
def resumed (line : BeamLine K) (elements : List (Element K)) (probe : Probe K) : BeamLine K :=
  { line with probe, elements }

end Lines

variable {front : BeamLine ℝ} {B : List (Element ℝ)}

theorem length_followedBy (front : BeamLine ℝ) (B : List (Element ℝ)) (q : Probe ℝ) :
    (front.followedBy B).length = front.length + (front.resumed B q).length := by
  simp only [length_eq_sum, followedBy, resumed, List.map_append, List.sum_append]

theorem exitProbe_followedBy (front : BeamLine ℝ) (B : List (Element ℝ)) :
    (front.followedBy B).exitProbe = front.exitProbe >>= fun q => (front.resumed B q).exitProbe :=
  probeBehind_append front.formula front.elements B front.probe

theorem wayThrough_followedBy (charged : Option (ChargedBeam ℝ)) :
    (front.followedBy B).wayThrough charged =
      front.wayThrough charged >>= fun r =>
        (front.resumed B r.2).wayThrough (charged.map (·.propagate r.1)) >>= fun s =>
          .ok (s.1 * r.1, s.2) := by
  change through charged front.formula (front.elements ++ B) front.probe _ = _
  rw [through_append]
  apply bind_congr
  intro r
  have hmul := through_mul charged front.formula B r.2 PhaseMap.identity r.1
  rw [PhaseMap.identity, Mat.identity_mul] at hmul
  exact hmul

/-- The elements behind have no say in positions up to the end of the front part. -/
theorem wayTo_followedBy_front (hfront : front.Built) (charged : Option (ChargedBeam ℝ)) {p : ℝ}
    (hp : p ≤ front.length) :
    (front.followedBy B).wayTo charged p = front.wayTo charged p := by
  rw [length_eq_sum] at hp
  exact reach_append_front hfront.ne_nil B front.probe hp PhaseMap.identity

/-- The way to a position behind the front part leads through all of it, and from its end through
the rest. -/
theorem wayTo_followedBy_behind (hfront : front.Built) (hne : B ≠ [])
    (charged : Option (ChargedBeam ℝ)) {p : ℝ} (hp : front.length < p) :
    (front.followedBy B).wayTo charged p =
      front.wayThrough charged >>= fun r =>
        (front.resumed B r.2).wayTo (charged.map (·.propagate r.1)) (p - front.length) >>= fun N =>
          .ok (N * r.1) := by
  rw [length_eq_sum] at hp ⊢
  change reach charged front.formula (front.elements ++ B) front.probe p _ = _
  rw [reach_append_behind hfront.length_pos hne front.probe hp]
  apply bind_congr
  intro r
  have hmul := reach_mul charged front.formula B r.2 PhaseMap.identity r.1
    (p - (front.elements.map Element.length).sum)
  rw [PhaseMap.identity, Mat.identity_mul] at hmul
  exact hmul

theorem charge_resumed (front : BeamLine ℝ) (B : List (Element ℝ)) (q : Probe ℝ)
    (beam : Covariance ℝ) (M : PhaseMap ℝ) :
    (front.resumed B q).charge (beam.propagate M) = (front.charge beam).map (·.propagate M) := by
  rw [charge, charge, Option.map_map]
  rfl

/-- The law of concatenation for a line, the elements behind it and a beam at its entrance: up to
the end of the front part its own maps, behind it the maps of the rest on the beam it leaves, and
no other faults than those of the two. -/
structure Concatenates (front : BeamLine ℝ) (B : List (Element ℝ)) (beam : Covariance ℝ) : Prop where
  built : (front.followedBy B).Built ∧ ∀ q, (front.resumed B q).Built
  length : ∀ q, (front.followedBy B).length = front.length + (front.resumed B q).length
  exitProbe : (front.followedBy B).exitProbe =
    front.exitProbe >>= fun q => (front.resumed B q).exitProbe
  maps : ∀ {ps Ms}, (front.followedBy B).mapsAt beam ps = .ok Ms →
    ∃ N q, front.mapsAt beam [front.length] = .ok [N] ∧ front.exitProbe = .ok q ∧
      List.Forall₂ (fun p M =>
        (p ≤ front.length → front.mapsAt beam [p] = .ok [M]) ∧
        (front.length ≤ p → ∃ R, M = R * N ∧
          (front.resumed B q).mapsAt (beam.propagate N) [p - front.length] = .ok [R])) ps Ms
  fault : ∀ {ps qs rs}, checkPositions (front.followedBy B).length 0 ps = .ok () →
    checkPositions front.length 0 qs = .ok () →
    (∀ q, checkPositions (front.resumed B q).length 0 rs = .ok ()) → ∀ f,
      (front.followedBy B).mapsAt beam ps = .error f ↔
        front.mapsAt beam qs = .error f ∨
        ∃ N q, front.mapsAt beam [front.length] = .ok [N] ∧ front.exitProbe = .ok q ∧
          (front.resumed B q).mapsAt (beam.propagate N) rs = .error f

/-- The way through a line gives its map at its own length and the particle at its end. -/
theorem wayThrough_eq_ok {line : BeamLine ℝ} (hline : line.Built) {beam : Covariance ℝ}
    {N : PhaseMap ℝ} {q : Probe ℝ} :
    line.wayThrough (line.charge beam) = .ok (N, q) ↔
      line.mapsAt beam [line.length] = .ok [N] ∧ line.exitProbe = .ok q := by
  have hslack : line.length ≤ line.length + positionSlack := by norm_num [positionSlack]
  constructor
  · intro h
    refine ⟨walk_single hline (length_nonneg hline) hslack h ?_, probeBehind_of_through h⟩
    rw [wayTo_length hline, h]
    rfl
  · rintro ⟨hmaps, hexit⟩
    obtain ⟨⟨⟨N', q'⟩, hway⟩, hto⟩ := (walk_eq_ok hline (checkPositions_of_walk hmaps)).mp hmaps
    have hN : line.wayTo (line.charge beam) line.length = .ok N := (List.forall₂_cons.mp hto).1
    rw [wayTo_length hline, hway] at hN
    have hq : line.exitProbe = .ok q' := probeBehind_of_through hway
    cases hN
    cases hexit.symm.trans hq
    exact hway

section Parts

variable (hfront : front.Built) (hrest : ∀ q, (front.resumed B q).Built) {beam : Covariance ℝ}
  {p : ℝ} {N M : PhaseMap ℝ} {q : Probe ℝ}

include hfront

/-- A position of the front part has the map that the front part has there. -/
theorem wayTo_front (hway : front.wayThrough (front.charge beam) = .ok (N, q)) (h₀ : 0 ≤ p)
    (hp : p ≤ front.length)
    (hM : (front.followedBy B).wayTo (front.charge beam) p = .ok M) :
    front.mapsAt beam [p] = .ok [M] := by
  have hslack : (0 : ℝ) ≤ positionSlack := by norm_num [positionSlack]
  rw [wayTo_followedBy_front hfront _ hp] at hM
  exact walk_single hfront h₀ (by linarith) hway hM

include hrest

/-- A position behind the front part has the map of the rest for the beam that enters it, with the
map of the front part in front. -/
theorem wayTo_behind {s : PhaseMap ℝ × Probe ℝ}
    (hway : front.wayThrough (front.charge beam) = .ok (N, q))
    (hnext : (front.resumed B q).wayThrough ((front.charge beam).map (·.propagate N)) = .ok s)
    (hp : front.length ≤ p) (hend : p ≤ (front.followedBy B).length + positionSlack)
    (hM : (front.followedBy B).wayTo (front.charge beam) p = .ok M) :
    ∃ R, M = R * N ∧
      (front.resumed B q).mapsAt (beam.propagate N) [p - front.length] = .ok [R] := by
  -- The place is one that the rest accepts.
  have hin : p - front.length ≤ (front.resumed B q).length + positionSlack := by
    rw [length_followedBy front B q] at hend
    linarith
  have hone {R : PhaseMap ℝ} (hR : (front.resumed B q).wayTo
      ((front.charge beam).map (·.propagate N)) (p - front.length) = .ok R) :
      (front.resumed B q).mapsAt (beam.propagate N) [p - front.length] = .ok [R] := by
    rw [mapsAt, charge_resumed]
    exact walk_single (hrest q) (sub_nonneg.mpr hp) hin hnext hR
  rcases hp.eq_or_lt with rfl | hlt
  · -- At the seam the rest has not begun, and its map there is the identity.
    rw [wayTo_followedBy_front hfront _ le_rfl, wayTo_length hfront, hway] at hM
    cases hM
    refine ⟨PhaseMap.identity, (Mat.identity_mul _).symm, hone ?_⟩
    rw [sub_self]
    exact reach_start (hrest q).length_pos hnext PhaseMap.identity
  · have hne : B ≠ [] := (hrest q).ne_nil
    rw [wayTo_followedBy_behind hfront hne _ hlt] at hM
    obtain ⟨r, hr, hM⟩ := bind_eq_ok.mp hM
    cases hway.symm.trans hr
    obtain ⟨R, hR, he⟩ := bind_eq_ok.mp hM
    cases he
    exact ⟨R, rfl, hone hR⟩

end Parts

/-- The map of a line followed by more elements is the map of those elements, on the beam and with
the particle that leave the line, times the map of the line. -/
theorem mapsAt_followedBy (hfront : front.Built) {q₀ : Probe ℝ} {back : BeamLine ℝ}
    (hB : mk? q₀ B = .ok back) (beam : Covariance ℝ) : Concatenates front B beam := by
  obtain ⟨-, hne, hposB⟩ := mk?_eq_ok hB
  have hposA := hfront.elements_spec.2
  have hwhole : (front.followedBy B).Built :=
    hfront.withElements (List.append_ne_nil_of_right_ne_nil _ hne)
      (fun e he => (List.mem_append.mp he).elim (hposA e) (hposB e)) front.probe
  have hrest (q : Probe ℝ) : (front.resumed B q).Built := hfront.withElements hne hposB q
  have hcharge : (front.followedBy B).charge beam = front.charge beam := rfl
  refine ⟨⟨hwhole, hrest⟩, length_followedBy front B, exitProbe_followedBy front B, ?_, ?_⟩
  · -- Where the walk of the whole succeeds, so do the ways through both parts.
    intro ps Ms hmaps
    have hps := checkPositions_of_walk hmaps
    obtain ⟨⟨r, hr⟩, hto⟩ := (walk_eq_ok hwhole hps).mp hmaps
    rw [hcharge, wayThrough_followedBy, bind_eq_ok] at hr
    obtain ⟨⟨N, q⟩, hway, hr⟩ := hr
    obtain ⟨s, hnext, -⟩ := bind_eq_ok.mp hr
    obtain ⟨hlength, hexit⟩ := (wayThrough_eq_ok hfront).mp hway
    obtain ⟨hs, hend⟩ := (checkPositions_eq_ok le_rfl).mp hps
    have hstart : ∀ p ∈ ps, 0 ≤ p := (List.pairwise_cons.mp hs).1
    refine ⟨N, q, hlength, hexit, ?_⟩
    refine ((List.forall₂_and_left _ _).mpr ⟨fun p hp => hp, hto⟩).imp ?_
    rintro p M ⟨hp, hM⟩
    exact ⟨fun hle => wayTo_front hfront hway (hstart p hp) hle hM,
      fun hle => wayTo_behind hfront hrest hway hnext hle (hend p hp) hM⟩
  · -- The way through the whole stops where the way through one of the parts does.
    intro ps qs rs hps hqs hrs f
    rw [mapsAt, mapsAt, walk_eq_error hwhole hps, walk_eq_error hfront hqs, hcharge,
      wayThrough_followedBy, bind_eq_error]
    -- Either the front fails, or the rest does behind the same map and with the same particle.
    apply or_congr Iff.rfl
    rw [Prod.exists]
    apply exists_congr
    intro N
    apply exists_congr
    intro q
    rw [wayThrough_eq_ok hfront, bind_eq_error, and_assoc]
    apply and_congr_right
    intro _
    apply and_congr_right
    intro _
    rw [mapsAt, charge_resumed, walk_eq_error (hrest q) (hrs q)]
    simp

noncomputable def injector : BeamLine ℝ where
  probe := ⟨3000000, 938272088, 1⟩
  elements := [.drift (1 / 2), .gap (.transitFit ⟨1 / 10, [150000]⟩) ⟨80000000, 1, -1⟩]
  spaceCharge := some ⟨1 / 1000, 1 / 1000, 1 / 4⟩

noncomputable def buncher : List (Element ℝ) :=
  [.drift 2, .gap (.transitFit ⟨1 / 5, [1000, -3]⟩) ⟨80000000, -1, 0⟩]

theorem mapsAt_injector_followedBy :
    injector.Built ∧
      mk? injector.probe buncher = .ok { probe := injector.probe, elements := buncher } ∧
      Concatenates injector buncher (.ofMoments ⟨⟨1, 0, 1⟩, ⟨2, 1, 1⟩, ⟨1, 0, 3⟩⟩) := by
  have hmodel : SpaceCharge.mk? (1 / 1000) (1 / 1000) (1 / 4) =
      .ok (⟨1 / 1000, 1 / 1000, 1 / 4⟩ : SpaceCharge ℝ) := by
    simp [SpaceCharge.mk?]
  have hnew : mk? injector.probe injector.elements =
      .ok { probe := injector.probe, elements := injector.elements } := by
    simp [injector, mk?, lengthFault?, Element.length, FieldModel.length]
  have hbuilt : injector.Built := .withSpaceCharge hmodel (.new hnew)
  have hback : mk? injector.probe buncher = .ok { probe := injector.probe, elements := buncher } := by
    simp [buncher, mk?, lengthFault?, Element.length, FieldModel.length]
  exact ⟨hbuilt, hback, mapsAt_followedBy hbuilt hback _⟩

end BeamLine

end BeamOptics
