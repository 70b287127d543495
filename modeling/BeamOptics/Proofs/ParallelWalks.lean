import BeamOptics.Proofs.Walks

/-! Two walks through one line, each with a beam and a space-charge model of its own. What free motion,
kicks and gaps keep between the maps of the two, the walks keep from the entrance to the last
position, and they fail alike. -/

namespace BeamOptics

section Drifts

variable {K : Type} [Scalar K] {F : Fault K → Fault K → Prop} {R : PhaseMap K → PhaseMap K → Prop}
  {c d : ChargedBeam K}

/-- Kicks in step keep the maps related. -/
theorem kickedDrift_alike
    (hfree : ∀ {M N}, R M N → ∀ length gamma,
      R (PhaseMap.drift length gamma * M) (PhaseMap.drift length gamma * N))
    (hkick : ∀ {M N}, R M N → ∀ length, Alike F (fun k l => R (k * M) (l * N))
      (c.model.kick (c.beam.propagate M) length) (d.model.kick (d.beam.propagate N) length))
    (slicing : Slicing K) (gamma : K) (n j : ℕ) (z : K) {M N : PhaseMap K} (h : R M N) :
    Alike F (fun r s => R r.1 s.1 ∧ r.2 = s.2) (kickedDrift c slicing gamma n j z M)
      (kickedDrift d slicing gamma n j z N) := by
  -- The induction is on the kicks that are left, with the maps behind the ones so far.
  induction n generalizing j z M N with
  | zero => exact .ok ⟨h, rfl⟩
  | succ n ih => exact (hkick (hfree h _ _) _).bind fun k l hkl => ih _ _ hkl

theorem driftSegment_alike (hslices : c.model.sliceLength = d.model.sliceLength)
    (hfree : ∀ {M N}, R M N → ∀ length gamma,
      R (PhaseMap.drift length gamma * M) (PhaseMap.drift length gamma * N))
    (hkick : ∀ {M N}, R M N → ∀ length, Alike F (fun k l => R (k * M) (l * N))
      (c.model.kick (c.beam.propagate M) length) (d.model.kick (d.beam.propagate N) length))
    (length gamma y z : K) {M N : PhaseMap K} (h : R M N) :
    Alike F R (driftSegment (some c) length gamma y z M)
      (driftSegment (some d) length gamma y z N) := by
  unfold driftSegment
  split_ifs with hzy
  · exact .ok h
  · dsimp only
    rw [hslices]
    refine (kickedDrift_alike hfree hkick _ gamma _ _ y h).bind ?_
    rintro ⟨M', x⟩ ⟨N', _⟩ ⟨hM', rfl⟩
    exact .ok (hfree hM' _ _)

omit [Scalar K] in

/-- The maps at the stops of an element are related one by one. -/
theorem throughStops_alike {segment segment' : K → K → PhaseMap K → Except (Fault K) (PhaseMap K)}
    (hsegment : ∀ y z {M N}, R M N → Alike F R (segment y z M) (segment' y z N)) (finish : K)
    (stops : List K) (start : K) {M N : PhaseMap K} (h : R M N) :
    Alike F (fun r s => List.Forall₂ R r.1 s.1 ∧ R r.2 s.2)
      (throughStops segment finish stops start M) (throughStops segment' finish stops start N) := by
  induction stops generalizing start M N with
  | nil => exact (hsegment start finish h).map fun _ _ hlast => ⟨.nil, hlast⟩
  | cons stop stops ih =>
    refine (hsegment start stop h).bind fun M' N' hhere => (ih stop hhere).bind ?_
    rintro ⟨Ms, last⟩ ⟨Ns, last'⟩ ⟨hbehind, hlast⟩
    exact .ok ⟨.cons hhere hbehind, hlast⟩

end Drifts

variable {K : Type} [Scalar K] {F : Fault K → Fault K → Prop} {R : PhaseMap K → PhaseMap K → Prop}
  {charged charged' : Option (ChargedBeam K)}

/-- What the two charges of a line have to keep between maps so that the walks do. -/
structure ParallelCharges (F : Fault K → Fault K → Prop) (R : PhaseMap K → PhaseMap K → Prop)
    (charged charged' : Option (ChargedBeam K)) : Prop where
  fault : ∀ f, F f f
  entrance : R PhaseMap.identity PhaseMap.identity
  drift : ∀ length gamma y z {M N}, R M N →
    Alike F R (driftSegment charged length gamma y z M) (driftSegment charged' length gamma y z N)
  gap : ∀ (p : Passage K) y z {M N}, R M N →
    R (p.transportBetween y z * M) (p.transportBetween y z * N)

structure Cursor.Beside (R : PhaseMap K → PhaseMap K → Prop) (c d : Cursor K) : Prop where
  map : R c.map d.map
  probe : c.probe = d.probe
  start : c.start = d.start
  ahead : c.ahead = d.ahead
  passed : List.Forall₂ R c.passed d.passed

/-- The rules of an element keep the relation, and the particle behind it does not see the charge. -/
theorem Element.rule_alike (h : ParallelCharges F R charged charged')
    (formula : LongitudinalFormula) (probe : Probe K) (e : Element K) :
    Alike F (fun r s => r.2 = s.2 ∧ ∀ y z {M N}, R M N → Alike F R (r.1 y z M) (s.1 y z N))
      (e.rule charged formula probe) (e.rule charged' formula probe) := by
  cases e with
  | drift length => exact .ok ⟨rfl, h.drift length probe.gamma⟩
  | gap model drive =>
    refine (Alike.of_eq rfl h.fault).map ?_
    rintro profile _ rfl
    exact ⟨rfl, fun y z M N hMN => .ok (h.gap _ y z hMN)⟩

namespace BeamLine

theorem advance_alike (h : ParallelCharges F R charged charged') (line : BeamLine K)
    (model : Option (SpaceCharge K)) (isLast : Bool) (e : Element K) {c d : Cursor K}
    (hcd : c.Beside R d) :
    Alike F (Cursor.Beside R) (line.advance charged isLast e c)
      ({ line with spaceCharge := model }.advance charged' isLast e d) := by
  rw [advance_eq, advance_eq, hcd.probe, hcd.start, hcd.ahead]
  refine (Element.rule_alike h line.formula d.probe e).bind ?_
  rintro ⟨segment, exit⟩ ⟨segment', _⟩ ⟨rfl, hsegment⟩
  refine (throughStops_alike hsegment _ _ _ hcd.map).map ?_
  rintro ⟨Ms, last⟩ ⟨Ns, last'⟩ ⟨hpassed, hlast⟩
  exact ⟨hlast, rfl, rfl, rfl, List.rel_append hcd.passed hpassed⟩

/-- Walks that pass the same elements stay beside each other. -/
theorem passAll_alike (h : ParallelCharges F R charged charged') (line : BeamLine K)
    (model : Option (SpaceCharge K)) (es : List (Element K)) {c d : Cursor K}
    (hcd : c.Beside R d) :
    Alike F (Cursor.Beside R) (line.passAll charged es c)
      ({ line with spaceCharge := model }.passAll charged' es d) := by
  induction es generalizing c d with
  | nil => exact .ok hcd
  | cons e es ih =>
    exact (advance_alike h line model es.isEmpty e hcd).bind fun c' d' hcd' => ih hcd'

/-- The walks through a line with either charge, whatever the model that the line itself has. -/
theorem walk_alike (h : ParallelCharges F R charged charged') (line : BeamLine K)
    (model : Option (SpaceCharge K)) (positions : List K) :
    Alike F (List.Forall₂ R) (line.walk charged positions)
      ({ line with spaceCharge := model }.walk charged' positions) := by
  have hentrance : (line.entrance positions).Beside R
      ({ line with spaceCharge := model }.entrance positions) :=
    ⟨h.entrance, rfl, rfl, rfl, .nil⟩
  refine (Alike.of_eq rfl h.fault).bind fun _ _ _ => ?_
  exact (passAll_alike h line model line.elements hentrance).bind fun c d hcd => .ok hcd.passed

end BeamLine

end BeamOptics
