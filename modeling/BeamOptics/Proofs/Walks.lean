import BeamOptics.Proofs.RealScalar
import BeamOptics.Proofs.Outcomes
import BeamOptics.Line.BeamLine

/-! Lines as their constructors give them, and the passage of one element of a walk: its rule for
extending maps, the positions that are its stops and those left for the elements behind it. -/

namespace BeamOptics

def Cursor.only {K : Type} (c : Cursor K) (ps : List K) : Cursor K :=
  { c with ahead := ps, passed := [] }

namespace Element

variable {K : Type} [Scalar K]

/-- How an element extends a map between two places in it, and the particle behind it. -/
def rule (charged : Option (ChargedBeam K)) (formula : LongitudinalFormula) (probe : Probe K) :
    Element K →
      Except (Fault K) ((K → K → PhaseMap K → Except (Fault K) (PhaseMap K)) × Probe K)
  | .drift length => .ok (driftSegment charged length probe.gamma, probe)
  | .gap model drive =>
    (model.profileFor probe).map fun profile =>
      let passage := Passage.of profile drive probe formula
      (fun a b acc => .ok (passage.transportBetween a b * acc), passage.exitProbe)

end Element

namespace BeamLine

variable {K : Type} [Scalar K]

/-- A line that the constructors give: elements that were accepted, any formula, and no space charge
or an accepted model of it. -/
inductive Built : BeamLine K → Prop
  | new {probe : Probe K} {elements : List (Element K)} {line : BeamLine K}
      (h : mk? probe elements = .ok line) : Built line
  | withFormula {line : BeamLine K} (formula : LongitudinalFormula) (h : Built line) :
      Built { line with formula }
  | withSpaceCharge {line : BeamLine K} {perveance longitudinal sliceLength : K}
      {model : SpaceCharge K}
      (hm : SpaceCharge.mk? perveance longitudinal sliceLength = .ok model) (h : Built line) :
      Built { line with spaceCharge := some model }

theorem lengthFault?_eq_none {es : List (Element K)} {i : ℕ} (h : lengthFault? i es = none) :
    ∀ e ∈ es, Scalar.isPositive e.length = true := by
  induction es generalizing i with
  | nil => simp
  | cons e es ih =>
    rw [lengthFault?] at h
    split_ifs at h with he
    exact List.forall_mem_cons.mpr ⟨he, ih h⟩

/-- A line is made of elements that are there and have positive lengths, and as they are given. -/
theorem mk?_eq_ok {probe : Probe K} {elements : List (Element K)} {line : BeamLine K}
    (h : mk? probe elements = .ok line) :
    line = { probe, elements } ∧ elements ≠ [] ∧
      ∀ e ∈ elements, Scalar.isPositive e.length = true := by
  unfold mk? at h
  split_ifs at h with hnil
  cases hfault : lengthFault? 0 elements with
  | some cause => simp [hfault] at h
  | none =>
    simp only [hfault, Except.ok.injEq] at h
    exact ⟨h.symm, by simpa using hnil, lengthFault?_eq_none hfault⟩

theorem Built.elements_spec {line : BeamLine K} (h : line.Built) :
    line.elements ≠ [] ∧ ∀ e ∈ line.elements, Scalar.isPositive e.length = true := by
  induction h with
  | new h =>
    obtain ⟨rfl, hnil, hpos⟩ := mk?_eq_ok h
    exact ⟨hnil, hpos⟩
  | withFormula formula _ ih => exact ih
  | withSpaceCharge hm _ ih => exact ih

theorem Built.ne_nil {line : BeamLine K} (h : line.Built) : line.elements ≠ [] :=
  h.elements_spec.1

theorem Built.length_pos {line : BeamLine ℝ} (h : line.Built) :
    ∀ e ∈ line.elements, 0 < e.length := by
  intro e he
  simpa using h.elements_spec.2 e he

theorem lengthFault?_of_isPositive {es : List (Element K)} (i : ℕ)
    (h : ∀ e ∈ es, Scalar.isPositive e.length = true) : lengthFault? i es = none := by
  induction es generalizing i with
  | nil => rfl
  | cons e es ih =>
    obtain ⟨he, hes⟩ := List.forall_mem_cons.mp h
    rw [lengthFault?, if_pos he]
    exact ih (i + 1) hes

theorem mk?_of_isPositive (probe : Probe K) {elements : List (Element K)} (hne : elements ≠ [])
    (hpos : ∀ e ∈ elements, Scalar.isPositive e.length = true) :
    mk? probe elements = .ok { probe, elements } := by
  rw [mk?, if_neg (by simpa using hne), lengthFault?_of_isPositive 0 hpos]

/-- Other elements that are accepted can take the place of a line's own. -/
theorem Built.withElements {line : BeamLine K} (h : line.Built) {es : List (Element K)}
    (hne : es ≠ []) (hpos : ∀ e ∈ es, Scalar.isPositive e.length = true) (q : Probe K) :
    Built { line with probe := q, elements := es } := by
  induction h with
  | new h =>
    obtain ⟨rfl, -, -⟩ := mk?_eq_ok h
    exact .new (mk?_of_isPositive q hne hpos)
  | withFormula formula _ ih => exact .withFormula formula ih
  | withSpaceCharge hm _ ih => exact .withSpaceCharge hm ih

/-! ### Positions -/

/-- The sign of zero that the sum starts from does not matter. -/
theorem length_eq_sum (line : BeamLine ℝ) :
    line.length = (line.elements.map Element.length).sum := by
  have hfold (es : List (Element ℝ)) (x : ℝ) :
      es.foldl (fun acc e => acc + e.length) x = x + (es.map Element.length).sum := by
    induction es generalizing x with
    | nil => simp
    | cons e es ih =>
      rw [List.foldl_cons, ih, List.map_cons, List.sum_cons]
      ring
  rw [length, hfold, Scalar.real_zero, neg_zero, zero_add]

/-- Accepted positions are in ascending order and lie in the line, up to the slack at its end. -/
theorem checkPositions_eq_ok {total last : ℝ} {ps : List ℝ} (hlast : 0 ≤ last) :
    checkPositions total last ps = .ok () ↔
      (last :: ps).Pairwise (· ≤ ·) ∧ ∀ p ∈ ps, p ≤ total + positionSlack := by
  induction ps generalizing last with
  | nil => simp [checkPositions]
  | cons p ps ih =>
    have hstep : checkPositions total last (p :: ps) = .ok () ↔
        (0 ≤ p ∧ p ≤ total + positionSlack) ∧ last ≤ p ∧ checkPositions total p ps = .ok () := by
      rw [checkPositions]
      -- Outside the line, out of order, or accepted so far.
      split_ifs with hout horder
      · have hnot : ¬ (0 ≤ p ∧ p ≤ total + positionSlack) := by
          rw [not_and_or, not_le, not_le]
          simpa using hout
        simp [hnot]
      · simp [not_le.mpr horder]
      · have hin : 0 ≤ p ∧ p ≤ total + positionSlack := by simpa using hout
        simp [hin, not_lt.mp horder]
    rw [hstep]
    constructor
    · rintro ⟨⟨hp, hend⟩, hle, hrest⟩
      obtain ⟨hs, hin⟩ := (ih hp).mp hrest
      refine ⟨List.pairwise_cons.mpr ⟨?_, hs⟩, List.forall_mem_cons.mpr ⟨hend, hin⟩⟩
      exact List.forall_mem_cons.mpr
        ⟨hle, fun q hq => hle.trans ((List.pairwise_cons.mp hs).1 q hq)⟩
    · rintro ⟨hs, hin⟩
      obtain ⟨hfirst, hrest⟩ := List.pairwise_cons.mp hs
      obtain ⟨hend, hin⟩ := List.forall_mem_cons.mp hin
      have hle : last ≤ p := hfirst p (List.mem_cons_self ..)
      have hp : 0 ≤ p := hlast.trans hle
      exact ⟨⟨hp, hend⟩, hle, (ih hp).mpr ⟨hrest, hin⟩⟩

/-! ### One element of a walk -/

section Advance

variable (line : BeamLine K) (charged : Option (ChargedBeam K))

def due (isLast : Bool) (finish : K) (ps : List K) : List K :=
  if isLast then ps else ps.takeWhile (· ≤ finish)

def left (isLast : Bool) (finish : K) (ps : List K) : List K :=
  if isLast then [] else ps.dropWhile (· ≤ finish)

/-- The stops of an element and the positions that are left are all positions. -/
theorem due_append_left (isLast : Bool) (finish : K) (ps : List K) :
    due isLast finish ps ++ left isLast finish ps = ps := by
  cases isLast with
  | true => simp [due, left]
  | false => simp [due, left]

/-- A position in the element is its next stop. -/
theorem due_cons {isLast : Bool} {finish p : K} (h : isLast = true ∨ p ≤ finish) (ps : List K) :
    due isLast finish (p :: ps) = p :: due isLast finish ps ∧
      left isLast finish (p :: ps) = left isLast finish ps := by
  cases isLast with
  | true => exact ⟨rfl, rfl⟩
  | false =>
    have hle : p ≤ finish := h.resolve_left Bool.false_ne_true
    simp [due, left, hle]

/-- Where the next position lies behind the element, none is a stop of it. -/
theorem due_nil {isLast : Bool} {finish : K} {ps : List K}
    (h : ∀ p ∈ ps.head?, ¬ (isLast = true ∨ p ≤ finish)) :
    due isLast finish ps = [] ∧ left isLast finish ps = ps := by
  cases ps with
  | nil =>
    cases isLast with
    | true => exact ⟨rfl, rfl⟩
    | false => exact ⟨rfl, rfl⟩
  | cons p ps =>
    obtain ⟨hlast, hlt⟩ := not_or.mp (h p rfl)
    simp [due, left, hlast, hlt]

/-- One element passed: its rule, the maps at its stops, and the cursor behind it. -/
theorem advance_eq (isLast : Bool) (e : Element K) (c : Cursor K) :
    line.advance charged isLast e c =
      e.rule charged line.formula c.probe >>= fun r =>
        (throughStops r.1 e.length
          ((due isLast (c.start + e.length) c.ahead).map (· - c.start)) 0 c.map).map fun t =>
            ⟨t.2, r.2, c.start + e.length, left isLast (c.start + e.length) c.ahead,
              c.passed ++ t.1⟩ := by
  cases e with
  | drift length => rfl
  | gap model drive =>
    change model.profileFor c.probe >>= _ = (model.profileFor c.probe).map _ >>= _
    cases model.profileFor c.probe with
    | error f => rfl
    | ok profile => rfl

end Advance

end BeamLine

end BeamOptics
