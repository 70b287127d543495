import BeamOptics.Document.Line
import BeamOptics.Proofs.Records
import BeamOptics.Proofs.Walks

/-! Lines and readings from their documents. Writing loses nothing but numbers that are not finite, and
reading refuses nothing that a constructor has let pass, so what is read back is what was written. -/

namespace BeamOptics

open Json

variable {K : Type} [Scalar K]

/-! ### Values -/

theorem Scalar.isFinite_of_isPositive {x : K} (h : isPositive x = true) : isFinite x = true :=
  (Bool.and_eq_true_iff.mp h).2

namespace Json

omit [Scalar K] in
theorem required_some {α : Type} (f : Json K → Option α) (v : Json K) :
    required f (some v) = f v := rfl

omit [Scalar K] in
theorem defaulted_some {α : Type} (f : Json K → Option α) (default : α) (v : Json K) :
    defaulted f default (some v) = f v := rfl

theorem real?_real {x : K} (h : Scalar.isFinite x = true) : real? (real x) = some x := by
  rw [real, if_pos h]
  rfl

theorem reals?_realList {xs : List K} (h : ∀ x ∈ xs, Scalar.isFinite x = true) :
    reals? (realList xs) = some xs := by
  change (xs.map Json.real).mapM real? = some xs
  rw [List.mapM_map]
  have hall := mapM_eq_some (g := id) fun x hx => real?_real (h x hx)
  rwa [List.map_id] at hall

theorem Within.realList (xs : List K) : Within 1 (realList xs) := by
  refine .array ?_
  rw [List.forall_mem_map]
  exact fun x _ => .real x

end Json

/-! ### Parts of a line -/

namespace Profile

/-- The columns of a profile are accepted as they are. -/
theorem mk?_self (p : Profile K) : mk? p.positions p.samples = .ok p := by
  unfold mk?
  split
  · rfl
  · next hfault =>
    rw [p.accepted] at hfault
    cases hfault

theorem allFinite (p : Profile K) :
    (∀ x ∈ p.positions.toList, Scalar.isFinite x = true) ∧
      ∀ x ∈ p.samples.toList, Scalar.isFinite x = true := by
  have hfault := p.accepted
  unfold fault? at hfault
  split_ifs at hfault with _ _ hfinite
  rw [Bool.not_eq_true', Bool.not_eq_false, Bool.and_eq_true] at hfinite
  rwa [← Array.all_toList, ← Array.all_toList, List.all_eq_true, List.all_eq_true] at hfinite

/-- A profile is checked again when it is read, and passes again. -/
theorem ofJson?_toJson (p : Profile K) : ofJson? p.toJson = some p := by
  -- The columns of an accepted profile are finite, so no number of them is lost on the way.
  have hslots : slots? _ p.toJson = _ :=
    slots?_given ["positions", "samples"]
      [some (realList p.positions.toList), some (realList p.samples.toList)] (by decide) rfl
  simp only [ofJson?, hslots, required_some, reals?_realList p.allFinite.1,
    reals?_realList p.allFinite.2, Array.toArray_toList, mk?_self, Option.bind_eq_bind,
    Option.bind_some]
  rfl

theorem within_toJson (p : Profile K) : Within 2 p.toJson := by
  refine .record ?_
  simp only [List.forall_mem_cons, Within.realList, true_and]
  exact nofun

end Profile

namespace TransitFit

structure AllFinite (f : TransitFit K) : Prop where
  length : Scalar.isFinite f.length = true
  coefficients : ∀ c ∈ f.coefficients, Scalar.isFinite c = true

theorem AllFinite.of_mk? {length : K} {coefficients : List K} {f : TransitFit K}
    (h : mk? length coefficients = .ok f) : f.AllFinite := by
  unfold mk? at h
  split_ifs at h with hlength hcoefficients
  cases h
  simp only [Bool.not_eq_true', Bool.not_eq_false, Bool.or_eq_true, not_or, List.all_eq_true]
    at hlength hcoefficients
  exact ⟨Scalar.isFinite_of_isPositive hlength, hcoefficients.2⟩

theorem ofJson?_toJson {f : TransitFit K} (h : f.AllFinite) : ofJson? f.toJson = some f := by
  have hslots : slots? _ f.toJson = _ :=
    slots?_given ["length", "coefficients"] [some (.real f.length), some (realList f.coefficients)]
      (by decide) rfl
  simp only [ofJson?, hslots, required_some, real?_real h.length, reals?_realList h.coefficients,
    Option.bind_eq_bind, Option.bind_some, Option.pure_def]

theorem within_toJson (f : TransitFit K) : Within 2 f.toJson := by
  refine .record ?_
  simp only [List.forall_mem_cons, Within.real, Within.realList, true_and]
  exact nofun

end TransitFit

namespace Drive

structure AllFinite (d : Drive K) : Prop where
  frequency : Scalar.isFinite d.frequency = true
  amplitude : Scalar.isFinite d.amplitude = true
  entryPhase : Scalar.isFinite d.entryPhase = true

theorem AllFinite.of_mk? {frequency amplitude entryPhase : K} {d : Drive K}
    (h : mk? frequency amplitude entryPhase = .ok d) : d.AllFinite := by
  unfold mk? at h
  split_ifs at h with hfrequency hfinite
  cases h
  simp only [Bool.not_eq_true', Bool.not_eq_false, Bool.or_eq_true, not_or] at hfrequency hfinite
  exact ⟨Scalar.isFinite_of_isPositive hfrequency, hfinite.1, hfinite.2⟩

theorem ofJson?_toJson {d : Drive K} (h : d.AllFinite) : ofJson? d.toJson = some d := by
  have hslots : slots? _ d.toJson = _ :=
    slots?_given ["frequency", "amplitude", "entry_phase"]
      [some (.real d.frequency), some (.real d.amplitude), some (.real d.entryPhase)] (by decide) rfl
  simp only [ofJson?, hslots, required_some, real?_real h.frequency, real?_real h.amplitude,
    real?_real h.entryPhase, Option.bind_eq_bind, Option.bind_some, Option.pure_def]

theorem within_toJson (d : Drive K) : Within 1 d.toJson := by
  refine .record ?_
  simp only [List.forall_mem_cons, Within.real, true_and]
  exact nofun

end Drive

namespace FieldModel

def AllFinite : FieldModel K → Prop
  | sampled _ => True
  | transitFit fit => fit.AllFinite
  | multiCell _ _ => True

inductive Constructed : FieldModel K → Prop
  | sampled (profile : Profile K) : Constructed (.sampled profile)
  | transitFit {length : K} {coefficients : List K} {fit : TransitFit K}
      (h : TransitFit.mk? length coefficients = .ok fit) : Constructed (.transitFit fit)
  | multiCell {cell : Profile K} {cells : ℕ} {model : FieldModel K}
      (h : multiCell? cell cells = .ok model) : Constructed model

/-- The constructors let only finite numbers through. -/
theorem Constructed.allFinite {model : FieldModel K} (h : model.Constructed) : model.AllFinite := by
  cases h with
  | sampled profile => trivial
  | transitFit h => exact .of_mk? h
  | multiCell h =>
    unfold multiCell? at h
    split_ifs at h
    cases h
    trivial

theorem within_toJson (model : FieldModel K) : Within 3 model.toJson := by
  cases model with
  | sampled profile =>
    refine .record ?_
    simp only [List.forall_mem_cons, Within.string, profile.within_toJson, true_and]
    exact nofun
  | transitFit fit =>
    refine .record ?_
    simp only [List.forall_mem_cons, Within.string, fit.within_toJson, true_and]
    exact nofun
  | multiCell cell cells =>
    refine .record ?_
    simp only [List.forall_mem_cons, Within.string, Within.nat, cell.within_toJson, true_and]
    exact nofun

def kinds : List String := ["sampled", "transit-time-fit", "multi-cell"]

/-- A model is read back wherever it stands, unless it is nested too deeply. -/
theorem ofInnerJson?_toJson {model : FieldModel K} (h : model.AllFinite) {level : ℕ} (inner : Bool)
    (hlevel : level + 3 ≤ depthLimit) : ofInnerJson? level inner model.toJson = some model := by
  -- Each variant is found by its kind, and its slots are then read one by one.
  cases model with
  | sampled profile =>
    have hfields : ∀ f ∈ [("profile", profile.toJson)], Within 2 f.2 := by
      simp [profile.within_toJson]
    have hvariant : variant? "kind" kinds level inner (sampled profile).toJson = _ :=
      variant?_record inner (by decide) (by simp) hfields hlevel
    have hslots : slots? _ (.record [("profile", profile.toJson)]) = _ :=
      slots?_given ["profile"] [some profile.toJson] (by decide) rfl
    rw [kinds] at hvariant
    simp only [ofInnerJson?, hvariant, hslots, required_some, profile.ofJson?_toJson,
      Option.bind_eq_bind, Option.bind_some, Option.pure_def]
  | transitFit fit =>
    have hfields : ∀ f ∈ [("fit", fit.toJson)], Within 2 f.2 := by
      simp [fit.within_toJson]
    have hvariant : variant? "kind" kinds level inner (transitFit fit).toJson = _ :=
      variant?_record inner (by decide) (by simp) hfields hlevel
    have hslots : slots? _ (.record [("fit", fit.toJson)]) = _ :=
      slots?_given ["fit"] [some fit.toJson] (by decide) rfl
    rw [kinds] at hvariant
    simp only [ofInnerJson?, hvariant, hslots, required_some, TransitFit.ofJson?_toJson h,
      Option.bind_eq_bind, Option.bind_some, Option.pure_def]
  | multiCell cell cells =>
    have hfields : ∀ f ∈ [("cell", cell.toJson), ("cells", .nat cells)], Within 2 f.2 := by
      simp [cell.within_toJson, Within.nat]
    have hvariant : variant? "kind" kinds level inner (multiCell cell cells).toJson = _ :=
      variant?_record inner (by decide) (by simp) hfields hlevel
    have hslots : slots? _ (.record [("cell", cell.toJson), ("cells", .nat cells)]) = _ :=
      slots?_given ["cell", "cells"] [some cell.toJson, some (.nat cells)] (by decide) rfl
    have hcells : nat? (.nat cells : Json K) = some cells := rfl
    rw [kinds] at hvariant
    simp only [ofInnerJson?, hvariant, hslots, required_some, cell.ofJson?_toJson, hcells,
      Option.bind_eq_bind, Option.bind_some, Option.pure_def]
    rfl

theorem ofJson?_toJson {model : FieldModel K} (h : model.AllFinite) :
    ofJson? model.toJson = some model :=
  ofInnerJson?_toJson h false (by decide)

end FieldModel

namespace Element

def AllFinite : Element K → Prop
  | drift length => Scalar.isFinite length = true
  | gap model drive => model.AllFinite ∧ drive.AllFinite

theorem within_toJson (e : Element K) : Within 4 e.toJson := by
  cases e with
  | drift length =>
    refine .record ?_
    simp [Within.string, Within.real]
  | gap model drive =>
    have hdrive : Within 3 drive.toJson := drive.within_toJson.mono (by decide)
    refine .record ?_
    simp [Within.string, model.within_toJson, hdrive]

/-- An element of finite numbers is read back at the depth at which a line holds it. -/
theorem ofJson?_toJson {e : Element K} (h : e.AllFinite) : ofJson? 2 e.toJson = some e := by
  cases e with
  | drift length =>
    have hfields : ∀ f ∈ [("length", Json.real length)], Within 0 f.2 := by
      simp [Within.real]
    have hvariant : variant? "type" ["drift", "rf-gap"] 2 false (drift length).toJson = _ :=
      variant?_record false (by decide) (by simp) hfields (by decide)
    have hslots : slots? _ (.record [("length", .real length)]) = _ :=
      slots?_given ["length"] [some (.real length)] (by decide) rfl
    simp only [ofJson?, hvariant, hslots, required_some, real?_real h, Option.bind_eq_bind,
      Option.bind_some, Option.pure_def]
  | gap model drive =>
    have hdrive : Within 3 drive.toJson := drive.within_toJson.mono (by decide)
    have hfields : ∀ f ∈ [("model", model.toJson), ("drive", drive.toJson)], Within 3 f.2 := by
      simp [model.within_toJson, hdrive]
    have hvariant : variant? "type" ["drift", "rf-gap"] 2 false (gap model drive).toJson = _ :=
      variant?_record false (by decide) (by simp) hfields (by decide)
    have hslots : slots? _ (.record [("model", model.toJson), ("drive", drive.toJson)]) = _ :=
      slots?_given ["model", "drive"] [some model.toJson, some drive.toJson] (by decide) rfl
    -- Inside an element, a model is a choice inside a choice.
    have hmodel : FieldModel.ofInnerJson? (2 + 1) true model.toJson = some model :=
      FieldModel.ofInnerJson?_toJson h.1 true (by decide)
    simp only [ofJson?, hvariant, hslots, required_some, hmodel, Drive.ofJson?_toJson h.2,
      Option.bind_eq_bind, Option.bind_some, Option.pure_def]
    rfl

end Element

namespace SpaceCharge

structure AllFinite (s : SpaceCharge K) : Prop where
  perveance : Scalar.isFinite s.perveance = true
  longitudinal : Scalar.isFinite s.longitudinalPerveance = true
  sliceLength : Scalar.isFinite s.sliceLength = true

theorem AllFinite.of_mk? {perveance longitudinal sliceLength : K} {s : SpaceCharge K}
    (h : mk? perveance longitudinal sliceLength = .ok s) : s.AllFinite := by
  unfold mk? at h
  dsimp only at h
  split_ifs at h with hperveances hslice
  cases h
  simp only [Bool.not_eq_true', Bool.not_eq_false, Bool.or_eq_true, not_or, Bool.and_eq_true]
    at hperveances hslice
  exact ⟨hperveances.1.2, hperveances.2.2, Scalar.isFinite_of_isPositive hslice⟩

theorem ofJson?_toJson {s : SpaceCharge K} (h : s.AllFinite) : ofJson? s.toJson = some s := by
  have hslots : slots? _ s.toJson = _ :=
    slots?_given ["perveance", "longitudinal_perveance", "slice_length"]
      [some (.real s.perveance), some (.real s.longitudinalPerveance), some (.real s.sliceLength)]
      (by decide) rfl
  simp only [ofJson?, hslots, required_some, real?_real h.perveance, real?_real h.longitudinal,
    real?_real h.sliceLength, Option.bind_eq_bind, Option.bind_some, Option.pure_def]

end SpaceCharge

namespace Probe

structure AllFinite (p : Probe K) : Prop where
  kineticEnergy : Scalar.isFinite p.kineticEnergy = true
  restEnergy : Scalar.isFinite p.restEnergy = true
  charge : Scalar.isFinite p.charge = true

theorem AllFinite.of_mk? {kinetic rest charge : K} {p : Probe K}
    (h : mk? kinetic rest charge = .ok p) : p.AllFinite := by
  unfold mk? at h
  split_ifs at h with hkinetic hrest hcharge
  cases h
  simp only [Bool.not_eq_true', Bool.not_eq_false] at hkinetic hrest hcharge
  exact ⟨Scalar.isFinite_of_isPositive hkinetic, Scalar.isFinite_of_isPositive hrest, hcharge⟩

theorem ofJson?_toJson {p : Probe K} (h : p.AllFinite) : ofJson? p.toJson = some p := by
  have hslots : slots? _ p.toJson = _ :=
    slots?_given ["kinetic_energy", "rest_energy", "charge"]
      [some (.real p.kineticEnergy), some (.real p.restEnergy), some (.real p.charge)]
      (by decide) rfl
  simp only [ofJson?, hslots, required_some, real?_real h.kineticEnergy, real?_real h.restEnergy,
    real?_real h.charge, Option.bind_eq_bind, Option.bind_some, Option.pure_def]

end Probe

omit [Scalar K] in
theorem LongitudinalFormula.ofJson?_toJson (f : LongitudinalFormula) :
    ofJson? (f.toJson : Json K) = some f := by
  cases f <;> rfl

/-! ### Lines -/

namespace BeamLine

structure AllFinite (line : BeamLine K) : Prop where
  probe : line.probe.AllFinite
  elements : ∀ e ∈ line.elements, e.AllFinite
  spaceCharge : ∀ s ∈ line.spaceCharge, s.AllFinite

/-- A line of finite numbers is read back. -/
theorem ofJson?_toJson {line : BeamLine K} (h : line.AllFinite) :
    ofJson? line.toJson = some line := by
  have hslots : slots? _ line.toJson = _ :=
    slots?_given ["probe", "elements", "space_charge", "formula"]
      [some line.probe.toJson, some (.array (line.elements.map Element.toJson)),
        some ((line.spaceCharge.map SpaceCharge.toJson).getD .null), some line.formula.toJson]
      (by decide) rfl
  -- The elements are read at the depth that two levels of nesting leave them.
  have helements : (line.elements.map Element.toJson).mapM (Element.ofJson? 2) =
      some line.elements := by
    rw [List.mapM_map]
    have hall := mapM_eq_some (g := id) fun e he => Element.ofJson?_toJson (h.elements e he)
    rwa [List.map_id] at hall
  have hspaceCharge : nullable SpaceCharge.ofJson?
      ((line.spaceCharge.map SpaceCharge.toJson).getD .null) = some line.spaceCharge := by
    have hfinite := h.spaceCharge
    revert hfinite
    cases line.spaceCharge with
    | none => exact fun _ => rfl
    | some s =>
      intro hfinite
      change (SpaceCharge.ofJson? s.toJson).map some = some (some s)
      rw [SpaceCharge.ofJson?_toJson (hfinite s rfl)]
      rfl
  have hitems : items? (.array (line.elements.map Element.toJson)) =
      some (line.elements.map Element.toJson) := rfl
  simp only [ofJson?, hslots, required_some, defaulted_some, Probe.ofJson?_toJson h.probe, hitems,
    helements, hspaceCharge, line.formula.ofJson?_toJson, Option.bind_eq_bind, Option.bind_some,
    Option.pure_def]

/-- A line whose parts the constructors give as well as the line: its particle, the models and drives
of its gaps and its space charge. -/
inductive Constructed : BeamLine K → Prop
  | new {kinetic rest charge : K} {probe : Probe K} {elements : List (Element K)}
      {line : BeamLine K} (hprobe : Probe.mk? kinetic rest charge = .ok probe)
      (hgaps : ∀ model drive, .gap model drive ∈ elements → model.Constructed ∧
        ∃ frequency amplitude phase, Drive.mk? frequency amplitude phase = .ok drive)
      (h : mk? probe elements = .ok line) : Constructed line
  | withFormula {line : BeamLine K} (formula : LongitudinalFormula) (h : Constructed line) :
      Constructed { line with formula }
  | withSpaceCharge {line : BeamLine K} {perveance longitudinal sliceLength : K}
      {model : SpaceCharge K}
      (hm : SpaceCharge.mk? perveance longitudinal sliceLength = .ok model)
      (h : Constructed line) : Constructed { line with spaceCharge := some model }

/-- The constructors let no number pass that is not finite. -/
theorem Constructed.allFinite {line : BeamLine K} (h : line.Constructed) : line.AllFinite := by
  induction h with
  | new hprobe hgaps h =>
    obtain ⟨rfl, -, hpos⟩ := mk?_eq_ok h
    refine ⟨.of_mk? hprobe, fun e he => ?_, nofun⟩
    cases e with
    | drift length => exact Scalar.isFinite_of_isPositive (hpos _ he)
    | gap model drive =>
      obtain ⟨hmodel, _, _, _, hdrive⟩ := hgaps model drive he
      exact ⟨hmodel.allFinite, .of_mk? hdrive⟩
  | withFormula formula _ ih => exact ⟨ih.probe, ih.elements, ih.spaceCharge⟩
  | withSpaceCharge hm _ ih =>
    refine ⟨ih.probe, ih.elements, fun s hs => ?_⟩
    cases hs
    exact .of_mk? hm

end BeamLine

/-! ### Readings -/

namespace Reading

structure AllFinite (r : Reading K) : Prop where
  position : Scalar.isFinite r.position = true
  sizes : ∀ size ∈ r.sizes.toList, Scalar.isFinite size = true

theorem ofJson?_toJson {r : Reading K} (h : r.AllFinite) : ofJson? r.toJson = some r := by
  have hslots : slots? _ r.toJson = _ :=
    slots?_given ["location", "position", "rms"]
      [some (.string r.location), some (.real r.position), some (realList r.sizes.toList)]
      (by decide) rfl
  have hlocation : string? (.string r.location : Json K) = some r.location := rfl
  simp only [ofJson?, hslots, required_some, hlocation, real?_real h.position,
    reals?_realList h.sizes, Option.bind_eq_bind, Option.bind_some]
  rfl

end Reading

end BeamOptics
