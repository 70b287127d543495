import BeamOptics.Document.Config
import BeamOptics.Proofs.Documents
import BeamOptics.Proofs.RunEndings

/-! Configurations from their documents, whole or with members left out. A member that is left out goes
back to its default, alone: the reader of a section finds every other field as it was written. -/

namespace BeamOptics

open Json

variable {K : Type}

/-! ### Members left out -/

namespace Json

/-- A document without the members that are not kept. A member is known by the names on the way to it,
its own last. Items of arrays have no names and stay as they are. -/
def prune (keep : List String → Bool) (path : List String) : Json K → Json K
  | .object members => .object (pruneMembers path members)
  | v => v
where
  pruneMembers (path : List String) : List (Option String × Json K) → List (Option String × Json K)
    | [] => []
    | (none, v) :: ms => (none, v) :: pruneMembers path ms
    | (some name, v) :: ms =>
      if keep (path ++ [name]) then
        (some name, v.prune keep (path ++ [name])) :: pruneMembers path ms
      else pruneMembers path ms

mutual

theorem prune_all (path : List String) : ∀ v : Json K, v.prune (fun _ => true) path = v
  | .object members => by rw [prune, pruneMembers_all path members]
  | .null | .bool _ | .number _ | .text _ | .array _ => rfl

theorem pruneMembers_all (path : List String) : ∀ members : List (Option String × Json K),
    prune.pruneMembers (fun _ => true) path members = members
  | [] => rfl
  | (none, v) :: ms => by rw [prune.pruneMembers, pruneMembers_all path ms]
  | (some name, v) :: ms => by
    rw [prune.pruneMembers, if_pos rfl, prune_all (path ++ [name]) v, pruneMembers_all path ms]

end

def left? (keep : List String → Bool) (path : List String) (name : String) (v : Json K) :
    Option (Json K) :=
  if keep (path ++ [name]) then some (v.prune keep (path ++ [name])) else none

variable {keep : List String → Bool} {path : List String}

/-- What is left of a record are the fields that are kept, each pruned in turn. -/
theorem prune_record (fields : List (String × Json K)) :
    (record fields).prune keep path =
      given (fields.map fun f => (f.1, left? keep path f.1 f.2)) := by
  have hmembers : prune.pruneMembers keep path (fields.map fun f => (some f.1, f.2)) =
      givenMembers (fields.map fun f => (f.1, left? keep path f.1 f.2)) := by
    induction fields with
    | nil => rfl
    | cons f fields ih =>
      rw [List.map_cons, List.map_cons, givenMembers_cons, prune.pruneMembers, ih, left?]
      split
      · rfl
      · rfl
  exact congrArg Json.object hmembers

/-- The slots of a pruned record hold what is left of each field. -/
theorem slots?_prune (names : List String) (values : List (Json K)) (hnodup : names.Nodup)
    (hlength : values.length = names.length) :
    slots? names ((record (names.zip values)).prune keep path) =
      some (List.zipWith (left? keep path) names values) := by
  have hfields : (names.zip values).map (fun f => (f.1, left? keep path f.1 f.2)) =
      names.zip (List.zipWith (left? keep path) names values) := by
    apply List.ext_getElem
    · simp
    · simp
  rw [prune_record, hfields]
  exact slots?_given names _ hnodup (by simp [hlength])

/-- A field that is left out has its default. -/
theorem defaulted_left? {α : Type} {f : Json K → Option α} {default x : α} {name : String}
    {v : Json K} (h : f (v.prune keep (path ++ [name])) = some x) :
    defaulted f default (left? keep path name v) =
      some (if keep (path ++ [name]) then x else default) := by
  unfold left?
  split
  · exact h
  · rfl

theorem real?_prune [Scalar K] {x : K} (h : Scalar.isFinite x = true) :
    real? ((real x).prune keep path) = some x := by
  rw [real, if_pos h]
  rfl

end Json

/-! ### Numbers in between -/

section

open Float.Model

/-- What is between two finite numbers is finite. -/
theorem unpacked_isFinite {x y z : UnpackedFloat} (hx : x.isFinite = true) (hz : z.isFinite = true)
    (hxy : x.le y = true) (hyz : y.le z = true) : y.isFinite = true := by
  cases y with
  | zero _ => rfl
  | finite _ _ _ _ => rfl
  | notANumber =>
    -- Nothing compares with it.
    cases x <;> cases hxy
  | infinity sign =>
    cases sign with
    | positive =>
      cases z with
      | infinity _ => cases hz
      | notANumber => cases hz
      | zero _ => cases hyz
      | finite _ _ _ _ => cases hyz
    | negative =>
      cases x with
      | infinity _ => cases hx
      | notANumber => cases hx
      | zero _ => cases hxy
      | finite _ _ _ _ => cases hxy

theorem unpacked_le_of_lt {x y : UnpackedFloat} (h : x.lt y = true) : x.le y = true := by
  rw [UnpackedFloat.lt, beq_iff_eq] at h
  rw [UnpackedFloat.le, h]
  rfl

theorem float_le {x y : Float} (h : x ≤ y) : x.toModel.unpack.le y.toModel.unpack = true :=
  of_decide_eq_true h

theorem float_le_of_lt {x y : Float} (h : x < y) : x.toModel.unpack.le y.toModel.unpack = true :=
  unpacked_le_of_lt (of_decide_eq_true h)

end

/-! ### Sections -/

def LogConfig.keeping (kept : String → Bool) (c : LogConfig) : LogConfig where
  level := if kept "level" then c.level else ({} : LogConfig).level
  format := if kept "format" then c.format else ({} : LogConfig).format
  filter := if kept "filter" then c.filter else ({} : LogConfig).filter
  sourceLocation := if kept "source_location" then c.sourceLocation
    else ({} : LogConfig).sourceLocation

/-- A pruned logging configuration is read with defaults for the fields that are gone. -/
theorem LogConfig.ofJson?_prune (keep : List String → Bool) (path : List String) (c : LogConfig) :
    ofJson? ((c.toJson : Json K).prune keep path) =
      some (c.keeping fun name => keep (path ++ [name])) := by
  -- Every slot holds what is left of its field.
  have hslots : slots? _ ((c.toJson : Json K).prune keep path) = _ :=
    slots?_prune ["level", "format", "filter", "source_location"]
      [.string c.level.name, .string c.format.name, (c.filter.map Json.string).getD .null,
        .bool c.sourceLocation] (by decide) rfl
  have hlevel (p : List String) : oneOf? (LogLevel.all.map fun l => (l.name, l))
      ((Json.string c.level.name : Json K).prune keep p) = some c.level := by
    cases c.level <;> rfl
  have hformat (p : List String) : oneOf? (LogFormat.all.map fun f => (f.name, f))
      ((Json.string c.format.name : Json K).prune keep p) = some c.format := by
    cases c.format <;> rfl
  have hfilter (p : List String) : nullable string?
      (((c.filter.map Json.string).getD (.null : Json K)).prune keep p) = some c.filter := by
    cases c.filter <;> rfl
  have hlocation (p : List String) :
      bool? ((Json.bool c.sourceLocation : Json K).prune keep p) = some c.sourceLocation := rfl
  simp only [ofJson?, hslots, List.zipWith_cons_cons, List.zipWith_nil_left,
    defaulted_left? (hlevel _), defaulted_left? (hformat _), defaulted_left? (hfilter _),
    defaulted_left? (hlocation _), Option.bind_eq_bind, Option.bind_some, Option.pure_def]
  rfl

/-- A logging configuration is read back whole. -/
theorem LogConfig.ofJson?_toJson (c : LogConfig) : ofJson? (c.toJson : Json K) = some c := by
  rw [← prune_all [] (c.toJson : Json K), ofJson?_prune]
  rfl

namespace Settings

variable [Scalar K]

def keeping (kept : String → Bool) (s : Settings K) : Settings K where
  maxIterations := if kept "max_iterations" then s.maxIterations
    else (standard : Settings K).maxIterations
  tolerance := if kept "tolerance" then s.tolerance else standard.tolerance
  relaxationFloor := if kept "default_alpha" then s.relaxationFloor else standard.relaxationFloor
  rankTolerance := if kept "rank_tolerance" then s.rankTolerance else standard.rankTolerance

structure AllFinite (s : Settings K) : Prop where
  tolerance : Scalar.isFinite s.tolerance = true
  relaxationFloor : Scalar.isFinite s.relaxationFloor = true
  rankTolerance : Scalar.isFinite s.rankTolerance = true

/-- Pruned settings are read with the standard values for the fields that are gone. -/
theorem ofJson?_prune {s : Settings K} (h : s.AllFinite) (keep : List String → Bool)
    (path : List String) :
    ofJson? (s.toJson.prune keep path) = some (s.keeping fun name => keep (path ++ [name])) := by
  have hslots : slots? _ (s.toJson.prune keep path) = _ :=
    slots?_prune ["max_iterations", "tolerance", "default_alpha", "rank_tolerance"]
      [.nat s.maxIterations, .real s.tolerance, .real s.relaxationFloor, .real s.rankTolerance]
      (by decide) rfl
  have hcap (p : List String) :
      nat? ((Json.nat s.maxIterations : Json K).prune keep p) = some s.maxIterations := rfl
  simp only [ofJson?, hslots, List.zipWith_cons_cons, List.zipWith_nil_left,
    defaulted_left? (hcap _), defaulted_left? (real?_prune h.tolerance),
    defaulted_left? (real?_prune h.relaxationFloor), defaulted_left? (real?_prune h.rankTolerance),
    Option.bind_eq_bind, Option.bind_some, Option.pure_def]
  rfl

/-- The settings are checked one by one, so any of them may go back to a default that is in order. -/
theorem check_keeping (hstandard : (standard : Settings K).check = .ok ()) {s : Settings K}
    (h : s.check = .ok ()) (kept : String → Bool) : (s.keeping kept).check = .ok () := by
  rw [check_eq_ok] at hstandard h ⊢
  obtain ⟨dcap, dtolerance, dfloor, drank⟩ := hstandard
  obtain ⟨hcap, htolerance, hfloor, hrank⟩ := h
  -- Every bound is on one field, and that is either the one of `s` or the default.
  refine ⟨?_, ?_, ?_, ?_⟩ <;>
    (unfold keeping
     dsimp only
     split <;> assumption)

theorem AllFinite.of_check {s : Settings Float} (h : s.check = .ok ()) : s.AllFinite := by
  -- Only the tolerance is tested for being finite. The others are between numbers that are.
  obtain ⟨-, htolerance, ⟨hfloor, hfloor'⟩, hrank, hrank'⟩ := check_eq_ok.mp h
  have hzero : (0 : Float).toModel.unpack.isFinite = true := by decide
  have hone : (1 : Float).toModel.unpack.isFinite = true := by decide
  have htwo : (2 : Float).toModel.unpack.isFinite = true := by decide
  exact ⟨Scalar.isFinite_of_isPositive htolerance,
    unpacked_isFinite hzero htwo (float_le_of_lt hfloor) (float_le hfloor'),
    unpacked_isFinite hzero hone (float_le hrank) (float_le_of_lt hrank')⟩

theorem standard_check : (standard : Settings Float).check = .ok () := by
  rw [check_eq_ok]
  decide

end Settings

/-! ### Whole configurations -/

namespace SolverConfig

/-- The configuration with the fields that are not kept at their defaults, whole sections among them.
A field of a section is kept if the section is. -/
def keeping [Scalar K] (keep : List String → Bool) (c : SolverConfig K) : SolverConfig K where
  estimator := if keep ["estimator"] then c.estimator.keeping fun name => keep ["estimator", name]
    else (standard : SolverConfig K).estimator
  longitudinal := if keep ["longitudinal"] then c.longitudinal
    else (standard : SolverConfig K).longitudinal
  logging := if keep ["logging"] then c.logging.keeping fun name => keep ["logging", name]
    else (standard : SolverConfig K).logging

/-- A pruned configuration is read with defaults for fields and sections that are gone. -/
theorem decode?_prune [Scalar K] {c : SolverConfig K} (h : c.estimator.AllFinite)
    (keep : List String → Bool) :
    decode? (c.toJson.prune keep []) = some (c.keeping keep) := by
  have hslots : slots? _ (c.toJson.prune keep []) = _ :=
    slots?_prune ["estimator", "longitudinal", "logging"]
      [c.estimator.toJson, c.longitudinal.toJson, c.logging.toJson] (by decide) rfl
  have hlongitudinal (p : List String) : LongitudinalFormula.ofJson?
      ((c.longitudinal.toJson : Json K).prune keep p) = some c.longitudinal := by
    cases c.longitudinal <;> rfl
  simp only [decode?, hslots, List.zipWith_cons_cons, List.zipWith_nil_left,
    defaulted_left? (Settings.ofJson?_prune h keep _), defaulted_left? (hlongitudinal _),
    defaulted_left? (c.logging.ofJson?_prune keep _), Option.bind_eq_bind, Option.bind_some,
    Option.pure_def]
  rfl

/-- Accepted settings stay accepted when fields go back to their defaults. -/
theorem check_keeping {c : SolverConfig Float} (h : c.estimator.check = .ok ())
    (keep : List String → Bool) : (c.keeping keep).estimator.check = .ok () := by
  unfold keeping
  dsimp only
  split
  · exact Settings.check_keeping Settings.standard_check h _
  · exact Settings.standard_check

/-- A text that reads as what is left of a configuration gives the configuration, with what is left
out at its default. -/
theorem ofText_prune {c : SolverConfig Float} (h : c.estimator.check = .ok ())
    (keep : List String → Bool) {text : String}
    (htext : Json.read? text = some (c.toJson.prune keep [])) :
    ofText text = .ok (c.keeping keep) := by
  rw [ofText, htext]
  dsimp only
  rw [ofJson, decode?_prune (.of_check h)]
  dsimp only
  rw [check_keeping h]
  rfl

/-- Nothing is left out of a whole document. -/
theorem ofText_read {c : SolverConfig Float} (h : c.estimator.check = .ok ()) {text : String}
    (htext : Json.read? text = some c.toJson) : ofText text = .ok c := by
  rw [← prune_all [] c.toJson] at htext
  rw [ofText_prune h _ htext]
  rfl

end SolverConfig

/-- Everything that is written as a document is read back as it was: lines that the constructors give
or whose numbers are all finite, profiles, field models, drives, readings and configurations of
logging. So is a configuration of the solver in order, from any text that reads as its document, and
where members of it are left out, only they go back to their defaults. -/
theorem documents_read_back :
    (∀ line : BeamLine Float, line.Constructed ∨ line.AllFinite →
      BeamLine.ofJson? line.toJson = some line) ∧
    (∀ profile : Profile Float,
      Profile.mk? profile.positions profile.samples = .ok profile ∧
        Profile.ofJson? profile.toJson = some profile) ∧
    (∀ model : FieldModel Float, model.AllFinite →
      FieldModel.ofJson? model.toJson = some model) ∧
    (∀ drive : Drive Float, drive.AllFinite → Drive.ofJson? drive.toJson = some drive) ∧
    (∀ reading : Reading Float, reading.AllFinite →
      Reading.ofJson? reading.toJson = some reading) ∧
    (∀ logging : LogConfig, LogConfig.ofJson? (logging.toJson : Json Float) = some logging) ∧
    ∀ c : SolverConfig Float, c.estimator.check = .ok () →
      (Json.read? c.toText = some c.toJson → SolverConfig.ofText c.toText = .ok c) ∧
      ∀ (keep : List String → Bool) (text : String),
        Json.read? text = some (c.toJson.prune keep []) →
          SolverConfig.ofText text = .ok (c.keeping keep) ∧
            (c.keeping keep).estimator.check = .ok () := by
  refine ⟨fun line h => ?_, fun p => ⟨p.mk?_self, p.ofJson?_toJson⟩, fun _ => FieldModel.ofJson?_toJson,
    fun _ => Drive.ofJson?_toJson, fun _ => Reading.ofJson?_toJson, LogConfig.ofJson?_toJson,
    fun c hc => ⟨SolverConfig.ofText_read hc, fun keep text htext => ?_⟩⟩
  · exact BeamLine.ofJson?_toJson (h.elim BeamLine.Constructed.allFinite id)
  · exact ⟨SolverConfig.ofText_prune hc keep htext, SolverConfig.check_keeping hc keep⟩

def flatProfile : Profile Float := ⟨#[0, 1], #[1, 1], by decide +kernel⟩

def evenDrive : Drive Float := ⟨1000, 2, 0⟩

def fittedGap : FieldModel Float := .transitFit ⟨1, [1, 2]⟩

def everyKind : BeamLine Float where
  probe := ⟨1000, 2000, 1⟩
  elements := [.drift 1, .gap (.sampled flatProfile) evenDrive,
    .gap fittedGap evenDrive, .gap (.multiCell flatProfile 3) evenDrive]
  spaceCharge := some ⟨1, 0, 2⟩
  formula := .quadratic

theorem everyKind_constructed : everyKind.Constructed := by
  have hdrive : Drive.mk? 1000 2 0 = .ok evenDrive := rfl
  have hfit : TransitFit.mk? 1 [1, 2] = .ok (⟨1, [1, 2]⟩ : TransitFit Float) := rfl
  have hcells : FieldModel.multiCell? flatProfile 3 = .ok (.multiCell flatProfile 3) := rfl
  have hgaps : ∀ model drive, .gap model drive ∈ everyKind.elements → model.Constructed ∧
      ∃ frequency amplitude phase, Drive.mk? frequency amplitude phase = .ok drive := by
    intro model drive h
    simp only [everyKind, List.mem_cons, Element.gap.injEq, reduceCtorEq, false_or,
      List.not_mem_nil, or_false] at h
    obtain ⟨rfl, rfl⟩ | ⟨rfl, rfl⟩ | ⟨rfl, rfl⟩ := h
    · exact ⟨.sampled flatProfile, 1000, 2, 0, hdrive⟩
    · exact ⟨.transitFit hfit, 1000, 2, 0, hdrive⟩
    · exact ⟨.multiCell hcells, 1000, 2, 0, hdrive⟩
  have hprobe : Probe.mk? 1000 2000 1 = .ok everyKind.probe := rfl
  have hline : BeamLine.mk? everyKind.probe everyKind.elements =
      .ok { everyKind with spaceCharge := none, formula := .logRatio } := rfl
  have hcharge : SpaceCharge.mk? 1 0 2 = .ok (⟨1, 0, 2⟩ : SpaceCharge Float) := rfl
  exact .withSpaceCharge hcharge (.withFormula .quadratic (.new hprobe hgaps hline))

def roundReading : Reading Float := ⟨"exit", 4, ⟨1, 1, 2⟩⟩

def quadraticConfig : SolverConfig Float where
  estimator := ⟨40, 0.5, 1, 0⟩
  longitudinal := .quadratic
  logging := { level := .debug, filter := some "trace" }

set_option maxRecDepth 100000 in
theorem quadraticConfig_read : Json.read? quadraticConfig.toText = some quadraticConfig.toJson := by
  rw [SolverConfig.toText, Json.read?, String.toList_ofList]
  rfl

def keptMembers : List (List String) :=
  [["estimator"], ["estimator", "max_iterations"], ["longitudinal"]]

def shortText : String :=
  "\x7b\"estimator\": \x7b\"max_iterations\": 40\x7d, \"longitudinal\": \"quadratic\"\x7d"

set_option maxRecDepth 100000 in
theorem shortText_read :
    Json.read? shortText = some (quadraticConfig.toJson.prune keptMembers.contains []) := by
  rfl

theorem documents_read_back_everyKind :
    everyKind.Constructed ∧ BeamLine.ofJson? everyKind.toJson = some everyKind ∧
      Profile.ofJson? flatProfile.toJson = some flatProfile ∧
      fittedGap.AllFinite ∧ FieldModel.ofJson? fittedGap.toJson = some fittedGap ∧
      evenDrive.AllFinite ∧ Drive.ofJson? evenDrive.toJson = some evenDrive ∧
      roundReading.AllFinite ∧ Reading.ofJson? roundReading.toJson = some roundReading ∧
      quadraticConfig.estimator.check = .ok () ∧
      Json.read? quadraticConfig.toText = some quadraticConfig.toJson ∧
      SolverConfig.ofText quadraticConfig.toText = .ok quadraticConfig ∧
      Json.read? shortText = some (quadraticConfig.toJson.prune keptMembers.contains []) ∧
      SolverConfig.ofText shortText = .ok
        { estimator := { Settings.standard with maxIterations := 40 }, longitudinal := .quadratic } := by
  have hfit : fittedGap.AllFinite := ⟨by decide, by decide⟩
  have hdrive : evenDrive.AllFinite := ⟨by decide, by decide, by decide⟩
  have hreading : roundReading.AllFinite := ⟨by decide, by decide⟩
  have hconfig : quadraticConfig.estimator.check = .ok () := by
    rw [Settings.check_eq_ok]
    decide
  obtain ⟨hlines, hprofiles, hmodels, hdrives, hreadings, -, hconfigs⟩ := documents_read_back
  obtain ⟨hwhole, hpart⟩ := hconfigs quadraticConfig hconfig
  exact ⟨everyKind_constructed, hlines _ (.inl everyKind_constructed), (hprofiles _).2, hfit,
    hmodels _ hfit, hdrive, hdrives _ hdrive, hreading, hreadings _ hreading, hconfig,
    quadraticConfig_read, hwhole quadraticConfig_read, shortText_read,
    (hpart _ _ shortText_read).1⟩

end BeamOptics
