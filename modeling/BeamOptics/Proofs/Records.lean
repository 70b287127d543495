import Mathlib.Data.List.Nodup
import BeamOptics.Json.Decoding

/-! Reading a record back. A reader looks for each field of a record by its name, so what it finds is
what was written under that name and nothing where no field was written; a choice is found by its tag,
with the record of its variant around it. -/

namespace BeamOptics.Json

variable {K : Type}

/-! ### Fields by name -/

def givenMembers (fields : List (String × Option (Json K))) : List (Option String × Json K) :=
  (fields.filterMap fun f => f.2.map (f.1, ·)).map fun (k, v) => (some k, v)

def given (fields : List (String × Option (Json K))) : Json K := .object (givenMembers fields)

theorem givenMembers_cons (name : String) (value : Option (Json K))
    (fields : List (String × Option (Json K))) :
    givenMembers ((name, value) :: fields) =
      (value.map (some name, ·)).toList ++ givenMembers fields := by
  cases value with
  | none => rfl
  | some v => rfl

/-- A name that is not the first one is looked up among the others. -/
theorem named_cons (name key : String) (value : Option (Json K))
    (fields : List (String × Option (Json K))) :
    named (givenMembers ((key, value) :: fields)) name =
      (if key = name then value.toList else []) ++ named (givenMembers fields) name := by
  rw [givenMembers_cons]
  cases value with
  | none => simp [named]
  | some v =>
    by_cases h : key = name
    · simp [named, h]
    · simp [named, h]

theorem named_of_not_mem {fields : List (String × Option (Json K))} {name : String}
    (h : name ∉ fields.map (·.1)) : named (givenMembers fields) name = [] := by
  induction fields with
  | nil => rfl
  | cons f fields ih =>
    rw [List.map_cons, List.mem_cons, not_or] at h
    rw [named_cons, if_neg (Ne.symm h.1), ih h.2, List.append_nil]

/-- A name stands for what is given under it, once or not at all. -/
theorem named_of_mem {fields : List (String × Option (Json K))} {name : String}
    {value : Option (Json K)} (hnodup : (fields.map (·.1)).Nodup) (h : (name, value) ∈ fields) :
    named (givenMembers fields) name = value.toList := by
  induction fields with
  | nil => cases h
  | cons f fields ih =>
    obtain ⟨hnew, hnodup⟩ := List.nodup_cons.mp hnodup
    rcases List.mem_cons.mp h with rfl | h
    · rw [named_cons, if_pos rfl, named_of_not_mem hnew, List.append_nil]
    · have hne : f.1 ≠ name := by
        rintro rfl
        exact hnew (List.mem_map_of_mem (f := (·.1)) h)
      rw [named_cons, if_neg hne, ih hnodup h, List.nil_append]

/-- At most one value is found if at most one is given. -/
theorem atMostOne?_toList {α : Type} (value : Option α) :
    atMostOne? value.toList = some value := by
  cases value with
  | none => rfl
  | some v => rfl

theorem mapM_eq_some {α β : Type} {f : α → Option β} {g : α → β} {xs : List α}
    (h : ∀ x ∈ xs, f x = some (g x)) : xs.mapM f = some (xs.map g) := by
  induction xs with
  | nil => rfl
  | cons x xs ih =>
    obtain ⟨hx, hxs⟩ := List.forall_mem_cons.mp h
    rw [List.mapM_cons, hx, ih hxs]
    rfl

/-- The slots of a record hold the fields that are given, each in its own. -/
theorem slots?_given (names : List String) (values : List (Option (Json K)))
    (hnodup : names.Nodup) (hlength : values.length = names.length) :
    slots? names (given (names.zip values)) = some values := by
  obtain ⟨fields, hfields⟩ : ∃ fields, fields = names.zip values := ⟨_, rfl⟩
  have hnames : fields.map (·.1) = names := hfields ▸ List.map_fst_zip (Nat.le_of_eq hlength.symm)
  have hvalues : fields.map (·.2) = values := hfields ▸ List.map_snd_zip (Nat.le_of_eq hlength)
  have hall : (givenMembers fields).all (·.1.isSome) = true := by
    rw [givenMembers, List.all_map, List.all_eq_true]
    exact fun _ _ => rfl
  have hslot : ∀ f ∈ fields, atMostOne? (named (givenMembers fields) f.1) = some f.2 := by
    intro f hf
    rw [named_of_mem (hnames ▸ hnodup) hf, atMostOne?_toList]
  rw [← hfields, ← hnames, ← hvalues]
  change (if (givenMembers fields).all (·.1.isSome) then _ else none) = _
  rw [if_pos hall, List.mapM_map]
  exact mapM_eq_some hslot

/-! ### Soundness and depth -/

structure Within (d : ℕ) (v : Json K) : Prop where
  isSound : v.isSound = true
  depth : v.depth ≤ d

namespace Within

variable {d e : ℕ} {v : Json K}

theorem mono (h : Within d v) (hde : d ≤ e) : Within e v := ⟨h.isSound, Nat.le_trans h.depth hde⟩

theorem null : Within d (.null : Json K) := ⟨rfl, Nat.zero_le d⟩

theorem nat (n : ℕ) : Within d (.nat n : Json K) := ⟨rfl, Nat.zero_le d⟩

theorem string (s : String) : Within d (.string s : Json K) := ⟨rfl, Nat.zero_le d⟩

theorem real [Scalar K] (x : K) : Within d (.real x) := by
  unfold Json.real
  split
  · exact ⟨rfl, Nat.zero_le d⟩
  · exact null

/-- Items at most `d` deep make an array at most one deeper. -/
theorem array {items : List (Json K)} (h : ∀ v ∈ items, Within d v) :
    Within (d + 1) (.array items) := by
  have hitems : isSound.allItems items = true ∧ depth.depthOfItems items ≤ d := by
    induction items with
    | nil => exact ⟨rfl, Nat.zero_le d⟩
    | cons v vs ih =>
      obtain ⟨hv, hvs⟩ := List.forall_mem_cons.mp h
      obtain ⟨hsound, hdepth⟩ := ih hvs
      refine ⟨?_, Nat.max_le.mpr ⟨hv.depth, hdepth⟩⟩
      rw [isSound.allItems, hv.isSound, hsound, Bool.true_and]
  refine ⟨hitems.1, ?_⟩
  rw [Json.depth]
  omega

/-- So do the values of a record. -/
theorem record {members : List (String × Json K)} (h : ∀ m ∈ members, Within d m.2) :
    Within (d + 1) (.record members) := by
  have hmembers : isSound.allMembers (members.map fun (k, v) => (some k, v)) = true ∧
      depth.depthOfMembers (members.map fun (k, v) => (some k, v)) ≤ d := by
    induction members with
    | nil => exact ⟨rfl, Nat.zero_le d⟩
    | cons m ms ih =>
      obtain ⟨hm, hms⟩ := List.forall_mem_cons.mp h
      obtain ⟨hsound, hdepth⟩ := ih hms
      refine ⟨?_, Nat.max_le.mpr ⟨hm.depth, hdepth⟩⟩
      rw [List.map_cons, isSound.allMembers, hm.isSound, hsound]
      rfl
  refine ⟨hmembers.1, ?_⟩
  rw [Json.record, Json.depth, Nat.add_comm]
  exact Nat.add_le_add_right hmembers.2 1

end Within

/-! ### Choices -/

/-- A variant is found by the tag in front of its fields. -/
theorem variant?_record {tag name : String} {variants : List String} {level d : ℕ} (inner : Bool)
    {fields : List (String × Json K)} (hname : name ∈ variants) (htag : tag ∉ fields.map (·.1))
    (hfields : ∀ f ∈ fields, Within d f.2) (hlevel : level + (d + 1) ≤ depthLimit) :
    variant? tag variants level inner (.record ((tag, .string name) :: fields)) =
      some (name, .record fields) := by
  have hwithin : Within (d + 1) (.record ((tag, .string name) :: fields)) :=
    .record (List.forall_mem_cons.mpr ⟨.string name, hfields⟩)
  have hdepth := hwithin.depth
  -- No field has the tag's name, so the tag is there once and leaves the fields when it is taken out.
  obtain ⟨members, hmembers⟩ : ∃ members, members = fields.map fun f => (some f.1, f.2) := ⟨_, rfl⟩
  have hother : ∀ m ∈ members, m.1 ≠ some tag := by
    rw [hmembers, List.forall_mem_map]
    intro f hf heq
    exact htag (Option.some.inj heq ▸ List.mem_map_of_mem hf)
  have hnamed : named ((some tag, .string name) :: members) tag = [.string name] := by
    have hnone : members.filter (·.1 = some tag) = [] :=
      List.filter_eq_nil_iff.mpr fun m hm => by simpa using hother m hm
    rw [named, List.filter_cons_of_pos (by simp), hnone]
    rfl
  have hrest : ((some tag, Json.string name) :: members).filter (·.1 ≠ some tag) = members := by
    rw [List.filter_cons_of_neg (by simp)]
    exact List.filter_eq_self.mpr fun m hm => by simpa using hother m hm
  have hobject : Json.record ((tag, .string name) :: fields) =
      .object ((some tag, .string name) :: members) := by
    rw [hmembers]
    rfl
  rw [hobject] at hwithin hdepth ⊢
  unfold variant?
  dsimp only
  rw [if_neg (by simp [hwithin.isSound]; omega), hnamed, hrest, hmembers]
  simp [atMostOne?, Json.string, hname]
  rfl

end BeamOptics.Json
