import BeamOptics.Proofs.CellLayout
import BeamOptics.Linear.Square

/-! Index arithmetic at the ends of the machine's range. Entries, samples and tables are there for every
index whose neighbours are machine integers themselves. Where a neighbour is computed that is none, at
the last index, at both ends of the signed range and for a row without a cell, there is no result. -/

namespace BeamOptics

variable {K : Type}

/-- The outcome of a replacement in a table of `n` places: past the end the place behind the requested
one is computed for the report. -/
theorem Index.replaced_iff {α : Type} {x : Except (Fault K) α} {n k : ℕ} (hn : n < limit)
    (hinside : k < n → ∃ a, x = .ok a)
    (hpast : n ≤ k → x = (ofNat (k + 1)).bind fun found => .error (.dimension n found)) :
    (∃ a, x = .ok a) ∨ x = .error (.dimension n (k + 1)) ↔ k + 1 < limit := by
  rcases lt_or_ge k n with hk | hk
  · exact iff_of_true (Or.inl (hinside hk)) (by omega)
  · -- Past the end the fault reports a dimension, which is one more than the index and may not
    -- exist.
    by_cases hnext : k + 1 < limit
    · have hfound : (ofNat (k + 1) : Except (Fault K) ℕ) = .ok (k + 1) := if_pos hnext
      refine iff_of_true (Or.inr ?_) hnext
      rw [hpast hk, hfound]
      rfl
    · have hnone : (ofNat (k + 1) : Except (Fault K) ℕ) = .error .indexRange := if_neg hnext
      have hfault : x = .error .indexRange := by
        rw [hpast hk, hnone]
        rfl
      refine iff_of_false ?_ hnext
      rw [hfault]
      rintro (⟨a, ha⟩ | h)
      · cases ha
      · cases h

theorem Vec.set_iff (v : Vec K) (i : ℕ) (x : K) (h : v.dim < Index.limit) :
    (∃ w, v.set i x = .ok w) ∨ v.set i x = .error (.dimension v.dim (i + 1)) ↔
      i + 1 < Index.limit :=
  Index.replaced_iff h (fun hi => ⟨_, if_pos hi⟩) fun hi => if_neg (not_lt.mpr hi)

theorem Square.set_iff (A : Square K) (i j : ℕ) (x : K) (h : A.dim < Index.limit) :
    (∃ B, A.set i j x = .ok B) ∨ A.set i j x = .error (.dimension A.dim (max i j + 1)) ↔
      max i j + 1 < Index.limit := by
  apply Index.replaced_iff h
  · intro hinside
    refine ⟨_, map_eq_ok.mpr ⟨_, dif_pos (max_lt_iff.mp hinside), rfl⟩⟩
  · intro hpast
    have hentry : A.mat.set i j x =
        (Index.ofNat (max i j + 1)).bind fun found => .error (.dimension A.dim found) :=
      dif_neg fun hinside => hpast.not_gt (max_lt hinside.1 hinside.2)
    rw [set, hentry]
    cases (Index.ofNat (max i j + 1) : Except (Fault K) ℕ) with
    | error f => rfl
    | ok found => rfl

variable [Scalar K]

namespace Profile

theorem sample_inside (p : Profile K) {k : ℕ} (hk : k < p.size) :
    p.samples[k]? = some (p.sample k) := by
  have hnat : ¬ (k : ℤ) < 0 := by omega
  have hsize : k < p.samples.size := hk
  rw [sample, if_neg hnat, Int.toNat_natCast]
  simp [hsize]

/-- Indices outside the profile read zero. -/
theorem sample_outside (p : Profile K) {i : ℤ} (h : i < 0 ∨ p.size ≤ i) : p.sample i = 0 := by
  unfold sample
  split_ifs with hi
  · rfl
  · have hsize : p.samples.size ≤ i.toNat := by
      unfold size at h
      omega
    simp [hsize]

/-- Both neighbours of an index are computed, whether there are samples or not. -/
theorem derivative_iff (p : Profile K) (i : ℤ) :
    p.derivative i = .ok (p.slope i) ↔ Index.signedMin < i ∧ i < Index.signedMax := by
  have hinside (j : ℤ) : (∃ k, (Index.ofInt j : Except (Fault K) ℤ) = .ok k) ↔
      Index.signedMin ≤ j ∧ j ≤ Index.signedMax := by
    unfold Index.ofInt
    split_ifs with hj
    · exact iff_of_true ⟨j, rfl⟩ hj
    · exact iff_of_false (fun ⟨k, hk⟩ => by cases hk) hj
  -- Both neighbours have to be indices of the machine.
  have hslope : p.derivative i = .ok (p.slope i) ↔
      (∃ k, (Index.ofInt (i + 1) : Except (Fault K) ℤ) = .ok k) ∧
        ∃ k, (Index.ofInt (i - 1) : Except (Fault K) ℤ) = .ok k := by
    unfold derivative
    rw [bind_eq_ok]
    constructor
    · rintro ⟨k, hk, h⟩
      obtain ⟨l, hl, -⟩ := bind_eq_ok.mp h
      exact ⟨⟨k, hk⟩, l, hl⟩
    · rintro ⟨⟨k, hk⟩, l, hl⟩
      exact ⟨k, hk, bind_eq_ok.mpr ⟨l, hl, rfl⟩⟩
  rw [hslope, hinside, hinside]
  unfold Index.signedMin Index.signedMax
  omega

/-- Samples over a length make a profile, or there is something wrong with them. -/
theorem uniform_outcome (length : K) (samples : Array K) :
    (∃ p, uniform length samples = .ok p) ∨
      ∃ cause, uniform length samples = .error (.setup cause) := by
  unfold uniform
  split_ifs
  · exact Or.inr ⟨_, rfl⟩
  · exact Or.inr ⟨_, rfl⟩
  · dsimp only
    unfold mk?
    split
    · exact Or.inl ⟨_, rfl⟩
    · exact Or.inr ⟨_, rfl⟩

end Profile

namespace FieldModel

/-- The counts of a model stay in range: there is a cell, and the machine can address the samples. -/
def CountsInRange : FieldModel K → Prop
  | multiCell cell cells => 0 < cells ∧ Index.Addressable (cell.steps * cells + 1)
  | sampled _ => True
  | transitFit _ => True

/-- A profile is made, or refused for what it describes, exactly if its counts stay in range. -/
theorem profileFor_iff (model : FieldModel K) (probe : Probe K) :
    ((∃ p, model.profileFor probe = .ok p) ∨ ∃ cause, model.profileFor probe = .error (.setup cause)) ↔
      model.CountsInRange := by
  cases model with
  | sampled profile => exact iff_of_true (Or.inl ⟨profile, rfl⟩) trivial
  | transitFit fit => exact iff_of_true (Profile.uniform_outcome _ _) trivial
  | multiCell cell cells =>
    -- Only a row of cells has counts of its own.
    by_cases hrange : (multiCell cell cells).CountsInRange
    · refine iff_of_true ?_ hrange
      obtain ⟨hcells, hcount⟩ := hrange
      rw [profileFor_multiCell_addressable hcells hcount]
      exact Profile.uniform_outcome _ _
    · have hfault : (multiCell cell cells).profileFor probe = .error .indexRange := by
        rcases Nat.eq_zero_or_pos cells with hnone | hcells
        · exact if_pos hnone
        · exact profileFor_multiCell_refused (fun hcount => hrange ⟨hcells, hcount⟩) probe
      refine iff_of_false ?_ hrange
      rw [hfault]
      rintro (⟨p, hp⟩ | ⟨cause, hcause⟩)
      · cases hp
      · cases hcause

end FieldModel

/-- Entries, samples, slopes and tables come out of index arithmetic, or the fault that documents their
absence does, as long as the neighbours of every index are machine integers and every row has a cell. -/
theorem Index.range_kept :
    (∀ (v : Vec K) (i : ℕ) (x : K), v.dim < limit →
      ((∃ w, v.set i x = .ok w) ∨ v.set i x = .error (.dimension v.dim (i + 1)) ↔ i + 1 < limit)) ∧
    (∀ (A : Square K) (i j : ℕ) (x : K), A.dim < limit →
      ((∃ B, A.set i j x = .ok B) ∨ A.set i j x = .error (.dimension A.dim (max i j + 1)) ↔
        max i j + 1 < limit)) ∧
    (∀ (p : Profile K) (i : ℤ),
      (∀ k : ℕ, k < p.size → p.samples[k]? = some (p.sample k)) ∧
      (i < 0 ∨ p.size ≤ i → p.sample i = 0) ∧
      (p.derivative i = .ok (p.slope i) ↔ signedMin < i ∧ i < signedMax)) ∧
    ∀ (model : FieldModel K) (probe : Probe K),
      (∃ p, model.profileFor probe = .ok p) ∨ (∃ cause, model.profileFor probe = .error (.setup cause)) ↔
        model.CountsInRange :=
  ⟨Vec.set_iff, Square.set_iff,
    fun p i => ⟨fun _ => p.sample_inside, p.sample_outside, p.derivative_iff i⟩,
    FieldModel.profileFor_iff⟩

theorem Index.range_kept_edges :
    (⟨[1, 2]⟩ : Vec ℝ).dim < limit ∧
      ((∃ w, (⟨[1, 2]⟩ : Vec ℝ).set 18446744073709551614 3 = .ok w) ∨
        (⟨[1, 2]⟩ : Vec ℝ).set 18446744073709551614 3 = .error (.dimension 2 18446744073709551615)) ∧
      (Square.identity 2 : Square ℝ).dim < limit ∧
      ((∃ B, (Square.identity 2 : Square ℝ).set 1 0 3 = .ok B) ∨
        (Square.identity 2 : Square ℝ).set 1 0 3 = .error (.dimension 2 2)) ∧
      Passage.hump.samples[2]? = some (Passage.hump.sample 2) ∧
      Passage.hump.sample 9223372036854775807 = 0 ∧
      Passage.hump.derivative 9223372036854775806 =
        .ok (Passage.hump.slope 9223372036854775806) ∧
      ((∃ p, (FieldModel.multiCell Passage.hump 3).profileFor BeamLine.rampLine.probe = .ok p) ∨
        ∃ cause, (FieldModel.multiCell Passage.hump 3).profileFor BeamLine.rampLine.probe =
          .error (.setup cause)) := by
  obtain ⟨hvec, hsquare, hprofile, hmodel⟩ := Index.range_kept (K := ℝ)
  have hdim : (⟨[1, 2]⟩ : Vec ℝ).dim < limit := by decide
  have horder : (Square.identity 2 : Square ℝ).dim < limit := by decide
  have hcells : (FieldModel.multiCell Passage.hump 3).CountsInRange := by
    have hsteps : Passage.hump.steps = 2 := rfl
    norm_num [FieldModel.CountsInRange, Addressable, numberSize, signedMax, hsteps]
  refine ⟨hdim, (hvec _ _ 3 hdim).mpr (by decide), horder, (hsquare _ 1 0 3 horder).mpr (by decide),
    (hprofile Passage.hump 2).1 2 (by decide),
    ((hprofile Passage.hump 9223372036854775807).2.1 (Or.inr (by decide))).trans Scalar.real_zero,
    (hprofile Passage.hump 9223372036854775806).2.2.mpr (by decide), (hmodel _ _).mpr hcells⟩

/-- At the ends of the range, and for a row without a cell, index arithmetic leaves the range: there
is no result where the documented one is a zero slope or a fault of the description. -/
theorem Index.range_left :
    (¬ ∃ y, Passage.hump.derivative 9223372036854775807 = .ok y) ∧
      (¬ ∃ y, Passage.hump.derivative (-9223372036854775808) = .ok y) ∧
      Passage.hump.slope 9223372036854775807 = 0 ∧
      (⟨[1, 2]⟩ : Vec ℝ).set 18446744073709551615 3 = .error .indexRange ∧
      (Square.identity 2 : Square ℝ).set 0 18446744073709551615 3 = .error .indexRange ∧
      (FieldModel.multiCell Passage.hump 0).profileFor BeamLine.rampLine.probe =
        .error .indexRange := by
  have hnone {i : ℤ} (h : Passage.hump.derivative i = .error .indexRange) :
      ¬ ∃ y, Passage.hump.derivative i = .ok y := by
    rw [h]
    rintro ⟨y, hy⟩
    cases hy
  have hslope : Passage.hump.slope 9223372036854775807 = 0 := by
    rw [Profile.slope, Passage.hump.sample_outside (Or.inr (by decide)),
      Passage.hump.sample_outside (Or.inr (by decide)), sub_self, zero_div]
  exact ⟨hnone rfl, hnone rfl, hslope, rfl, rfl, rfl⟩

end BeamOptics
