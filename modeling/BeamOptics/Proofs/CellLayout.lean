import BeamOptics.Proofs.LikeFields
import BeamOptics.Proofs.PhysicalBeams

/-! Fields of several cells. The samples of a cell follow each other cell by cell with alternating
sign, and the end of one cell and the start of the next share a sample that is their mean. The count of
the samples is all that can stop the profile, for the machine has to address a table of them. -/

namespace BeamOptics

def Index.Addressable (count : ℕ) : Prop := (numberSize * count : ℤ) ≤ signedMax

theorem Index.ofCount_ok {K : Type} {count : ℕ} (h : Addressable count) :
    (ofCount numberSize count : Except (Fault K) ℕ) = .ok count := if_pos h

theorem Index.ofCount_refused {K : Type} {count : ℕ} (h : ¬ Addressable count) :
    (ofCount numberSize count : Except (Fault K) ℕ) = .error .indexRange := if_neg h

namespace Profile

def steps {K : Type} [Scalar K] (p : Profile K) : ℕ := p.size - 1

theorem steps_pos (p : Profile ℝ) : 0 < p.steps := Nat.sub_pos_of_lt p.two_le_size

theorem size_eq (p : Profile ℝ) : p.size = p.steps + 1 := by
  have := p.two_le_size
  rw [steps]
  omega

theorem length_eq (p : Profile ℝ) : p.length = p.spacing * p.steps := rfl

/-- The profile is a row of `n` copies of a cell. Every other copy is turned over, and neighbours
share the mean of their samples at the boundary. -/
structure IsRow (p cell : Profile ℝ) (n : ℕ) : Prop where
  size : p.size = n * cell.steps + 1
  spacing : p.spacing = cell.spacing
  length : p.length = n * cell.length
  first : p.sample 0 = cell.sample 0
  inside : ∀ k j : ℕ, k < n → 0 < j → j < cell.steps →
    p.sample (k * cell.steps + j : ℕ) = (-1) ^ k * cell.sample j
  boundary : ∀ k : ℕ, 0 < k → k < n → p.sample (k * cell.steps : ℕ) =
    ((-1) ^ (k - 1) * cell.sample cell.steps + (-1) ^ k * cell.sample 0) / 2
  last : p.sample (n * cell.steps : ℕ) = (-1) ^ (n - 1) * cell.sample cell.steps

end Profile

namespace FieldModel

/-- The signs of the cells alternate. -/
theorem cellSign_eq (k : ℕ) : (cellSign k : ℝ) = (-1) ^ k := by
  unfold cellSign
  split_ifs with heven
  · rw [(Nat.even_iff.mpr heven).neg_one_pow, Scalar.real_one]
  · rw [(Nat.odd_iff.mpr (Nat.mod_two_ne_zero.mp heven)).neg_one_pow, Scalar.real_one]

section Samples

variable (cell : Profile ℝ) {n k j : ℕ}

/-- In lists of one length that follow each other, entry `j` of list `k` stands behind `k` lists. -/
theorem getElem?_flatMap_of_length {α β : Type} {xs : List α} {f : α → List β} {m : ℕ}
    (hlength : ∀ x ∈ xs, (f x).length = m) (k : ℕ) {j : ℕ} (hj : j < m) :
    (xs.flatMap f)[k * m + j]? = xs[k]?.bind fun x => (f x)[j]? := by
  induction xs generalizing k with
  | nil => rfl
  | cons x xs ih =>
    obtain ⟨hx, hxs⟩ := List.forall_mem_cons.mp hlength
    rw [List.flatMap_cons]
    cases k with
    | zero =>
      rw [Nat.zero_mul, Nat.zero_add, List.getElem?_append_left (hx ▸ hj)]
      rfl
    | succ k =>
      -- Behind the first list the index is shorter by the length of one.
      have hbehind : (f x).length ≤ (k + 1) * m + j := by
        rw [hx, Nat.succ_mul]
        omega
      have hrest : (k + 1) * m + j - (f x).length = k * m + j := by
        rw [hx, Nat.succ_mul]
        omega
      rw [List.getElem?_append_right hbehind, hrest, ih hxs, List.getElem?_cons_succ]

/-- The sample behind `j` steps of cell `k`. -/
theorem rowSamples_place (hk : k < n) (hj : j < cell.steps) :
    (rowSamples cell n)[k * cell.steps + j]? = some
      (if j = 0 ∧ 0 < k then
        ((-1) ^ (k - 1) * cell.sample cell.steps + (-1) ^ k * cell.sample 0) / 2
      else (-1) ^ k * cell.sample j) := by
  have hcells : ∀ k ∈ List.range n,
      ((List.range cell.steps).map (cellSample cell k)).length = cell.steps := by simp
  have hinside := getElem?_flatMap_of_length hcells k hj
  rw [List.getElem?_range hk, Option.bind_some, List.getElem?_map, List.getElem?_range hj,
    Option.map_some] at hinside
  obtain ⟨hbefore, -⟩ := List.getElem?_eq_some_iff.mp hinside
  rw [rowSamples, ← Profile.steps, List.getElem?_append_left hbefore, hinside]
  simp only [cellSample, cellSign_eq]
  rw [← Profile.steps]
  split_ifs with hboundary
  · rw [hboundary.1]
    rfl
  · rfl

/-- The row ends with the last sample of the cell, in the sign of the last copy. -/
theorem rowSamples_last : (rowSamples cell n)[cell.steps * n]? =
    some ((-1) ^ (n - 1) * cell.sample cell.steps) := by
  have hlength := length_rowSamples cell n
  rw [rowSamples, List.length_append, List.length_singleton, Nat.add_right_cancel_iff] at hlength
  rw [rowSamples, Profile.steps, List.getElem?_append_right hlength.le, hlength, Nat.sub_self,
    cellSign_eq]
  rfl

end Samples

section Profile

variable {cell p : Profile ℝ} {n : ℕ}

theorem profileFor_multiCell_addressable {K : Type} [Scalar K] {cell : Profile K} {n : ℕ}
    (hn : 1 ≤ n) (hcount : Index.Addressable (cell.steps * n + 1)) (probe : Probe K) :
    (multiCell cell n).profileFor probe =
      Profile.uniform (multiCell cell n).length (rowSamples cell n).toArray := by
  rw [profileFor]
  split_ifs with hnone
  · omega
  · rw [Profile.steps] at hcount
    rw [Index.ofCount_ok hcount]
    rfl

/-- Where a table can hold the samples, copies of a cell have a profile, and it spreads the row of
samples over their length. -/
theorem profileFor_multiCell_ok (hn : 1 ≤ n) (hcount : Index.Addressable (cell.steps * n + 1))
    (probe : Probe ℝ) : ∃ p, (multiCell cell n).profileFor probe = .ok p ∧
      p.samples = (rowSamples cell n).toArray ∧ p.length = (multiCell cell n).length := by
  have hlength : 0 < (multiCell cell n).length := mul_pos cell.length_pos (Nat.cast_pos.mpr hn)
  have hsamples : 2 ≤ (rowSamples cell n).toArray.size := by
    have hmany : 1 ≤ cell.steps * n := Nat.mul_pos cell.steps_pos hn
    rw [List.size_toArray, length_rowSamples]
    exact Nat.succ_le_succ hmany
  obtain ⟨p, huniform⟩ := Profile.exists_uniform hlength hsamples
  exact ⟨p, (profileFor_multiCell_addressable hn hcount probe).trans huniform,
    Profile.uniform_samples huniform, Profile.uniform_length huniform⟩

/-- More samples than a table can hold are refused. -/
theorem profileFor_multiCell_refused {K : Type} [Scalar K] {cell : Profile K} {n : ℕ}
    (hcount : ¬ Index.Addressable (cell.steps * n + 1)) (probe : Probe K) :
    (multiCell cell n).profileFor probe = .error .indexRange := by
  rw [profileFor]
  split_ifs with hnone
  · rfl
  · rw [Profile.steps] at hcount
    rw [Index.ofCount_refused hcount]
    rfl

/-- The row of samples, spread over the length of the copies, is laid out as a row of the cell. -/
theorem isRow_of_samples (hn : 1 ≤ n) (hsamples : p.samples = (rowSamples cell n).toArray)
    (hlength : p.length = (multiCell cell n).length) : p.IsRow cell n := by
  have hsize : p.size = n * cell.steps + 1 := by
    rw [Profile.size, hsamples, List.size_toArray, length_rowSamples, Nat.mul_comm, Profile.steps]
  -- Inside the row a sample is read off the list.
  have hsample {i : ℕ} {x : ℝ} (hx : (rowSamples cell n)[i]? = some x) : p.sample i = x := by
    simp [Profile.sample, hsamples, hx]
  have htotal : p.length = n * cell.length := by rw [hlength, length, Scalar.real_count, mul_comm]
  have hsteps : p.steps = n * cell.steps := by rw [Profile.steps, hsize, Nat.add_sub_cancel]
  refine ⟨hsize, ?_, htotal, ?_, fun k j hk hj hjm => ?_, fun k hk hkn => ?_, ?_⟩
  · -- As many steps as those of all cells make up a length as long as all cells.
    have hmany : (n * cell.steps : ℝ) ≠ 0 := by
      exact_mod_cast (Nat.mul_pos hn cell.steps_pos).ne'
    rw [p.length_eq, cell.length_eq, hsteps] at htotal
    push_cast at htotal
    apply mul_right_cancel₀ hmany
    rw [htotal]
    ring
  · have hstart := hsample (rowSamples_place cell hn cell.steps_pos)
    simpa using hstart
  · rw [hsample (rowSamples_place cell hk hjm), if_neg (by omega)]
  · have hhere := hsample (rowSamples_place cell hkn cell.steps_pos)
    rw [if_pos ⟨rfl, hk⟩, Nat.add_zero] at hhere
    exact hhere
  · rw [Nat.mul_comm n]
    exact hsample (rowSamples_last cell)

end Profile

end FieldModel

/-! ### One cell -/

section One

variable {p cell : Profile ℝ}

theorem Profile.IsRow.sample_of_one (h : p.IsRow cell 1) {i : ℕ} (hi : i < cell.size) :
    p.sample i = cell.sample i := by
  rw [cell.size_eq] at hi
  rcases Nat.eq_zero_or_pos i with rfl | hpos
  · exact_mod_cast h.first
  rcases (Nat.le_of_lt_succ hi).lt_or_eq with hlt | rfl
  · have hinside := h.inside 0 i Nat.one_pos hpos hlt
    rwa [zero_mul, zero_add, pow_zero, one_mul] at hinside
  · have hlast := h.last
    rwa [one_mul, Nat.sub_self, pow_zero, one_mul] at hlast

/-- A row of one copy acts on the particle as the cell does. -/
theorem Profile.IsRow.actsAs_of_one (h : p.IsRow cell 1) (drive : Drive ℝ) (probe : Probe ℝ)
    (formula : LongitudinalFormula) :
    (Passage.of p drive probe formula).phases = (Passage.of cell drive probe formula).phases ∧
      (Passage.of p drive probe formula).ActsAs (Passage.of cell drive probe formula) := by
  have hsize : p.size = cell.size := by rw [h.size, one_mul, cell.size_eq]
  have hentry : SameEntry p cell drive drive probe probe := ⟨rfl, rfl, rfl, h.spacing, hsize⟩
  refine Passage.actsAs_of_sameForce hentry rfl (fun i hi => ?_) formula
  rw [h.sample_of_one hi]

end One

namespace FieldModel

/-- Any number of copies of a cell makes a row of them, as long as the machine can address its samples,
and a row of one copy acts as the cell itself. -/
theorem profileFor_multiCell (cell : Profile ℝ) {n : ℕ} (hn : 1 ≤ n) (probe : Probe ℝ) :
    (Index.Addressable (n * cell.steps + 1) →
      ∃ p, (multiCell cell n).profileFor probe = .ok p ∧ p.IsRow cell n ∧
        (n = 1 → ∀ (drive : Drive ℝ) (entry : Probe ℝ) (formula : LongitudinalFormula),
          (Passage.of p drive entry formula).phases =
              (Passage.of cell drive entry formula).phases ∧
            (Passage.of p drive entry formula).ActsAs (Passage.of cell drive entry formula))) ∧
    (¬ Index.Addressable (n * cell.steps + 1) →
      (multiCell cell n).profileFor probe = .error .indexRange) := by
  rw [Nat.mul_comm n]
  refine ⟨fun hcount => ?_, fun hcount => profileFor_multiCell_refused hcount probe⟩
  obtain ⟨p, hp, hsamples, hlength⟩ := profileFor_multiCell_ok hn hcount probe
  have hrow := isRow_of_samples hn hsamples hlength
  refine ⟨p, hp, hrow, ?_⟩
  rintro rfl
  exact hrow.actsAs_of_one

/-- Three copies of a cell with one step, whose inner samples are all boundaries. -/
theorem profileFor_multiCell_ramp :
    Index.Addressable (3 * BeamLine.ramp.steps + 1) ∧
      (∃ p, (multiCell BeamLine.ramp 3).profileFor BeamLine.rampLine.probe = .ok p ∧ p.size = 4 ∧
        p.sample 0 = 150000 ∧ p.sample 1 = -75000 ∧ p.sample 2 = 75000 ∧ p.sample 3 = 0) ∧
      ∃ p, (multiCell Passage.hump 1).profileFor BeamLine.rampLine.probe = .ok p ∧
        p.sample 1 = Passage.hump.sample 1 ∧
        (Passage.of p ⟨80000000, 1, -1⟩ BeamLine.rampLine.probe .quadratic).ActsAs
          (Passage.of Passage.hump ⟨80000000, 1, -1⟩ BeamLine.rampLine.probe .quadratic) := by
  have hsteps : BeamLine.ramp.steps = 1 := rfl
  have hramp : Index.Addressable (3 * BeamLine.ramp.steps + 1) := by
    norm_num [Index.Addressable, Index.numberSize, Index.signedMax, hsteps]
  have hhump : Index.Addressable (1 * Passage.hump.steps + 1) := by
    have hsteps : Passage.hump.steps = 2 := rfl
    norm_num [Index.Addressable, Index.numberSize, Index.signedMax, hsteps]
  obtain ⟨p, hp, hrow, -⟩ := (profileFor_multiCell BeamLine.ramp (by decide) _).1 hramp
  obtain ⟨q, hq, hone, hacts⟩ := (profileFor_multiCell Passage.hump le_rfl _).1 hhump
  -- Neighbouring cells share the mean of the ends of a ramp.
  have hfirst := hrow.boundary 1 (by decide) (by decide)
  have hsecond := hrow.boundary 2 (by decide) (by decide)
  have hlast := hrow.last
  simp only [hsteps, Nat.cast_one, BeamLine.ramp_samples] at hfirst hsecond hlast
  refine ⟨hramp, ⟨p, hp, hrow.size, hrow.first.trans BeamLine.ramp_samples.1, ?_, ?_, ?_⟩, q, hq, ?_,
    (hacts rfl _ _ _).2⟩
  · exact hfirst.trans (by norm_num)
  · exact hsecond.trans (by norm_num)
  · exact hlast.trans (by norm_num)
  · exact hone.sample_of_one (i := 1) (by decide)

/-- So many copies of a cell that a table of their samples is beyond the machine. -/
theorem multiCell_ramp_refused :
    1 ≤ 1152921504606846976 ∧
      ¬ ∃ p, (multiCell BeamLine.ramp 1152921504606846976).profileFor BeamLine.rampLine.probe =
        .ok p := by
  have hsteps : BeamLine.ramp.steps = 1 := rfl
  have hcount : ¬ Index.Addressable (BeamLine.ramp.steps * 1152921504606846976 + 1) := by
    norm_num [Index.Addressable, Index.numberSize, Index.signedMax, hsteps]
  refine ⟨by decide, ?_⟩
  rintro ⟨p, hp⟩
  cases hp.symm.trans (profileFor_multiCell_refused hcount _)

end FieldModel

end BeamOptics
