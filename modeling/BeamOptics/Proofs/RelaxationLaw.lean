import BeamOptics.Proofs.SteadySource

/-! The relaxation factors of a run. Each is the largest among the floor and the candidates of the
planes, and a plane's candidate is taken from the last three increments of the run in that plane.
The trace of a residual operator is at most its norm times the root of its dimension, so no
candidate is above the root of three. -/

namespace BeamOptics

/-! ### Histories -/

namespace History

variable {K : Type}

/-- Of a sequence of pushes a history keeps the last ones, as many as its capacity says. -/
theorem push_rtake (n : ℕ) (pairs : List (Vec K × Vec K)) (argument recursion : Vec K) :
    (⟨n + 1, pairs.rtake (n + 1)⟩ : History K).push argument recursion =
      ⟨n + 1, (pairs ++ [(argument, recursion)]).rtake (n + 1)⟩ := by
  rw [List.rtake_concat_succ]
  unfold push isFull size
  -- A full history gives up its oldest pair; before that it holds the whole sequence.
  by_cases hfull : n + 1 ≤ pairs.length
  · have hlength : (pairs.rtake (n + 1)).length = n + 1 := by
      rw [List.rtake, List.length_drop]
      omega
    have hdrop : (pairs.rtake (n + 1)).drop 1 = pairs.rtake n := by
      rw [List.rtake, List.rtake, List.drop_drop]
      congr 1
      omega
    simp [hlength, hdrop]
  · have hall (m : ℕ) (hm : pairs.length ≤ m) : pairs.rtake m = pairs := by
      rw [List.rtake, Nat.sub_eq_zero_of_le hm, List.drop_zero]
    have hlength : pairs.length ≠ n + 1 := by omega
    simp [hall (n + 1) (by omega), hall n (by omega), hlength]

variable [Scalar K]

/-- A history that is not full suggests nothing. -/
theorem candidate_of_size_ne (h : History K) (rankTolerance : K) (hsize : h.size ≠ h.capacity) :
    h.candidate rankTolerance = .ok none := by
  unfold candidate isFull
  simp [hsize]
  rfl

theorem secantResidual_dim {h : History K} {r : Square K} (hr : h.secantResidual = .ok r) :
    r.dim = h.capacity := by
  unfold secantResidual at hr
  obtain ⟨arguments, -, hr⟩ := bind_eq_ok.mp hr
  obtain ⟨recursions, -, hr⟩ := bind_eq_ok.mp hr
  obtain ⟨jacobian, -, hr⟩ := bind_eq_ok.mp hr
  unfold Square.sub Square.withSameDim at hr
  split at hr
  · cases hr
    rfl
  · cases hr

/-- A candidate is read off a residual operator of positive norm. -/
theorem candidate_eq_some {h : History K} {rankTolerance v : K}
    (hv : h.candidate rankTolerance = .ok (some v)) :
    ∃ r, h.secantResidual = .ok r ∧ Scalar.isPositive r.frobenius = true ∧
      v = Scalar.abs r.trace / r.frobenius := by
  unfold candidate at hv
  split at hv
  · cases hv
  obtain ⟨normalized, -, hv⟩ := bind_eq_ok.mp hv
  split at hv
  · cases hv
  obtain ⟨r, hr, hv⟩ := bind_eq_ok.mp hv
  refine ⟨r, hr, ?_⟩
  change (if Scalar.isPositive r.frobenius = true then
    pure (some (Scalar.abs r.trace / r.frobenius)) else throw _) = _ at hv
  -- The quotient is only returned if its denominator is positive.
  by_cases hpos : Scalar.isPositive r.frobenius = true
  · rw [if_pos hpos] at hv
    cases hv
    exact ⟨hpos, rfl⟩
  · rw [if_neg hpos] at hv
    cases hv

/-- A candidate is at most the root of the capacity. -/
theorem candidate_le_sqrt {h : History ℝ} {rankTolerance v : ℝ}
    (hv : h.candidate rankTolerance = .ok (some v)) : v ≤ √h.capacity := by
  obtain ⟨r, hr, hpos, rfl⟩ := candidate_eq_some hv
  have hnorm : 0 < r.frobenius := by simpa using hpos
  have htrace : |r.trace| ≤ √r.dim * r.frobenius := Mat.abs_trace_le r.mat
  rw [secantResidual_dim hr] at htrace
  rw [Scalar.real_abs, div_le_iff₀ hnorm]
  exact htrace

end History

namespace Estimator

/-! ### The factor that histories lead to -/

section Factor

variable {K : Type} [Scalar K]

/-- The factor so far and the planes passed over so far, with one more plane taken into account. -/
def consider (candidates : Triple (Except (Fault K) (Option K))) (sofar : K × List Plane)
    (p : Plane) : K × List Plane :=
  match candidates.get p with
  | .ok (some value) => (Scalar.maxNum sofar.1 value, sofar.2)
  | .ok none => (sofar.1, sofar.2)
  | .error _ => (sofar.1, sofar.2 ++ [p])

theorem relaxation_eq (settings : Settings K) (h : Histories K) :
    relaxation settings h = Plane.all.foldl (consider (h.candidates settings.rankTolerance))
      (settings.relaxationFloor, []) := rfl

end Factor

theorem isGreatest_insert_max {s : Set ℝ} {a w m : ℝ} (h : IsGreatest (insert (max a w) s) m) :
    IsGreatest (insert a (insert w s)) m := by
  obtain ⟨hmem, hbound⟩ := h
  have hmax : max a w ≤ m := hbound (Set.mem_insert _ _)
  refine ⟨?_, ?_⟩
  · rcases hmem with rfl | hm
    · rcases max_choice a w with ha | hw
      · rw [ha]
        exact Set.mem_insert _ _
      · rw [hw]
        exact Set.mem_insert_of_mem _ (Set.mem_insert _ _)
    · exact Set.mem_insert_of_mem _ (Set.mem_insert_of_mem _ hm)
  · rintro v (rfl | rfl | hv)
    · exact (le_max_left _ _).trans hmax
    · exact (le_max_right _ _).trans hmax
    · exact hbound (Set.mem_insert_of_mem _ hv)

/-- Over any list of planes the factor is the largest of the first one and the candidates. -/
theorem foldl_consider_isGreatest (candidates : Triple (Except (Fault ℝ) (Option ℝ)))
    (ps : List Plane) (sofar : ℝ × List Plane) :
    IsGreatest (insert sofar.1 {v | ∃ p ∈ ps, candidates.get p = .ok (some v)})
      (ps.foldl (consider candidates) sofar).1 := by
  -- The factor so far stands where the floor stood, so it changes along the induction.
  induction ps generalizing sofar with
  | nil => simp
  | cons p ps ih =>
    have hrest := ih (consider candidates sofar p)
    rw [List.foldl_cons]
    cases hp : candidates.get p with
    | error f =>
      have hstep : (consider candidates sofar p).1 = sofar.1 := by simp [consider, hp]
      rw [hstep] at hrest
      simpa [hp] using hrest
    | ok value =>
      cases value with
      | none =>
        have hstep : (consider candidates sofar p).1 = sofar.1 := by simp [consider, hp]
        rw [hstep] at hrest
        simpa [hp] using hrest
      | some w =>
        have hstep : (consider candidates sofar p).1 = max sofar.1 w := by simp [consider, hp]
        have hset : {v | ∃ q ∈ p :: ps, candidates.get q = .ok (some v)} =
            insert w {v | ∃ q ∈ ps, candidates.get q = .ok (some v)} := by
          ext v
          simp [hp, eq_comm]
        rw [hstep] at hrest
        rw [hset]
        exact isGreatest_insert_max hrest

/-- The factor is the greatest of the floor and the candidates. -/
theorem relaxation_isGreatest (settings : Settings ℝ) (h : Histories ℝ) :
    IsGreatest (insert settings.relaxationFloor
      {v | ∃ p, (h.get p).candidate settings.rankTolerance = .ok (some v)})
      (relaxation settings h).1 := by
  have hfold := foldl_consider_isGreatest (h.candidates settings.rankTolerance) Plane.all
    (settings.relaxationFloor, [])
  have hset : {v | ∃ p, (h.get p).candidate settings.rankTolerance = .ok (some v)} =
      {v | ∃ p ∈ Plane.all, (h.candidates settings.rankTolerance).get p = .ok (some v)} := by
    ext v
    simp [Histories.candidates, Plane.mem_all]
  rw [relaxation_eq, hset]
  exact hfold

/-! ### The increments of a run -/

section Increments

variable {K : Type} [Scalar K]

def momentIncrement (p : Plane) (old new : Covariance K) : Vec K :=
  ⟨[(new.moments p).s11 - (old.moments p).s11, (new.moments p).s12 - (old.moments p).s12,
    (new.moments p).s22 - (old.moments p).s22]⟩

/-- From one iteration to the next, the increments of the trial and of its recursion value. -/
def incrementPair (p : Plane) (i j : Iteration K) : Vec K × Vec K :=
  (momentIncrement p i.trial j.trial, momentIncrement p i.recursion j.recursion)

def incrementPairs (p : Plane) (its : List (Iteration K)) : List (Vec K × Vec K) :=
  List.zipWith (incrementPair p) its its.tail

def lastIncrements (p : Plane) (its : List (Iteration K)) : History K :=
  ⟨planeMoments, (incrementPairs p its).rtake planeMoments⟩

/-- One more iteration adds the increments from the one before it. -/
theorem incrementPairs_concat (p : Plane) (its : List (Iteration K)) (i j : Iteration K) :
    incrementPairs p (its ++ [i] ++ [j]) =
      incrementPairs p (its ++ [i]) ++ [incrementPair p i j] := by
  induction its with
  | nil => rfl
  | cons k its ih =>
    cases its with
    | nil => rfl
    | cons l its =>
      change incrementPair p k l :: incrementPairs p (l :: its ++ [i] ++ [j]) =
        incrementPair p k l :: (incrementPairs p (l :: its ++ [i]) ++ [incrementPair p i j])
      rw [ih]

theorem lastIncrements_size_le (p : Plane) (its : List (Iteration K)) :
    (lastIncrements p its).size ≤ its.length - 1 := by
  have hpairs : (incrementPairs p its).length = its.length - 1 := by
    rw [incrementPairs, List.length_zipWith, List.length_tail]
    omega
  have hlast : (lastIncrements p its).size =
      (incrementPairs p its).length - ((incrementPairs p its).length - planeMoments) := by
    rw [History.size, lastIncrements, List.rtake, List.length_drop]
  omega

/-- Fewer than three increments are no full history, so no plane has a candidate. -/
theorem lastIncrements_candidate_of_short (p : Plane) {its : List (Iteration K)}
    (hshort : its.length ≤ 3) (rankTolerance : K) :
    (lastIncrements p its).candidate rankTolerance = .ok none := by
  apply History.candidate_of_size_ne
  have hsize := lastIncrements_size_le p its
  change (lastIncrements p its).size ≠ 3
  omega

/-- The histories of a run hold the last three increments of each plane. -/
theorem historiesOf_get (p : Plane) (its : List (Iteration K)) :
    (historiesOf its).get p = lastIncrements p its.reverse := by
  fun_induction historiesOf its with
  | case1 => cases p <;> rfl
  | case2 i => cases p <;> rfl
  | case3 i j its ih =>
    -- Every iteration but the first pushes the pair that leads to it, in each plane its own.
    have hpush : (recordIncrements (historiesOf (j :: its)) j i.trial i.recursion).get p =
        ((historiesOf (j :: its)).get p).push (incrementPair p j i).1 (incrementPair p j i).2 := by
      rw [recordIncrements, Triple.get_ofFn]
      rfl
    rw [hpush, ih]
    simp only [lastIncrements, List.reverse_cons]
    rw [incrementPairs_concat]
    exact History.push_rtake 2 _ _ _

end Increments

/-! ### The factors of a run -/

/-- The factor of iteration `k` in a run, from the iterations up to it. The trial and the recursion
value of an iteration are what its call was made for and what was observed through its maps. -/
structure FactorLaw (settings : Settings ℝ) (readings : List (Reading ℝ))
    (calls : List (Call ℝ)) (its : List (Iteration ℝ)) (k : ℕ) (alpha : ℝ) : Prop where
  answered : ∃ i found, its[k]? = some i ∧
    calls[k]? = some ⟨i.trial, readings.map (·.position), .ok found⟩ ∧
    Observation.observe found readings = .ok i.recursion
  greatest : IsGreatest (insert settings.relaxationFloor
    {v | ∃ p, (lastIncrements p (its.take (k + 1))).candidate settings.rankTolerance =
      .ok (some v)}) alpha
  first : k < 3 → alpha = settings.relaxationFloor
  floor_le : settings.relaxationFloor ≤ alpha
  le_sqrt : alpha ≤ max settings.relaxationFloor √3

/-- What follows an iteration does not change the law of its factor. -/
theorem FactorLaw.append {settings : Settings ℝ} {readings : List (Reading ℝ)}
    {calls : List (Call ℝ)} {its : List (Iteration ℝ)} {k : ℕ} {alpha : ℝ}
    (h : FactorLaw settings readings calls its k alpha) (rest : List (Call ℝ))
    (further : List (Iteration ℝ)) :
    FactorLaw settings readings (calls ++ rest) (its ++ further) k alpha := by
  obtain ⟨i, found, hi, hcall, hobs⟩ := h.answered
  have hk : k < its.length := (List.getElem?_eq_some_iff.mp hi).1
  have hc : k < calls.length := (List.getElem?_eq_some_iff.mp hcall).1
  refine ⟨⟨i, found, ?_, ?_, hobs⟩, ?_, h.first, h.floor_le, h.le_sqrt⟩
  · rw [List.getElem?_append_left hk, hi]
  · rw [List.getElem?_append_left hc, hcall]
  · rw [List.take_append_of_le_length hk]
    exact h.greatest

/-- The greatest of the floor and the candidates is the floor before there are three increments. -/
theorem FactorLaw.of_greatest {settings : Settings ℝ} {readings : List (Reading ℝ)}
    {calls : List (Call ℝ)} {its : List (Iteration ℝ)} {k : ℕ} {alpha : ℝ}
    (answered : ∃ i found, its[k]? = some i ∧
      calls[k]? = some ⟨i.trial, readings.map (·.position), .ok found⟩ ∧
      Observation.observe found readings = .ok i.recursion)
    (greatest : IsGreatest (insert settings.relaxationFloor
      {v | ∃ p, (lastIncrements p (its.take (k + 1))).candidate settings.rankTolerance =
        .ok (some v)}) alpha) :
    FactorLaw settings readings calls its k alpha := by
  -- The greatest value is the floor or the candidate of a plane.
  refine ⟨answered, greatest, ?_, greatest.2 (Set.mem_insert _ _), ?_⟩
  · intro hk
    rcases greatest.1 with h | ⟨p, hp⟩
    · exact h
    · have hshort : (its.take (k + 1)).length ≤ 3 := (List.length_take_le _ _).trans hk
      rw [lastIncrements_candidate_of_short p hshort] at hp
      cases hp
  · rcases greatest.1 with h | ⟨p, hp⟩
    · exact h.le.trans (le_max_left _ _)
    · have hroot : alpha ≤ √((3 : ℕ) : ℝ) := History.candidate_le_sqrt hp
      rw [Nat.cast_ofNat] at hroot
      exact hroot.trans (le_max_right _ _)

/-- The first three factors of a run are the floor. -/
theorem Follows.alpha_of_short {settings : Settings ℝ} {initial : Covariance ℝ}
    {readings : List (Reading ℝ)} {before : List (Iteration ℝ)} {found : List (PhaseMap ℝ)}
    {i : Iteration ℝ} (h : Follows settings initial readings before found i)
    (hshort : before.length < 3) : i.alpha = settings.relaxationFloor := by
  have hgreatest := relaxation_isGreatest settings (historiesOf (i :: before))
  rw [← h.alpha] at hgreatest
  rcases hgreatest.1 with halpha | ⟨p, hp⟩
  · exact halpha
  · rw [historiesOf_get, lastIncrements_candidate_of_short p (by simpa using hshort)] at hp
    cases hp

/-- Every factor on record obeys the law, by induction over the iterations completed. -/
theorem Completed.factorLaw {settings : Settings ℝ} {initial : Covariance ℝ}
    {readings : List (Reading ℝ)} {its : List (Iteration ℝ)} {calls : List (Call ℝ)}
    (h : Completed settings initial readings its calls) (k : ℕ) (alpha : ℝ)
    (hk : (its.reverse.map (·.alpha))[k]? = some alpha) :
    FactorLaw settings readings calls its.reverse k alpha := by
  induction h with
  | none => simp at hk
  | @next its calls found i before follows ih =>
    have hlength := before.length_calls
    rw [List.reverse_cons] at hk ⊢
    by_cases hlast : k < its.length
    · rw [List.map_append, List.getElem?_append_left (by simpa using hlast)] at hk
      exact (ih hk).append _ _
    · -- The latest iteration took its factor from the histories of all iterations so far.
      obtain ⟨hbound, hget⟩ := List.getElem?_eq_some_iff.mp hk
      have heq : k = its.length := by
        rw [List.length_map, List.length_append, List.length_reverse] at hbound
        simp only [List.length_cons, List.length_nil] at hbound
        omega
      subst heq
      have halpha : i.alpha = alpha := by
        simpa using hk
      have hget : (its.reverse ++ [i])[its.length]? = some i := by simp
      have hcall (call : Call ℝ) : (calls ++ [call])[its.length]? = some call := by
        rw [← hlength]
        simp
      apply FactorLaw.of_greatest ⟨i, found, hget, hcall _, follows.recursion⟩
      have htake : (its.reverse ++ [i]).take (its.length + 1) = (i :: its).reverse := by
        simp
      rw [htake, ← halpha, follows.alpha]
      have hgreatest := relaxation_isGreatest settings (historiesOf (i :: its))
      simpa only [historiesOf_get] using hgreatest

end Estimator

end BeamOptics
