import BeamOptics.Proofs.FreshRuns
import BeamOptics.Proofs.Secants
import BeamOptics.Proofs.Synthesis

/-! Runs on maps that do not depend on the beam. Each recursion value is the same fit, so the trials
move to it along one line, the increments of every plane are multiples of one vector, and no history
of them has a candidate. Each factor is then the floor and the distance to the fit a geometric
sequence. -/

namespace BeamOptics

/-! ### Increments on one line -/

def History.Collinear (h : History ℝ) : Prop :=
  ∃ d : List ℝ, ∀ u ∈ h.arguments, ∃ t : ℝ, u = ⟨d.map (t * ·)⟩

namespace History

variable {h : History ℝ}

/-- Two or more increments on one line are dependent, so they suggest no factor, whatever the rank
tolerance. -/
theorem Collinear.candidate_ne_some (hline : h.Collinear) (hcapacity : 2 ≤ h.capacity)
    (rankTolerance v : ℝ) : h.candidate rankTolerance ≠ .ok (some v) := by
  intro hv
  obtain ⟨r, hr, -⟩ := candidate_eq_some hv
  obtain ⟨hlength, hregular⟩ := secantResidual_regular hr
  obtain ⟨d, hd⟩ := hline
  choose t ht using fun i : Fin h.arguments.length => hd h.arguments[i] (List.getElem_mem _)
  have hproduct : ((Mat.ofFn fun i j => h.arguments[i].toList.getD j 0 :
      Mat ℝ h.arguments.length)).toMatrix = Matrix.vecMulVec t fun j => d.getD j.val 0 := by
    ext i j
    rw [Mat.toMatrix_apply, Mat.entry_ofFn, ht i, Matrix.vecMulVec_apply]
    simp only [List.getD_eq_getElem?_getD, List.getElem?_map]
    cases d[(j : ℕ)]? <;> simp
  have hmany : Nontrivial (Fin h.arguments.length) := Fin.nontrivial_iff_two_le.mpr (by omega)
  exact hregular (by rw [hproduct, Matrix.det_vecMulVec])

end History

/-! ### The way to the fit -/

namespace Covariance

def approach {K : Type} [Scalar K] (initial fit : Covariance K) (alpha : K) : ℕ → Covariance K
  | 0 => initial
  | k + 1 => (approach initial fit alpha k).relax fit alpha

noncomputable def approachStep (initial fit : Covariance ℝ) (alpha : ℝ) (k : ℕ) : ℝ :=
  (initial.approach fit alpha (k + 1)).relativeDistance (initial.approach fit alpha k)

variable (initial fit : Covariance ℝ) (alpha : ℝ)

/-- Each mixture multiplies the difference to the fit by the same factor. -/
theorem approach_sub (k : ℕ) : (initial.approach fit alpha k).phaseMoments - fit.phaseMoments =
    (initial.phaseMoments - fit.phaseMoments).scale ((1 - alpha) ^ k) := by
  apply Mat.ext_entry
  induction k with
  | zero => simp [approach]
  | succ k ih =>
    intro i j
    rw [approach, relax_sub_right, Mat.entry_scale, ih, Mat.entry_scale, Mat.entry_scale, mul_assoc,
      pow_succ]

theorem approach_entry (k : ℕ) (i j : Fin 6) : (initial.approach fit alpha k).phaseMoments.entry i j =
    fit.phaseMoments.entry i j +
      (initial.phaseMoments.entry i j - fit.phaseMoments.entry i j) * (1 - alpha) ^ k := by
  have h := congrArg (·.entry i j) (initial.approach_sub fit alpha k)
  simp only [Mat.entry_sub, Mat.entry_scale] at h
  linarith

theorem approach_phaseMoments (k : ℕ) : (initial.approach fit alpha k).phaseMoments =
    fit.phaseMoments + (initial.phaseMoments - fit.phaseMoments).scale ((1 - alpha) ^ k) := by
  apply Mat.ext_entry
  intro i j
  rw [approach_entry, Mat.entry_add, Mat.entry_scale, Mat.entry_sub]

/-- The three moments of a plane, among those of all coordinates. -/
theorem moments_eq_entries (p : Plane) : ∃ i j : Fin 6, ∀ s : Covariance ℝ,
    s.moments p =
      ⟨s.phaseMoments.entry i i, s.phaseMoments.entry i j, s.phaseMoments.entry j j⟩ := by
  obtain ⟨i, j, hp⟩ := block_eq_entries p
  exact ⟨i, j, fun s => by rw [moments, hp]⟩

/-- The relative steps form a geometric sequence, up to the norms that they are relative to. -/
theorem approachStep_eq (k : ℕ) : initial.approachStep fit alpha k =
    |alpha| * |1 - alpha| ^ k * (initial.phaseMoments - fit.phaseMoments).frobenius /
      (initial.approach fit alpha k).referenceNorm := by
  rw [approachStep, relativeDistance_eq, approach, relax_sub_left, Mat.frobenius_scale,
    Mat.frobenius_sub_comm, approach_sub, Mat.frobenius_scale, abs_pow, mul_assoc]

theorem abs_entry_le_referenceNorm (s : Covariance ℝ) (i j : Fin 6) :
    |s.phaseMoments.entry i j| ≤ s.referenceNorm := by
  have hnorm : |s.phaseMoments.entry i j| ≤ s.momentNorm := s.phaseMoments.abs_entry_le_frobenius i j
  unfold referenceNorm
  split_ifs with hpos
  · exact hnorm
  · linarith

/-- On the way to a beam with a moment that does not vanish the trials stay away from the zero beam,
so the steps become as small as the way that is left. -/
theorem approachStep_tendsto {i j : Fin 6} (hfit : fit.phaseMoments.entry i j ≠ 0)
    (halpha : |1 - alpha| < 1) :
    Filter.Tendsto (initial.approachStep fit alpha) Filter.atTop (nhds 0) := by
  have hpow : Filter.Tendsto (fun k : ℕ => (1 - alpha) ^ k) Filter.atTop (nhds 0) :=
    tendsto_pow_atTop_nhds_zero_of_abs_lt_one halpha
  -- The moment tends to that of the fit, so it is more than half of it from some trial on.
  have hentry : Filter.Tendsto (fun k => |(initial.approach fit alpha k).phaseMoments.entry i j|)
      Filter.atTop (nhds |fit.phaseMoments.entry i j|) := by
    simp only [approach_entry]
    simpa using ((hpow.const_mul _).const_add _).abs
  have hhalf : |fit.phaseMoments.entry i j| / 2 < |fit.phaseMoments.entry i j| :=
    half_lt_self (abs_pos.mpr hfit)
  have hhalfpos : 0 < |fit.phaseMoments.entry i j| / 2 := half_pos (abs_pos.mpr hfit)
  have hway : Filter.Tendsto (fun k => |alpha| * |1 - alpha| ^ k *
      (initial.phaseMoments - fit.phaseMoments).frobenius / (|fit.phaseMoments.entry i j| / 2))
      Filter.atTop (nhds 0) := by
    have habs : Filter.Tendsto (fun k : ℕ => |1 - alpha| ^ k) Filter.atTop (nhds 0) :=
      tendsto_pow_atTop_nhds_zero_of_abs_lt_one (by rwa [abs_abs])
    simpa using ((habs.const_mul |alpha|).mul_const _).div_const _
  refine squeeze_zero' (Filter.Eventually.of_forall fun k => ?_) ?_ hway
  · rw [approachStep_eq]
    have := Mat.frobenius_nonneg (initial.phaseMoments - fit.phaseMoments)
    have := (initial.approach fit alpha k).referenceNorm_pos
    positivity
  · filter_upwards [hentry.eventually_const_lt hhalf] with k hk
    rw [approachStep_eq]
    have := Mat.frobenius_nonneg (initial.phaseMoments - fit.phaseMoments)
    have hreference := hk.le.trans (abs_entry_le_referenceNorm (initial.approach fit alpha k) i j)
    gcongr

end Covariance

/-! ### A fit of readings does not vanish -/

namespace Observation

variable {eqs : List (Vector ℝ 3 × ℝ)} {maps : List (PhaseMap ℝ)} {readings : List (Reading ℝ)}

/-- A coefficient that is nowhere negative vanishes with the right-hand side. -/
theorem coefficient_eq_zero (hsizes : ∀ e ∈ eqs, 0 < e.2) {i : Fin 3}
    (hi : ∀ e ∈ eqs, 0 ≤ e.1.get i) (hrhs : (normalRhs eqs).get i = 0) :
    ∀ e ∈ eqs, e.1.get i = 0 := by
  intro e he
  have hnonneg : ∀ x ∈ eqs.map fun e => e.1.get i * e.2 * e.2, 0 ≤ x := by
    intro x hx
    obtain ⟨e, he, rfl⟩ := List.mem_map.mp hx
    exact mul_nonneg (mul_nonneg (hi e he) (hsizes e he).le) (hsizes e he).le
  rw [normalRhs_get] at hrhs
  have hterm := List.all_zero_of_le_zero_le_of_sum_eq_zero hnonneg hrhs (List.mem_map_of_mem he)
  simpa [(hsizes e he).ne'] using hterm

/-- Equations of positive sizes are not solved by vanishing moments. The right-hand side would vanish
with them, and the sums of squares in it would leave no coefficient to determine the moments by. -/
theorem normal_ne_zero (hsizes : ∀ e ∈ eqs, 0 < e.2)
    (hrows : ∀ e ∈ eqs, ∃ a b : ℝ, e.1 = #v[a * a, 2 * a * b, b * b]) {m : Vector ℝ 3}
    (hm : (normalMatrix eqs).solve (normalRhs eqs) = .ok m) : ∃ i, m.get i ≠ 0 := by
  by_contra! hzero
  have hrhs (i : Fin 3) : (normalRhs eqs).get i = 0 := by
    have hi := (Mat.solves_iff_of_solve hm m).mpr rfl i
    simpa [hzero] using hi.symm
  have hfirst : ∀ e ∈ eqs, e.1.get 0 = 0 := by
    refine coefficient_eq_zero hsizes (fun e he => ?_) (hrhs 0)
    obtain ⟨a, b, hrow⟩ := hrows e he
    rw [hrow]
    exact mul_self_nonneg a
  have hlast : ∀ e ∈ eqs, e.1.get 2 = 0 := by
    refine coefficient_eq_zero hsizes (fun e he => ?_) (hrhs 2)
    obtain ⟨a, b, hrow⟩ := hrows e he
    rw [hrow]
    exact mul_self_nonneg b
  have hall : ∀ e ∈ eqs, ∀ i, e.1.get i = 0 := by
    intro e he i
    have ha := hfirst e he
    have hb := hlast e he
    obtain ⟨a, b, hrow⟩ := hrows e he
    rw [hrow] at ha hb ⊢
    obtain rfl : a = 0 := mul_self_eq_zero.mp ha
    obtain rfl : b = 0 := mul_self_eq_zero.mp hb
    fin_cases i <;> simp [Vector.get]
  -- Then every vector solves the equations, but the solution is the only one.
  have hany : (normalMatrix eqs).Solves #v[1, 1, 1] (normalRhs eqs) := by
    intro i
    have hentry (j : Fin 3) : (normalMatrix eqs).entry i j = 0 := by
      rw [normalMatrix_entry]
      apply List.sum_eq_zero
      intro x hx
      obtain ⟨e, he, rfl⟩ := List.mem_map.mp hx
      rw [hall e he, zero_mul]
    simp only [hentry, hrhs, zero_mul, Finset.sum_const_zero]
  have hone := hzero 0
  rw [← (Mat.solves_iff_of_solve hm _).mp hany] at hone
  exact one_ne_zero hone

/-- Positive sizes are fitted by moments of which not all vanish. -/
theorem planeMoments_ne_zero (hsizes : ∀ r ∈ readings, ∀ p, 0 < r.sizes.get p) {p : Plane}
    {m : Moments ℝ} (h : planeMoments maps readings p = .ok m) :
    m.s11 ≠ 0 ∨ m.s12 ≠ 0 ∨ m.s22 ≠ 0 := by
  have hpos : ∀ e ∈ equations maps readings p, 0 < e.2 := by
    intro e he
    obtain ⟨r, hr, hsize⟩ := List.mem_map.mp (List.of_mem_zip he).2
    rw [← hsize]
    exact hsizes r hr p
  have hrows : ∀ e ∈ equations maps readings p, ∃ a b : ℝ, e.1 = #v[a * a, 2 * a * b, b * b] := by
    intro e he
    obtain ⟨M, -, hrow⟩ := List.mem_map.mp (List.of_mem_zip he).1
    exact ⟨(M.block p).a, (M.block p).b, hrow.symm⟩
  obtain ⟨i, hi⟩ := normal_ne_zero hpos hrows (planeMoments_eq_ok.mp h)
  fin_cases i
  · exact Or.inl hi
  · exact Or.inr (Or.inl hi)
  · exact Or.inr (Or.inr hi)

/-- A fit of accepted readings has a moment that does not vanish. -/
theorem observe_ne_zero (hr : Reading.setFault? readings = none) {fit : Covariance ℝ}
    (h : observe maps readings = .ok fit) : ∃ i j, fit.phaseMoments.entry i j ≠ 0 := by
  obtain ⟨-, m, hm, rfl⟩ := observe_eq_ok.mp h
  have hentry (i j : Fin 6) : (Covariance.ofMoments m).phaseMoments.entry i j =
      (Covariance.ofMoments m).matrix.entry i.castSucc j.castSucc := Mat.entry_ofFn ..
  rcases planeMoments_ne_zero (Reading.sizes_pos hr) (hm .horizontal) with h | h | h
  · exact ⟨0, 0, h⟩
  · exact ⟨0, 1, h⟩
  · exact ⟨1, 1, h⟩

end Observation

/-! ### Runs on the same maps -/

/-- From a state on, the source answers every call for these positions with the same maps. -/
def MapSource.AnswersWith {G : Type} (source : MapSource ℝ G) (start : G) (positions : List ℝ)
    (maps : List (PhaseMap ℝ)) : Prop :=
  ∀ g, source.Reached start g → ∀ trial, (source.maps g trial positions).1 = .ok maps

namespace Estimator

section Record

variable {K G : Type} [Scalar K]

/-- The source is in a state that it reaches, and so it was at each call on record. -/
structure Answering (source : MapSource K G) (start : G) (positions : List K)
    (d : Estimator K (G × List (Call K))) : Prop where
  reached : source.Reached start d.source.1
  calls : ∀ c ∈ d.source.2, ∃ g, source.Reached start g ∧
    c.result = (source.maps g c.beam positions).1

omit [Scalar K] in

/-- A call keeps the source where it answers with the same maps. -/
theorem Answering.ask {source : MapSource K G} {start : G} {readings : List (Reading K)}
    {d d' : Estimator K (G × List (Call K))} {beam : Covariance K}
    (h : Answering source start (readings.map (·.position)) d)
    (hd' : d'.source = (ask source.recording readings beam d).2) :
    Answering source start (readings.map (·.position)) d' := by
  refine ⟨hd' ▸ .call h.reached beam _, fun c hc => ?_⟩
  rw [hd'] at hc
  rcases List.mem_append.mp hc with hc | hc
  · exact h.calls c hc
  · obtain rfl := List.mem_singleton.mp hc
    exact ⟨_, h.reached, rfl⟩

/-- The calls on record were answered in states that the source reaches. -/
theorem calls_answered (source : MapSource K G) (e : Estimator K G) (initial : Covariance K)
    (readings : List (Reading K)) : ∀ c ∈ calls source e initial readings,
      ∃ g, source.Reached e.source g ∧
        c.result = (source.maps g c.beam (readings.map (·.position))).1 := by
  have hanswering : Answering source e.source (readings.map (·.position))
      (estimate source.recording e.recording initial readings).2 := by
    apply estimate_preserves
    · exact fun d hd => hd.ask (iterate_source d)
    · exact fun beam d hd => hd.ask (finish_source beam d)
    · exact fun d status hd => ⟨hd.reached, hd.calls⟩
    · exact ⟨.start, nofun⟩
  exact hanswering.calls

/-- The histories behind an estimation are those of the iterations on record. -/
theorem estimate_histories (maps : MapSource K G) (e : Estimator K G) (initial : Covariance K)
    (readings : List (Reading K)) :
    (estimate maps e initial readings).2.histories.planes =
      historiesOf (estimate maps e initial readings).2.completed := by
  -- The histories are those of the iterations on record at every point of a run.
  apply estimate_preserves (P := fun d => d.histories.planes = historiesOf d.completed)
  · intro d hd
    rw [iterate_eq]
    cases ha : d.attempt (d.trial initial) readings (ask maps readings (d.trial initial) d).1 with
    | error f => exact hd
    | ok r =>
      obtain ⟨found, -, hrest⟩ := bind_eq_ok.mp ha
      obtain ⟨recursion, hobs, hrelaxed⟩ := bind_eq_ok.mp hrest
      have htrial : d.trial initial = (d.completed.head?.map (·.next)).getD initial := rfl
      exact (relaxed_follows hd htrial hobs hrelaxed).2.2
  · intro beam d hd
    cases hr : (ask maps readings beam d).1 >>= (beam.residual · readings) with
    | error f =>
      rw [finish_error hr]
      exact hd
    | ok r =>
      rw [finish_ok hr]
      exact hd
  · exact fun d status hd => hd
  · rfl

end Record

/-- Iteration `k`, counted from zero, on the way from the first trial to the fit. -/
structure OnTheWay (settings : Settings ℝ) (initial fit : Covariance ℝ) (k : ℕ)
    (i : Iteration ℝ) : Prop where
  trial : i.trial = initial.approach fit settings.relaxationFloor k
  recursion : i.recursion = fit
  alpha : i.alpha = settings.relaxationFloor
  next : i.next = initial.approach fit settings.relaxationFloor (k + 1)
  step : i.step = initial.approachStep fit settings.relaxationFloor k

variable {settings : Settings ℝ} {initial fit : Covariance ℝ} {its : List (Iteration ℝ)}

/-- From one trial on the way to the next, each plane's moments move by the same part of its way from
the first trial to the fit, up to a factor. -/
theorem momentIncrement_approach (p : Plane) (alpha : ℝ) (k : ℕ) :
    momentIncrement p (initial.approach fit alpha k) (initial.approach fit alpha (k + 1)) =
      ⟨(momentIncrement p initial fit).toList.map (alpha * (1 - alpha) ^ k * ·)⟩ := by
  obtain ⟨i, j, hp⟩ := Covariance.moments_eq_entries p
  have hentry (i j : Fin 6) : (initial.approach fit alpha (k + 1)).phaseMoments.entry i j -
      (initial.approach fit alpha k).phaseMoments.entry i j =
        alpha * (1 - alpha) ^ k *
          (fit.phaseMoments.entry i j - initial.phaseMoments.entry i j) := by
    rw [Covariance.approach_entry, Covariance.approach_entry]
    ring
  simp only [momentIncrement, hp, hentry, List.map_cons, List.map_nil]

/-- The trials on the way lie on one line, and so do their increments. -/
theorem lastIncrements_collinear {alpha : ℝ}
    (h : ∀ k i, its[k]? = some i → i.trial = initial.approach fit alpha k) (p : Plane) :
    (lastIncrements p its).Collinear := by
  refine ⟨(momentIncrement p initial fit).toList, fun u hu => ?_⟩
  obtain ⟨pair, hpair, rfl⟩ := List.mem_map.mp hu
  obtain ⟨k, hk⟩ := List.mem_iff_getElem?.mp (List.mem_of_mem_drop hpair)
  rw [incrementPairs, List.getElem?_zipWith_eq_some] at hk
  obtain ⟨i, j, hi, hj, rfl⟩ := hk
  rw [List.getElem?_tail] at hj
  refine ⟨alpha * (1 - alpha) ^ k, ?_⟩
  rw [← momentIncrement_approach, incrementPair, h k i hi, h (k + 1) j hj]

/-- Iterations on the way have no candidate in any plane. -/
theorem candidate_ne_some_of_trials {alpha : ℝ}
    (h : ∀ k i, its.reverse[k]? = some i → i.trial = initial.approach fit alpha k) (p : Plane)
    (rankTolerance v : ℝ) : ((historiesOf its).get p).candidate rankTolerance ≠ .ok (some v) := by
  rw [historiesOf_get]
  exact (lastIncrements_collinear h p).candidate_ne_some (Nat.le_succ 2) rankTolerance v

theorem forall_getElem?_concat {α : Type} {P : ℕ → α → Prop} {xs : List α} {a : α} :
    (∀ k x, (xs ++ [a])[k]? = some x → P k x) ↔
      (∀ k x, xs[k]? = some x → P k x) ∧ P xs.length a := by
  constructor
  · intro h
    refine ⟨fun k x hx => h k x ?_, h _ _ List.getElem?_concat_length⟩
    rw [List.getElem?_append_left (List.getElem?_eq_some_iff.mp hx).1, hx]
  · rintro ⟨hall, ha⟩ k x hx
    obtain ⟨hk, hx⟩ := List.getElem?_eq_some_iff.mp hx
    rw [List.length_append, List.length_singleton] at hk
    by_cases hlast : k < xs.length
    · rw [List.getElem_append_left hlast] at hx
      exact hall k x (List.getElem?_eq_some_iff.mpr ⟨hlast, hx⟩)
    · obtain rfl : k = xs.length := by omega
      obtain rfl : a = x := by simpa using hx
      exact ha

/-- With the same maps at every call each iteration is on the way to the fit. -/
theorem Completed.onTheWay {readings : List (Reading ℝ)} {made : List (Call ℝ)}
    {maps : List (PhaseMap ℝ)} (h : Completed settings initial readings its made)
    (hmade : ∀ c ∈ made, c.result = .ok maps)
    (hfit : Observation.observe maps readings = .ok fit) :
    ∀ k i, its.reverse[k]? = some i → OnTheWay settings initial fit k i := by
  induction h with
  | none => simp
  | @next its made found i before follows ih =>
    have hway := ih fun c hc => hmade c (List.mem_append_left _ hc)
    -- The trial is where the iterations so far have led to.
    have htrial : i.trial = initial.approach fit settings.relaxationFloor its.length := by
      rw [follows.trial]
      cases its with
      | nil => rfl
      | cons j its => exact (hway its.length j (by simp)).next
    have hrecursion : i.recursion = fit := by
      have hfound : found = maps := Except.ok.inj (hmade _ (List.mem_append_right _ List.mem_cons_self))
      have hobs := follows.recursion
      rw [hfound, hfit] at hobs
      exact (Except.ok.inj hobs).symm
    have htrials : ∀ k j, (i :: its).reverse[k]? = some j →
        j.trial = initial.approach fit settings.relaxationFloor k := by
      rw [List.reverse_cons, forall_getElem?_concat, List.length_reverse]
      exact ⟨fun k j hj => (hway k j hj).trial, htrial⟩
    have halpha : i.alpha = settings.relaxationFloor := by
      rw [follows.alpha]
      rcases (relaxation_isGreatest settings (historiesOf (i :: its))).1 with hfloor | ⟨p, hp⟩
      · exact hfloor
      · exact absurd hp (candidate_ne_some_of_trials htrials p _ _)
    have hnext : i.next = initial.approach fit settings.relaxationFloor (its.length + 1) := by
      rw [follows.next, htrial, hrecursion, halpha]
      rfl
    rw [List.reverse_cons, forall_getElem?_concat, List.length_reverse]
    refine ⟨hway, htrial, hrecursion, halpha, hnext, ?_⟩
    rw [follows.step, hnext, htrial]
    rfl

theorem OnTheWay.of_cons {i : Iteration ℝ} (hway : ∀ k j, (i :: its).reverse[k]? = some j →
    OnTheWay settings initial fit k j) :
    (∀ k j, its.reverse[k]? = some j → OnTheWay settings initial fit k j) ∧
      OnTheWay settings initial fit its.length i := by
  rw [List.reverse_cons, forall_getElem?_concat, List.length_reverse] at hway
  exact hway

/-- Without a short step on record there is none on the way so far. -/
theorem approachStep_above (hway : ∀ k i, its.reverse[k]? = some i → OnTheWay settings initial fit k i)
    (habove : ∀ i ∈ its, ¬ i.step < settings.tolerance) : ∀ k < its.length,
      ¬ initial.approachStep fit settings.relaxationFloor k < settings.tolerance := by
  intro k hk
  have hreverse : k < its.reverse.length := by
    rw [List.length_reverse]
    exact hk
  rw [← (hway k _ (List.getElem?_eq_getElem hreverse)).step]
  exact habove _ (List.mem_reverse.mp (List.getElem_mem _))

/-- Where a run on the way to the fit ends, and how many iterations it began: behind the first step
below the tolerance, or at the iteration cap if no step up to there is. -/
def EndsOnTheWay (settings : Settings ℝ) (initial fit : Covariance ℝ)
    (result : Except (Fault ℝ) (Covariance ℝ)) (begun : ℕ) : Prop :=
  (∃ k < settings.maxIterations,
    initial.approachStep fit settings.relaxationFloor k < settings.tolerance ∧
    (∀ j < k, ¬ initial.approachStep fit settings.relaxationFloor j < settings.tolerance) ∧
    result = .ok (initial.approach fit settings.relaxationFloor (k + 1)) ∧ begun = k + 1) ∨
  ((∀ k < settings.maxIterations,
      ¬ initial.approachStep fit settings.relaxationFloor k < settings.tolerance) ∧
    result = .error (.notConverged settings.maxIterations
      (initial.approachStep fit settings.relaxationFloor (settings.maxIterations - 1))) ∧
    begun = settings.maxIterations)

/-- What an estimation comes to when every recursion value is the same fit. Its factors are the floor,
its estimates approach the fit in a geometric sequence, and it ends behind the first relative step of
that sequence below the tolerance. -/
structure Geometric {G : Type} (settings : Settings ℝ) (initial fit : Covariance ℝ)
    (result : Except (Fault ℝ) (Covariance ℝ)) (after : Estimator ℝ G) : Prop where
  alphas : after.alphas = List.replicate after.begun settings.relaxationFloor
  estimates : ∀ k i, after.completed.reverse[k]? = some i → i.next.phaseMoments =
    fit.phaseMoments +
      (initial.phaseMoments - fit.phaseMoments).scale ((1 - settings.relaxationFloor) ^ (k + 1))
  steps : ∀ k i, after.completed.reverse[k]? = some i →
    i.step = initial.approachStep fit settings.relaxationFloor k
  histories : after.histories.planes = historiesOf after.completed
  unaccelerated : ∀ its, its <:+ after.completed → ∀ p v,
    ((historiesOf its).get p).candidate settings.rankTolerance ≠ .ok (some v)
  outcome : EndsOnTheWay settings initial fit result after.begun

/-- The end of a run on the way to the fit. Neither a call nor the observation or a residual through
its maps is at fault, so there are two ways left. -/
theorem Ending.onTheWay {G : Type} {readings : List (Reading ℝ)} {maps : List (PhaseMap ℝ)}
    {d : Estimator ℝ (G × List (Call ℝ))} {result : Except (Fault ℝ) (Covariance ℝ)}
    (h : Ending settings initial readings d result)
    (hway : ∀ k i, d.completed.reverse[k]? = some i → OnTheWay settings initial fit k i)
    (hanswers : ∀ c ∈ d.source.2, c.result = .ok maps)
    (hfit : Observation.observe maps readings = .ok fit) :
    d.begun = d.completed.length ∧ EndsOnTheWay settings initial fit result d.begun := by
  have hresidual (beam : Covariance ℝ) : ∃ r, beam.residual maps readings = .ok r :=
    residual_isOk (length_of_observe hfit) beam
  -- Every call on record was answered with the maps, the latest one included.
  have hlast {made : List (Call ℝ)} {c : Call ℝ} (hc : d.source.2 = made ++ [c]) :
      c.result = .ok maps := by
    apply hanswers
    rw [hc]
    exact List.mem_append_right _ List.mem_cons_self
  -- With these answers, neither an interruption nor a missing residual is possible.
  cases h with
  | @converged i its _ _ _ _ record begun cap above step call =>
    rw [record] at hway ⊢
    obtain ⟨hits, hi⟩ := OnTheWay.of_cons hway
    have hbefore := approachStep_above hits above
    rw [hi.step] at step
    rw [begun, hi.next]
    exact ⟨rfl, Or.inl ⟨its.length, cap, step, hbefore, rfl, rfl⟩⟩
  | @unconfirmed i its _ answer f _ record begun cap above step call fault =>
    have hanswer : answer = .ok maps := hlast call
    obtain ⟨r, hr⟩ := hresidual i.next
    rw [hanswer] at fault
    cases hr.symm.trans fault
  | @capped i its _ record begun cap above =>
    have hall := approachStep_above (record ▸ hway) above
    rw [record] at hway ⊢
    have hi := (OnTheWay.of_cons hway).2
    have hlast : settings.maxIterations - 1 = its.length := by omega
    rw [List.length_cons, cap] at hall
    rw [begun, cap, hi.step, ← hlast]
    exact ⟨by rw [List.length_cons, cap], Or.inr ⟨hall, rfl, rfl⟩⟩
  | @interrupted its _ answer f _ record begun cap above call fault =>
    have hanswer : answer = .ok maps := hlast call
    rw [hanswer] at fault
    cases hfit.symm.trans fault

section Runs

variable {G : Type} {source : MapSource ℝ G} {e : Estimator ℝ G} {readings : List (Reading ℝ)}
  {maps : List (PhaseMap ℝ)}

/-- Every estimation in which the source answers with the same maps is geometric. -/
theorem estimate_geometric_run (he : e.settings.check = .ok ())
    (hr : Reading.setFault? readings = none)
    (hsource : source.AnswersWith e.source (readings.map (·.position)) maps)
    (hfit : Observation.observe maps readings = .ok fit) (initial : Covariance ℝ) :
    Geometric e.settings initial fit (estimate source e initial readings).1
      (estimate source e initial readings).2 := by
  have hhistories := estimate_histories source e initial readings
  -- The calls stay in states where the source gives the same maps.
  have hanswers : ∀ c ∈ (recorded source e initial readings).source.2, c.result = .ok maps := by
    intro c hc
    obtain ⟨g, hg, hresult⟩ := calls_answered source e initial readings c hc
    rw [hresult, hsource g hg]
  have hend := (estimate_ending source initial he hr).1
  rw [estimate_snd] at hhistories ⊢
  have hway : ∀ k i, (recorded source e initial readings).completed.reverse[k]? = some i →
      OnTheWay e.settings initial fit k i := by
    obtain ⟨made, rest, hcompleted, hcalls⟩ := hend.completed
    refine hcompleted.onTheWay (fun c hc => hanswers c ?_) hfit
    rw [hcalls]
    exact List.mem_append_left _ hc
  -- From here on only the record matters, and no longer how it came about.
  generalize recorded source e initial readings = d at *
  generalize (estimate source e initial readings).1 = result at *
  obtain ⟨hbegun, houtcome⟩ := hend.onTheWay hway hanswers hfit
  refine ⟨?_, ?_, fun k i hi => (hway k i hi).step, hhistories, ?_, houtcome⟩
  · change d.completed.reverse.map (·.alpha) = _
    rw [List.eq_replicate_iff]
    constructor
    · simp [mapSource, hbegun]
    · intro alpha halpha
      obtain ⟨i, hi, rfl⟩ := List.mem_map.mp halpha
      obtain ⟨k, hk⟩ := List.mem_iff_getElem?.mp hi
      exact (hway k i hk).alpha
  · intro k i hi
    rw [(hway k i hi).next, Covariance.approach_phaseMoments]
  · -- The trials lie on one line, so that no history suggests a factor.
    intro its hits p v
    obtain ⟨later, hlater⟩ := hits
    refine candidate_ne_some_of_trials (fun k i hi => (hway k i ?_).trial) p _ v
    have hlater : d.completed.reverse = its.reverse ++ later.reverse := by
      rw [← List.reverse_append, hlater]
      rfl
    rw [hlater, List.getElem?_append_left (List.getElem?_eq_some_iff.mp hi).1, hi]

/-- With a factor below two some step on the way to the fit is below the tolerance, and with the factor
one the first or the second is. -/
theorem exists_first_step {i j : Fin 6} (he : settings.check = .ok ())
    (hne : fit.phaseMoments.entry i j ≠ 0) (htwo : settings.relaxationFloor < 2)
    (initial : Covariance ℝ) : ∃ k,
      initial.approachStep fit settings.relaxationFloor k < settings.tolerance ∧
      (∀ j < k, ¬ initial.approachStep fit settings.relaxationFloor j < settings.tolerance) ∧
      (settings.relaxationFloor = 1 → k + 1 ≤ 2) := by
  obtain ⟨-, htolerance, ⟨hfloor, -⟩, -⟩ := Settings.check_real.mp he
  have hcontracts : |1 - settings.relaxationFloor| < 1 := by
    rw [abs_lt]
    constructor <;> linarith
  have hexists : ∃ k, initial.approachStep fit settings.relaxationFloor k < settings.tolerance :=
    ((initial.approachStep_tendsto fit _ hne hcontracts).eventually_lt_const htolerance).exists
  refine ⟨Nat.find hexists, Nat.find_spec hexists, fun _ => Nat.find_min hexists, fun hone => ?_⟩
  -- The first mixture leads to the fit itself, and the second one stays there.
  have hsecond : initial.approachStep fit settings.relaxationFloor 1 = 0 := by
    rw [Covariance.approachStep_eq, hone]
    simp
  have hle : Nat.find hexists ≤ 1 := Nat.find_min' hexists (hsecond ▸ htolerance)
  omega

/-- An estimation with a source whose maps do not depend on the beam. Its iterations are those of the
geometric sequence to the fit, and with a floor below two the estimation succeeds under any iteration
cap that is large enough, with the floor one under a cap of two. -/
theorem estimate_geometric (he : e.settings.check = .ok ())
    (hr : Reading.setFault? readings = none)
    (hsource : source.AnswersWith e.source (readings.map (·.position)) maps)
    (hfit : Observation.observe maps readings = .ok fit) (initial : Covariance ℝ) :
    Geometric e.settings initial fit (estimate source e initial readings).1
        (estimate source e initial readings).2 ∧
      (e.settings.relaxationFloor < 2 → ∃ k, (e.settings.relaxationFloor = 1 → k + 1 ≤ 2) ∧
        ∀ cap, k + 1 ≤ cap → ∃ after : Estimator ℝ G,
          estimate source { e with settings := { e.settings with maxIterations := cap } } initial
            readings = (.ok (initial.approach fit e.settings.relaxationFloor (k + 1)), after) ∧
          after.begun = k + 1) := by
  refine ⟨estimate_geometric_run he hr hsource hfit initial, fun htwo => ?_⟩
  obtain ⟨i, j, hne⟩ := Observation.observe_ne_zero hr hfit
  obtain ⟨k, hstep, hbefore, hone⟩ := exists_first_step he hne htwo initial
  refine ⟨k, hone, fun cap hcap => ?_⟩
  obtain ⟨-, hrest⟩ := Settings.check_eq_ok.mp he
  have hcheck : ({ e.settings with maxIterations := cap } : Settings ℝ).check = .ok () :=
    Settings.check_eq_ok.mpr ⟨by change 0 < cap; omega, hrest⟩
  have hrun := estimate_geometric_run
    (e := { e with settings := { e.settings with maxIterations := cap } }) hcheck hr hsource hfit
    initial
  -- The cap lies behind the first short step, so the run meets the step and not the cap.
  rcases hrun.outcome with ⟨l, -, hl, hearlier, hresult, hbegun⟩ | ⟨hnone, -⟩
  · have hsame : l = k := by
      rcases Nat.lt_trichotomy l k with h | h | h
      · exact absurd hl (hbefore l h)
      · exact h
      · exact absurd hstep (hearlier k h)
    subst hsame
    exact ⟨_, Prod.ext hresult rfl, hbegun⟩
  · exact absurd hstep (hnone k hcap)

end Runs

noncomputable def patient : Settings ℝ := ⟨10, 1 / 100, 1 / 2, 0⟩

theorem patient_check : patient.check = .ok () := Settings.check_real.mpr (by norm_num [patient])

/-- The steady source of the turn and the drift, with half of the way in each iteration. -/
theorem estimate_geometric_quarterTurn :
    patient.check = .ok () ∧ Reading.setFault? unitReadings = none ∧
      (MapSource.steady quarterTurn).AnswersWith () (unitReadings.map (·.position)) quarterTurn ∧
      Observation.observe quarterTurn unitReadings = .ok unitBeam ∧
      Geometric patient .zero unitBeam
        (estimate (.steady quarterTurn) (fresh () patient) .zero unitReadings).1
        (estimate (.steady quarterTurn) (fresh () patient) .zero unitReadings).2 ∧
      ∃ k, (patient.relaxationFloor = 1 → k + 1 ≤ 2) ∧ ∀ cap, k + 1 ≤ cap →
        ∃ after : Estimator ℝ Unit,
          estimate (.steady quarterTurn) (fresh () { patient with maxIterations := cap }) .zero
            unitReadings = (.ok (Covariance.zero.approach unitBeam (1 / 2) (k + 1)), after) ∧
          after.begun = k + 1 := by
  have hcheck : (fresh () patient).settings.check = .ok () := patient_check
  have hsource : (MapSource.steady quarterTurn).AnswersWith () (unitReadings.map (·.position))
      quarterTurn := fun _ _ _ => rfl
  obtain ⟨hrun, hcaps⟩ := estimate_geometric (e := fresh () patient) hcheck unitReadings_setFault
    hsource observe_quarterTurn .zero
  refine ⟨patient_check, unitReadings_setFault, hsource, observe_quarterTurn, hrun, hcaps ?_⟩
  -- The floor is below two, so the trials close in on the fit.
  change (1 / 2 : ℝ) < 2
  norm_num

end Estimator

end BeamOptics
