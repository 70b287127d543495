import BeamOptics.Proofs.FreshRuns

/-! Two runs side by side. Sources, readings and first trials may be different; what the answers of the
sources, the observations and the mixtures keep between them, the runs keep, as long as both see a
step below the tolerance in the same iterations. -/

namespace BeamOptics.Estimator

variable {K G G' : Type} [Scalar K]

/-! ### The record grows -/

section Record

variable {maps : MapSource K G} {initial : Covariance K} {readings : List (Reading K)}
  {e d : Estimator K G} {i : Iteration K}

theorem completed_of_iterate (hi : iterate maps initial readings e = (.ok i, d)) :
    d.completed = i :: e.completed := by
  rw [iterate_eq] at hi
  cases ha : e.attempt (e.trial initial) readings (ask maps readings (e.trial initial) e).1 with
  | error f => rw [ha] at hi; cases hi
  | ok r =>
    rw [ha] at hi
    cases hi
    rfl

/-- Completed iterations stay on record. -/
theorem mem_completed_iterate (h : i ∈ e.completed) :
    i ∈ (iterate maps initial readings e).2.completed := by
  rw [iterate_eq]
  cases e.attempt (e.trial initial) readings (ask maps readings (e.trial initial) e).1 with
  | error f => exact h
  | ok r => exact List.mem_cons_of_mem _ h

theorem mem_completed_finish (beam : Covariance K) (h : i ∈ e.completed) :
    i ∈ (finish maps readings beam e).2.completed := by
  cases hr : (ask maps readings beam e).1 >>= (beam.residual · readings) with
  | error f =>
    rw [finish_error hr]
    exact h
  | ok r =>
    rw [finish_ok hr]
    exact h

/-- The iteration that a run begins with is on record when it ends. -/
theorem mem_completed_run (hi : iterate maps initial readings e = (.ok i, d)) (further : ℕ) :
    i ∈ (run maps initial readings further e).2.completed := by
  have hfirst : i ∈ (iterate maps initial readings e).2.completed := by
    rw [hi, completed_of_iterate hi]
    exact List.mem_cons_self
  rcases run_behind further e with hrun | ⟨beam, hrun⟩ | ⟨n, -, hrun⟩
  · rw [hrun]
    exact hfirst
  · rw [hrun]
    exact mem_completed_finish beam hfirst
  · rw [hrun]
    exact run_preserves (P := fun e => i ∈ e.completed) (fun _ => mem_completed_iterate)
      (fun beam _ => mem_completed_finish beam) n hfirst

end Record

/-! ### What is kept -/

/-- What is kept between two runs: a relation for each kind of thing that a run handles. -/
structure Likeness (K G G' : Type) where
  source : G → G' → Prop
  maps : List (PhaseMap K) → List (PhaseMap K) → Prop
  beam : Covariance K → Covariance K → Prop
  histories : Histories K → Histories K → Prop
  fault : Fault K → Fault K → Prop

namespace Likeness

/-- Two iterations that differ as the likeness allows, each with a step of its own. -/
structure Twins (L : Likeness K G G') (i j : Iteration K) : Prop where
  trial : L.beam i.trial j.trial
  recursion : L.beam i.recursion j.recursion
  alpha : i.alpha = j.alpha
  next : L.beam i.next j.next
  residual : i.residual = j.residual
  step : i.step = i.next.relativeDistance i.trial
  step' : j.step = j.next.relativeDistance j.trial

structure Beside (L : Likeness K G G') (e : Estimator K G) (d : Estimator K G') : Prop where
  source : L.source e.source d.source
  settings : e.settings = d.settings
  status : e.status = d.status
  begun : e.begun = d.begun
  completed : List.Forall₂ L.Twins e.completed d.completed
  histories : L.histories e.histories.planes d.histories.planes
  residual : e.residual = d.residual

structure Kept (L : Likeness K G G') (maps : MapSource K G) (maps' : MapSource K G')
    (readings readings' : List (Reading K)) : Prop where
  check : Alike L.fault (fun _ _ => True) (Reading.check readings) (Reading.check readings')
  answer : ∀ {g g' s t}, L.source g g' → L.beam s t →
    Alike L.fault L.maps (maps.maps g s (readings.map (·.position))).1
      (maps'.maps g' t (readings'.map (·.position))).1
  behind : ∀ {g g' s t}, L.source g g' → L.beam s t →
    L.source (maps.maps g s (readings.map (·.position))).2
      (maps'.maps g' t (readings'.map (·.position))).2
  observe : ∀ {Ms Ns}, L.maps Ms Ns →
    Alike L.fault L.beam (Observation.observe Ms readings) (Observation.observe Ns readings')
  residual : ∀ {Ms Ns s t}, L.maps Ms Ns → L.beam s t →
    Alike L.fault (· = ·) (s.residual Ms readings) (t.residual Ns readings')
  relax : ∀ {s s' t t'} (alpha : K), L.beam s s' → L.beam t t' →
    L.beam (s.relax t alpha) (s'.relax t' alpha)
  empty : L.histories (.empty planeMoments) (.empty planeMoments)
  record : ∀ {h h' i j s s' t t'}, L.histories h h' → L.Twins i j → L.beam s s' → L.beam t t' →
    L.histories (recordIncrements h i s t) (recordIncrements h' j s' t')
  factor : ∀ (settings : Settings K) {h h'}, L.histories h h' →
    (relaxation settings h).1 = (relaxation settings h').1
  cap : ∀ n x y, L.fault (.notConverged n x) (.notConverged n y)

variable {L : Likeness K G G'} {maps : MapSource K G} {maps' : MapSource K G'}
  {readings readings' : List (Reading K)} {initial initial' : Covariance K}
  {e : Estimator K G} {d : Estimator K G'}

/-- The next trials correspond. -/
theorem Beside.trial (h : L.Beside e d) (hinitial : L.beam initial initial') :
    L.beam (e.trial initial) (d.trial initial') := by
  have hcompleted := h.completed
  unfold Estimator.trial covariance
  generalize e.completed = its at hcompleted ⊢
  generalize d.completed = jts at hcompleted ⊢
  cases hcompleted with
  | nil => exact hinitial
  | cons hij _ => exact hij.next

/-- The factors are the same. -/
theorem Beside.alphas (h : L.Beside e d) : e.alphas = d.alphas := by
  have hcompleted := h.completed
  unfold Estimator.alphas
  generalize e.completed = its at hcompleted ⊢
  generalize d.completed = jts at hcompleted ⊢
  induction hcompleted with
  | nil => rfl
  | cons hij _ ih => rw [List.reverse_cons, List.reverse_cons, List.map_append, List.map_append, ih,
      List.map_singleton, List.map_singleton, hij.alpha]

theorem Beside.convergence (h : L.Beside e d) {step : Iteration K → K}
    (hstep : ∀ i j, L.Twins i j → j.step = step i) :
    d.convergence = e.completed.head?.map step := by
  have hcompleted := h.completed
  unfold Estimator.convergence
  generalize e.completed = its at hcompleted ⊢
  generalize d.completed = jts at hcompleted ⊢
  cases hcompleted with
  | nil => rfl
  | cons hij _ => exact congrArg some (hstep _ _ hij)

/-- The iterations that follow from corresponding values correspond, and so do the histories behind
them. -/
theorem relaxed_alike (h : L.Kept maps maps' readings readings') (settings : Settings K)
    {sofar sofar' : PlaneHistories K planeMoments} (hsofar : L.histories sofar.planes sofar'.planes)
    {before before' : List (Iteration K)} (hbefore : List.Forall₂ L.Twins before before')
    {trial trial' recursion recursion' : Covariance K} (htrial : L.beam trial trial')
    (hrecursion : L.beam recursion recursion') {Ms Ns : List (PhaseMap K)} (hmaps : L.maps Ms Ns) :
    Alike L.fault (fun r s => L.Twins r.1 s.1 ∧ L.histories r.2.planes s.2.planes)
      (relaxed settings sofar before.head? trial recursion Ms readings)
      (relaxed settings sofar' before'.head? trial' recursion' Ns readings') := by
  have hcompleted (hs hs' : PlaneHistories K planeMoments) (hhs : L.histories hs.planes hs'.planes) :
      Alike L.fault (fun r s => L.Twins r.1 s.1 ∧ L.histories r.2.planes s.2.planes)
        (relaxed settings hs none trial recursion Ms readings)
        (relaxed settings hs' none trial' recursion' Ns readings') := by
    have hnext := h.relax (relaxation settings hs.planes).1 htrial hrecursion
    unfold relaxed
    dsimp only
    rw [← h.factor settings hhs]
    refine (h.residual hmaps hnext).bind ?_
    rintro r _ rfl
    exact .ok ⟨⟨htrial, hrecursion, rfl, hnext, rfl, rfl, rfl⟩, hhs⟩
  cases hbefore with
  | nil => exact hcompleted _ _ hsofar
  | cons hij _ =>
    -- With the increments recorded, the rest is as in a first iteration.
    exact hcompleted
      ⟨recordIncrements sofar.planes _ trial recursion, fun p =>
        (recordIncrements_capacity sofar.planes _ trial recursion p).trans (sofar.capacities p)⟩
      ⟨recordIncrements sofar'.planes _ trial' recursion', fun p =>
        (recordIncrements_capacity sofar'.planes _ trial' recursion' p).trans
          (sofar'.capacities p)⟩
      (h.record hsofar hij htrial hrecursion)

/-- An iteration of each run. -/
theorem iterate_alike (h : L.Kept maps maps' readings readings')
    (hinitial : L.beam initial initial') (hed : L.Beside e d) :
    Alike L.fault L.Twins (iterate maps initial readings e).1
        (iterate maps' initial' readings' d).1 ∧
      L.Beside (iterate maps initial readings e).2 (iterate maps' initial' readings' d).2 := by
  have htrial := hed.trial hinitial
  have hsource := h.behind hed.source htrial
  -- What the answers lead to corresponds, one stage after the other.
  have hattempt : Alike L.fault
      (fun r s => L.Twins r.1 s.1 ∧ L.histories r.2.planes s.2.planes)
      (e.attempt (e.trial initial) readings (ask maps readings (e.trial initial) e).1)
      (d.attempt (d.trial initial') readings' (ask maps' readings' (d.trial initial') d).1) := by
    unfold attempt
    rw [← hed.settings]
    refine (h.answer hed.source htrial).bind fun Ms Ns hmaps => ?_
    refine (h.observe hmaps).bind fun recursion recursion' hrecursion => ?_
    exact relaxed_alike h e.settings hed.histories hed.completed htrial hrecursion hmaps
  have hbegun : e.begun + 1 = d.begun + 1 := congrArg (· + 1) hed.begun
  rw [iterate_eq, iterate_eq]
  obtain ⟨f, g, hx, hy, hfault⟩ | ⟨r, s, hx, hy, htwins, hhistories⟩ := hattempt.elim
  · rw [hx, hy]
    exact ⟨.error hfault, hsource, hed.settings, hed.status, hbegun, hed.completed, hed.histories,
      hed.residual⟩
  · rw [hx, hy]
    exact ⟨.ok htwins, hsource, hed.settings, hed.status, hbegun, .cons htwins hed.completed,
      hhistories, congrArg some htwins.residual⟩

/-- The ends of runs correspond. -/
theorem finish_alike (h : L.Kept maps maps' readings readings') (hed : L.Beside e d)
    {s t : Covariance K} (hst : L.beam s t) :
    Alike L.fault L.beam (finish maps readings s e).1 (finish maps' readings' t d).1 ∧
      L.Beside (finish maps readings s e).2 (finish maps' readings' t d).2 := by
  have hsource := h.behind hed.source hst
  have hresidual : Alike L.fault (· = ·)
      ((ask maps readings s e).1 >>= (s.residual · readings))
      ((ask maps' readings' t d).1 >>= (t.residual · readings')) :=
    (h.answer hed.source hst).bind fun Ms Ns hmaps => h.residual hmaps hst
  obtain ⟨f, g, hx, hy, hfault⟩ | ⟨r, _, hx, hy, rfl⟩ := hresidual.elim
  · rw [finish_error hx, finish_error hy]
    exact ⟨.error hfault, hsource, hed.settings, hed.status, hed.begun, hed.completed,
      hed.histories, hed.residual⟩
  · rw [finish_ok hx, finish_ok hy]
    exact ⟨.ok hst, hsource, hed.settings, hed.status, hed.begun, hed.completed, hed.histories, rfl⟩

/-! ### Runs -/

/-- Two runs are alike if they are whenever their first iterations leave both of them going. -/
theorem run_alike_of_going (h : L.Kept maps maps' readings readings')
    (hinitial : L.beam initial initial') (hed : L.Beside e d) {further : ℕ}
    (hdecide : ∀ i ∈ (run maps initial readings further e).2.completed, ∀ j, L.Twins i j →
      (i.step < e.settings.tolerance ↔ j.step < e.settings.tolerance))
    (hgoing : ∀ {i j e' d'}, iterate maps initial readings e = (.ok i, e') →
      iterate maps' initial' readings' d = (.ok j, d') → L.Beside e' d' →
      ¬ i.step < e'.settings.tolerance → ¬ j.step < d'.settings.tolerance →
      Alike L.fault L.beam (run maps initial readings further e).1
          (run maps' initial' readings' further d).1 ∧
        L.Beside (run maps initial readings further e).2
          (run maps' initial' readings' further d).2) :
    Alike L.fault L.beam (run maps initial readings further e).1
        (run maps' initial' readings' further d).1 ∧
      L.Beside (run maps initial readings further e).2
        (run maps' initial' readings' further d).2 := by
  -- Both runs stop here, or both converge here, or both go on.
  obtain ⟨hresult, hbehind⟩ := iterate_alike h hinitial hed
  have hset : (iterate maps initial readings e).2.settings = e.settings := iterate_settings e
  have hset' : (iterate maps' initial' readings' d).2.settings = d.settings := iterate_settings d
  cases hi : iterate maps initial readings e with
  | mk x e' =>
    cases hj : iterate maps' initial' readings' d with
    | mk y d' =>
      rw [hi, hj] at hresult hbehind
      rw [hi] at hset
      rw [hj] at hset'
      cases hresult with
      | error hfault =>
        rw [run_stopped hi, run_stopped hj]
        exact ⟨.error hfault, hbehind⟩
      | @ok i j htwins =>
        have hboth := hdecide i (mem_completed_run hi further) j htwins
        have htol : e.settings = d.settings := hed.settings
        by_cases hstep : i.step < e.settings.tolerance
        · have hstep' : j.step < d'.settings.tolerance := by
            rw [hset', ← htol]
            exact hboth.mp hstep
          rw [run_converged hi (by rwa [hset]), run_converged hj hstep']
          exact finish_alike h hbehind htwins.next
        · refine hgoing hi hj hbehind (by rwa [hset]) ?_
          rw [hset', ← htol]
          exact mt hboth.mpr hstep

/-- Runs correspond as long as the same steps are below the tolerance. -/
theorem run_alike (h : L.Kept maps maps' readings readings') (hinitial : L.beam initial initial')
    (further : ℕ) (hed : L.Beside e d)
    (hdecide : ∀ i ∈ (run maps initial readings further e).2.completed, ∀ j, L.Twins i j →
      (i.step < e.settings.tolerance ↔ j.step < e.settings.tolerance)) :
    Alike L.fault L.beam (run maps initial readings further e).1
        (run maps' initial' readings' further d).1 ∧
      L.Beside (run maps initial readings further e).2
        (run maps' initial' readings' further d).2 := by
  -- The iterations left are as many in both runs, and each pair of them leaves both going or none.
  induction further generalizing e d with
  | zero =>
    apply run_alike_of_going h hinitial hed hdecide
    intro i j e' d' hi hj hbehind hstep hstep'
    rw [run_capped hi hstep, run_capped hj hstep', hbehind.settings]
    exact ⟨.error (h.cap _ _ _), hbehind⟩
  | succ further ih =>
    apply run_alike_of_going h hinitial hed hdecide
    intro i j e' d' hi hj hbehind hstep hstep'
    have hset : (iterate maps initial readings e).2.settings = e.settings := iterate_settings e
    rw [hi] at hset
    rw [run_further hi hstep] at hdecide ⊢
    rw [run_further hj hstep']
    exact ih hbehind (by rwa [hset])

/-- Two estimations are alike in what they return and in what they leave on record. -/
theorem estimate_alike (h : L.Kept maps maps' readings readings')
    (hinitial : L.beam initial initial') (hsource : L.source e.source d.source)
    (hsettings : e.settings = d.settings)
    (hdecide : ∀ i ∈ (estimate maps e initial readings).2.completed, ∀ j, L.Twins i j →
      (i.step < e.settings.tolerance ↔ j.step < e.settings.tolerance)) :
    Alike L.fault L.beam (estimate maps e initial readings).1
        (estimate maps' d initial' readings').1 ∧
      L.Beside (estimate maps e initial readings).2 (estimate maps' d initial' readings').2 := by
  have hfresh : L.Beside (fresh e.source e.settings) (fresh d.source d.settings) :=
    ⟨hsource, hsettings, rfl, rfl, .nil, h.empty, rfl⟩
  have hcheck := h.check
  unfold Reading.check at hcheck
  -- The readings are rejected on both sides or on none.
  cases hr : Reading.setFault? readings with
  | some cause =>
    cases hr' : Reading.setFault? readings' with
    | none => rw [hr, hr'] at hcheck; cases hcheck
    | some cause' =>
      rw [hr, hr'] at hcheck
      cases hcheck with
      | error hfault =>
        rw [estimate_rejected hr, estimate_rejected hr']
        exact ⟨.error hfault, hsource, hsettings, rfl, rfl, .nil, h.empty, rfl⟩
  | none =>
    cases hr' : Reading.setFault? readings' with
    | some cause' => rw [hr, hr'] at hcheck; cases hcheck
    | none =>
      -- Then the runs correspond, and their statuses follow from their results.
      cases hrun : run maps initial readings (e.settings.maxIterations - 1)
          (fresh e.source e.settings) with
      | mk x e' =>
        cases hrun' : run maps' initial' readings' (d.settings.maxIterations - 1)
            (fresh d.source d.settings) with
        | mk y d' =>
          have hcompleted : (estimate maps e initial readings).2.completed = e'.completed := by
            cases x with
            | error f => rw [estimate_error hr hrun]
            | ok beam => rw [estimate_ok hr hrun]
          have hboth := run_alike h hinitial (e.settings.maxIterations - 1) hfresh
            (by rw [hrun, ← hcompleted]; exact hdecide)
          rw [hrun, hsettings, hrun'] at hboth
          obtain ⟨hresult, hbehind⟩ := hboth
          cases hresult with
          | error hfault =>
            rw [estimate_error hr hrun, estimate_error hr' hrun']
            exact ⟨.error hfault, { hbehind with status := rfl }⟩
          | ok hbeam =>
            rw [estimate_ok hr hrun, estimate_ok hr' hrun']
            exact ⟨.ok hbeam, { hbehind with status := rfl }⟩

end Likeness

end BeamOptics.Estimator
