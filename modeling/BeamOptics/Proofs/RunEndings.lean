import BeamOptics.Proofs.RunRecord

/-! How a run ends. An invariant of the recorded run ties the iterations on record to the calls that
they made; what stops the run, and with which result, follows from it. -/

namespace BeamOptics

/-- Settings are accepted exactly if every control lies in its range. -/
theorem Settings.check_eq_ok {K : Type} [Scalar K] {s : Settings K} :
    s.check = .ok () ↔ 0 < s.maxIterations ∧ Scalar.isPositive s.tolerance = true ∧
      (0 < s.relaxationFloor ∧ s.relaxationFloor ≤ 2) ∧
      (0 ≤ s.rankTolerance ∧ s.rankTolerance < 1) := by
  have hnone : s.check = .ok () ↔ s.fault? = none := by
    unfold check
    cases s.fault? with
    | none => simp
    | some cause => simp
  rw [hnone]
  have hite (p : Prop) [Decidable p] (cause : SetupFault K) (x : Option (SetupFault K)) :
      (if p then some cause else x) = none ↔ ¬ p ∧ x = none := by
    by_cases hp : p <;> simp [hp]
  simp [fault?, hite, Nat.pos_iff_ne_zero]

namespace Estimator

variable {K G : Type} [Scalar K] {maps : MapSource K G} {initial : Covariance K}
  {readings : List (Reading K)} {i : Iteration K}

/-! ### What is on record while a run goes on -/

def historiesOf : List (Iteration K) → Histories K
  | [] => .empty planeMoments
  | [_] => .empty planeMoments
  | i :: j :: its => recordIncrements (historiesOf (j :: its)) j i.trial i.recursion

/-- An iteration follows from the iterations before it, the latest first, and from the maps that were
found for its trial beam. -/
structure Follows (settings : Settings K) (initial : Covariance K) (readings : List (Reading K))
    (before : List (Iteration K)) (found : List (PhaseMap K)) (i : Iteration K) : Prop where
  trial : i.trial = (before.head?.map (·.next)).getD initial
  recursion : Observation.observe found readings = .ok i.recursion
  alpha : i.alpha = (relaxation settings (historiesOf (i :: before))).1
  next : i.next = i.trial.relax i.recursion i.alpha
  residual : i.next.residual found readings = .ok i.residual
  step : i.step = i.next.relativeDistance i.trial

/-- The iterations completed so far, the latest first, and the calls that they made. -/
inductive Completed (settings : Settings K) (initial : Covariance K) (readings : List (Reading K)) :
    List (Iteration K) → List (Call K) → Prop
  | none : Completed settings initial readings [] []
  | next {its : List (Iteration K)} {calls : List (Call K)} {found : List (PhaseMap K)}
      {i : Iteration K} (before : Completed settings initial readings its calls)
      (follows : Follows settings initial readings its found i) :
      Completed settings initial readings (i :: its)
        (calls ++ [⟨i.trial, readings.map (·.position), .ok found⟩])

/-- Each completed iteration made one call. -/
theorem Completed.length_calls {settings : Settings K} {its : List (Iteration K)}
    {calls : List (Call K)} (h : Completed settings initial readings its calls) :
    calls.length = its.length := by
  induction h with
  | none => rfl
  | next _ _ ih => simp [ih]

structure Going (initial : Covariance K) (readings : List (Reading K))
    (e : Estimator K (G × List (Call K))) : Prop where
  completed : Completed e.settings initial readings e.completed e.source.2
  begun : e.begun = e.completed.length
  histories : e.histories.planes = historiesOf e.completed

/-- The iteration that is computed from the record follows from it. -/
theorem relaxed_follows {settings : Settings K} {before : List (Iteration K)}
    {trial recursion : Covariance K} {found : List (PhaseMap K)} {i : Iteration K}
    {sofar histories : PlaneHistories K planeMoments} (hsofar : sofar.planes = historiesOf before)
    (htrial : trial = (before.head?.map (·.next)).getD initial)
    (hobs : Observation.observe found readings = .ok recursion)
    (h : relaxed settings sofar before.head? trial recursion found readings =
      .ok (i, histories)) :
    Follows settings initial readings before found i ∧ i.trial = trial ∧
      histories.planes = historiesOf (i :: before) := by
  unfold relaxed at h
  rw [bind_eq_ok] at h
  obtain ⟨residual, hres, he⟩ := h
  cases pure_eq_ok.mp he
  -- Before the first iteration there is no trial to take an increment from.
  cases before with
  | nil =>
    refine ⟨⟨htrial, hobs, ?_, rfl, hres, rfl⟩, rfl, hsofar⟩
    exact congrArg (fun h => (relaxation settings h).1) hsofar
  | cons j its =>
    have hrecord := congrArg (recordIncrements · j trial recursion) hsofar
    refine ⟨⟨htrial, hobs, ?_, rfl, hres, rfl⟩, rfl, hrecord⟩
    exact congrArg (fun h => (relaxation settings h).1) hrecord

/-! ### How a run ends -/

theorem length_of_observe {found : List (PhaseMap K)} {beam : Covariance K}
    (h : Observation.observe found readings = .ok beam) : found.length = readings.length := by
  by_cases heq : found.length = readings.length
  · exact heq
  · unfold Observation.observe at h
    rw [if_pos heq] at h
    cases h

/-- A residual is found through as many maps as readings. -/
theorem residual_isOk {found : List (PhaseMap K)} (h : found.length = readings.length)
    (beam : Covariance K) : ∃ r, beam.residual found readings = .ok r := by
  have hne : ¬ found.length ≠ readings.length := fun hne => hne h
  obtain ⟨rows, hrows⟩ : ∃ rows, beam.compare found readings = .ok rows := by
    unfold Covariance.compare
    rw [if_neg hne]
    exact ⟨_, rfl⟩
  unfold Covariance.residual
  rw [hrows]
  cases rows with
  | nil => exact ⟨_, rfl⟩
  | cons row rows => exact ⟨_, rfl⟩

/-- Maps that an observation accepts complete an iteration. -/
theorem iterate_observed {e : Estimator K G} {found : List (PhaseMap K)} {recursion : Covariance K}
    (hhistories : e.histories.planes = historiesOf e.completed)
    (hanswer : (ask maps readings (e.trial initial) e).1 = .ok found)
    (hobs : Observation.observe found readings = .ok recursion) :
    ∃ i histories, Follows e.settings initial readings e.completed found i ∧
      i.recursion = recursion ∧ histories.planes = historiesOf (i :: e.completed) ∧
      iterate maps initial readings e =
        (.ok i, ⟨(ask maps readings (e.trial initial) e).2, e.settings, e.status, e.begun + 1,
          i :: e.completed, histories, some i.residual⟩) := by
  obtain ⟨⟨i, histories⟩, hrelaxed⟩ : ∃ r, relaxed e.settings e.histories e.completed.head?
      (e.trial initial) recursion found readings = .ok r := by
    obtain ⟨residual, hres⟩ := residual_isOk (length_of_observe hobs) _
    exact ⟨_, bind_eq_ok.mpr ⟨residual, hres, rfl⟩⟩
  have hattempt : e.attempt (e.trial initial) readings (.ok found) = .ok (i, histories) :=
    bind_eq_ok.mpr ⟨found, rfl, bind_eq_ok.mpr ⟨recursion, hobs, hrelaxed⟩⟩
  obtain ⟨hfollows, -, hplanes⟩ := relaxed_follows hhistories rfl hobs hrelaxed
  refine ⟨i, histories, hfollows, Except.ok.inj (hfollows.recursion.symm.trans hobs), hplanes, ?_⟩
  rw [iterate_eq, hanswer, hattempt]
  rfl

inductive Ending (settings : Settings K) (initial : Covariance K) (readings : List (Reading K))
    (e : Estimator K (G × List (Call K))) : Except (Fault K) (Covariance K) → Prop
  -- A step was below the tolerance, and maps were found for the beam that it led to.
  | converged {i : Iteration K} {its : List (Iteration K)} {calls : List (Call K)}
      {found : List (PhaseMap K)} {r : K}
      (completed : Completed settings initial readings (i :: its) calls)
      (record : e.completed = i :: its) (begun : e.begun = its.length + 1)
      (cap : its.length + 1 ≤ settings.maxIterations)
      (above : ∀ j ∈ its, ¬ j.step < settings.tolerance) (step : i.step < settings.tolerance)
      (call : e.source.2 = calls ++ [⟨i.next, readings.map (·.position), .ok found⟩])
      (evaluated : i.next.residual found readings = .ok r) (residual : e.residual = some r) :
      Ending settings initial readings e (.ok i.next)
  -- A step was below the tolerance, but no residual was found for the beam that it led to.
  | unconfirmed {i : Iteration K} {its : List (Iteration K)} {calls : List (Call K)}
      {answer : Except (Fault K) (List (PhaseMap K))} {f : Fault K}
      (completed : Completed settings initial readings (i :: its) calls)
      (record : e.completed = i :: its) (begun : e.begun = its.length + 1)
      (cap : its.length + 1 ≤ settings.maxIterations)
      (above : ∀ j ∈ its, ¬ j.step < settings.tolerance) (step : i.step < settings.tolerance)
      (call : e.source.2 = calls ++ [⟨i.next, readings.map (·.position), answer⟩])
      (fault : answer >>= (i.next.residual · readings) = .error f) :
      Ending settings initial readings e (.error f)
  -- No step was below the tolerance up to the cap.
  | capped {i : Iteration K} {its : List (Iteration K)}
      (completed : Completed settings initial readings (i :: its) e.source.2)
      (record : e.completed = i :: its) (begun : e.begun = its.length + 1)
      (cap : its.length + 1 = settings.maxIterations)
      (above : ∀ j ∈ i :: its, ¬ j.step < settings.tolerance) :
      Ending settings initial readings e (.error (.notConverged settings.maxIterations i.step))
  -- An iteration found no maps, or no beam through them.
  | interrupted {its : List (Iteration K)} {calls : List (Call K)}
      {answer : Except (Fault K) (List (PhaseMap K))} {f : Fault K}
      (completed : Completed settings initial readings its calls)
      (record : e.completed = its) (begun : e.begun = its.length + 1)
      (cap : its.length + 1 ≤ settings.maxIterations)
      (above : ∀ j ∈ its, ¬ j.step < settings.tolerance)
      (call : e.source.2 = calls ++
        [⟨(its.head?.map (·.next)).getD initial, readings.map (·.position), answer⟩])
      (fault : answer >>= (Observation.observe · readings) = .error f) :
      Ending settings initial readings e (.error f)

variable {e d : Estimator K (G × List (Call K))}

/-- Whatever the ending, the iterations on record are completed, and their calls come first. -/
theorem Ending.completed {settings : Settings K} {result : Except (Fault K) (Covariance K)}
    (h : Ending settings initial readings e result) :
    ∃ made rest, Completed settings initial readings e.completed made ∧
      e.source.2 = made ++ rest := by
  cases h with
  | converged completed record _ _ _ _ call => exact ⟨_, _, record ▸ completed, call⟩
  | unconfirmed completed record _ _ _ _ call => exact ⟨_, _, record ▸ completed, call⟩
  | capped completed record => exact ⟨_, [], record ▸ completed, (List.append_nil _).symm⟩
  | interrupted completed record _ _ _ call => exact ⟨_, _, record ▸ completed, call⟩

theorem Ending.withStatus {settings : Settings K} {result : Except (Fault K) (Covariance K)}
    (h : Ending settings initial readings e result) (status : Status) :
    Ending settings initial readings { e with status } result := by
  cases h with
  | converged completed record begun cap above step call evaluated residual =>
    exact .converged completed record begun cap above step call evaluated residual
  | unconfirmed completed record begun cap above step call fault =>
    exact .unconfirmed completed record begun cap above step call fault
  | capped completed record begun cap above => exact .capped completed record begun cap above
  | interrupted completed record begun cap above call fault =>
    exact .interrupted completed record begun cap above call fault

/-- A completed iteration leaves the run going, with one more iteration on record. -/
theorem iterate_completed (h : Going initial readings e)
    (hi : iterate maps.recording initial readings e = (.ok i, d)) :
    Going initial readings d ∧ d.completed = i :: e.completed ∧ d.settings = e.settings := by
  rw [iterate_eq] at hi
  cases ha : e.attempt (e.trial initial) readings
    (ask maps.recording readings (e.trial initial) e).1 with
  | error f => rw [ha] at hi; cases hi
  | ok r =>
    obtain ⟨j, histories⟩ := r
    rw [ha] at hi
    cases hi
    -- The call was answered, and its maps were fitted.
    unfold attempt at ha
    rw [bind_eq_ok] at ha
    obtain ⟨found, hfound, ha⟩ := ha
    obtain ⟨recursion, hobs, ha⟩ := bind_eq_ok.mp ha
    obtain ⟨hfollows, htrial, hhist⟩ := relaxed_follows h.histories rfl hobs ha
    refine ⟨⟨?_, ?_, hhist⟩, rfl, rfl⟩
    · have hnext := Completed.next h.completed hfollows
      rw [htrial, ← hfound] at hnext
      exact hnext
    · exact congrArg (· + 1) h.begun

/-- An interrupted iteration leaves its call on record and nothing else. -/
theorem iterate_interrupted {f : Fault K} (h : Going initial readings e)
    (hi : iterate maps.recording initial readings e = (.error f, d)) :
    d.completed = e.completed ∧ d.begun = e.completed.length + 1 ∧ d.settings = e.settings ∧
      ∃ answer, d.source.2 =
          e.source.2 ++ [⟨e.trial initial, readings.map (·.position), answer⟩] ∧
        answer >>= (Observation.observe · readings) = .error f := by
  rw [iterate_eq] at hi
  cases ha : e.attempt (e.trial initial) readings
    (ask maps.recording readings (e.trial initial) e).1 with
  | ok r => rw [ha] at hi; cases hi
  | error g =>
    rw [ha] at hi
    cases hi
    refine ⟨rfl, congrArg (· + 1) h.begun, rfl, _, rfl, ?_⟩
    unfold attempt at ha
    rw [bind_eq_error] at ha ⊢
    refine ha.imp_right ?_
    rintro ⟨found, hfound, ha⟩
    refine ⟨found, hfound, (bind_eq_error.mp ha).resolve_right ?_⟩
    -- Maps that an observation accepts are as many as the readings, so they have a residual.
    rintro ⟨recursion, hobs, ha⟩
    unfold relaxed at ha
    obtain hres | ⟨_, _, hpure⟩ := bind_eq_error.mp ha
    · obtain ⟨r, hr⟩ := residual_isOk (length_of_observe hobs) _
      cases hr.symm.trans hres
    · exact pure_ne_error hpure

/-- A run that met the tolerance ends with one more call, whether or not it gives a residual. -/
theorem finish_ending {settings : Settings K} {its : List (Iteration K)}
    (hc : Completed settings initial readings (i :: its) e.source.2)
    (hrecord : e.completed = i :: its) (hbegun : e.begun = its.length + 1)
    (hcap : its.length + 1 ≤ settings.maxIterations)
    (habove : ∀ j ∈ its, ¬ j.step < settings.tolerance) (hstep : i.step < settings.tolerance) :
    Ending settings initial readings (finish maps.recording readings i.next e).2
      (finish maps.recording readings i.next e).1 := by
  cases hr : (ask maps.recording readings i.next e).1 >>= (i.next.residual · readings) with
  | error f =>
    rw [finish_error hr]
    exact .unconfirmed hc hrecord hbegun hcap habove hstep rfl hr
  | ok r =>
    rw [finish_ok hr]
    obtain ⟨found, hfound, hres⟩ := bind_eq_ok.mp hr
    refine .converged hc hrecord hbegun hcap habove hstep ?_ hres rfl
    rw [← hfound]
    rfl

/-- The end of a run whose next iteration is its last. -/
theorem run_ending_of_going (h : Going initial readings e) {further : Nat}
    (hcap : e.completed.length + 1 ≤ e.settings.maxIterations)
    (habove : ∀ j ∈ e.completed, ¬ j.step < e.settings.tolerance)
    (hgoing : ∀ {i d}, iterate maps.recording initial readings e = (.ok i, d) →
      Going initial readings d → d.completed = i :: e.completed → d.settings = e.settings →
      ¬ i.step < d.settings.tolerance →
      Ending e.settings initial readings (run maps.recording initial readings further e).2
        (run maps.recording initial readings further e).1) :
    Ending e.settings initial readings (run maps.recording initial readings further e).2
      (run maps.recording initial readings further e).1 := by
  -- The iteration was interrupted, or it completed and met the tolerance, or the run goes on.
  cases hi : iterate maps.recording initial readings e with
  | mk r d =>
    cases r with
    | error f =>
      obtain ⟨hrecord, hbegun, -, answer, hcall, hfault⟩ := iterate_interrupted h hi
      rw [run_stopped hi]
      exact .interrupted h.completed hrecord hbegun hcap habove hcall hfault
    | ok i =>
      obtain ⟨hd, hrecord, hset⟩ := iterate_completed h hi
      by_cases hstep : i.step < d.settings.tolerance
      · have hc := hd.completed
        have hbegun := hd.begun
        rw [hrecord, hset] at hc
        rw [hrecord, List.length_cons] at hbegun
        rw [run_converged hi hstep]
        rw [hset] at hstep
        exact finish_ending hc hrecord hbegun hcap habove hstep
      · exact hgoing hi hd hrecord hset hstep

/-- A run that goes on ends in one of these ways, whatever is on record before it. -/
theorem run_ending (maps : MapSource K G) (h : Going initial readings e) (further : Nat)
    (hcap : e.completed.length + further + 1 = e.settings.maxIterations)
    (habove : ∀ j ∈ e.completed, ¬ j.step < e.settings.tolerance) :
    Ending e.settings initial readings (run maps.recording initial readings further e).2
      (run maps.recording initial readings further e).1 := by
  -- The record grows as the iterations left become fewer, so together they stay the cap.
  induction further generalizing e with
  | zero =>
    apply run_ending_of_going h (by omega) habove
    intro i d hi hd hrecord hset hstep
    have hc := hd.completed
    have hbegun := hd.begun
    rw [hrecord, hset] at hc
    rw [hrecord, List.length_cons] at hbegun
    rw [run_capped hi hstep, hset]
    rw [hset] at hstep
    exact .capped hc hrecord hbegun (by omega) (List.forall_mem_cons.mpr ⟨hstep, habove⟩)
  | succ further ih =>
    apply run_ending_of_going h (by omega) habove
    intro i d hi hd hrecord hset hstep
    rw [run_further hi hstep, ← hset]
    apply ih hd
    · rw [hrecord, hset, List.length_cons]
      omega
    · rw [hrecord]
      exact List.forall_mem_cons.mpr ⟨hstep, by rwa [hset]⟩

/-! ### Estimations -/

def recorded (maps : MapSource K G) (e : Estimator K G) (initial : Covariance K)
    (readings : List (Reading K)) : Estimator K (G × List (Call K)) :=
  (estimate maps.recording e.recording initial readings).2

section Estimations

variable {e : Estimator K G}

/-- The estimator that an estimation leaves behind is the recorded one without its calls. -/
theorem estimate_snd (maps : MapSource K G) (e : Estimator K G) (initial : Covariance K)
    (readings : List (Reading K)) :
    (estimate maps e initial readings).2 =
      (recorded maps e initial readings).mapSource Prod.fst := by
  rw [estimate_recording]
  rfl

theorem recorded_rejected (maps : MapSource K G) (e : Estimator K G) (initial : Covariance K)
    {cause : SetupFault K} (h : Reading.setFault? readings = some cause) :
    (estimate maps e initial readings).1 = .error (.setup cause) ∧
      recorded maps e initial readings =
        { fresh (e.source, []) e.settings with status := .failed } := by
  rw [recorded, estimate_rejected h, estimate_rejected h]
  exact ⟨rfl, rfl⟩

/-- An estimation that begins its run ends it in one of the ways of a run, with the status that goes
with its result. -/
theorem estimate_ending (maps : MapSource K G) (initial : Covariance K)
    (he : e.settings.check = .ok ()) (hr : Reading.setFault? readings = none) :
    Ending e.settings initial readings (recorded maps e initial readings)
        (estimate maps e initial readings).1 ∧
      (recorded maps e initial readings).status =
        (match (estimate maps e initial readings).1 with
          | .ok _ => .converged
          | .error _ => .failed) := by
  have hgoing : Going initial readings (fresh (e.source, ([] : List (Call K))) e.settings) :=
    ⟨.none, rfl, rfl⟩
  have hcap := (Settings.check_eq_ok.mp he).1
  have hend := run_ending maps hgoing (e.settings.maxIterations - 1)
    (by simp only [fresh, List.length_nil]; omega) (by simp [fresh])
  -- The recorded run decides the status.
  rw [estimate_recording, recorded]
  cases hrun : run maps.recording initial readings (e.settings.maxIterations - 1)
    (fresh (e.source, ([] : List (Call K))) e.settings) with
  | mk r d =>
    rw [hrun] at hend
    cases r with
    | error f =>
      have h : estimate maps.recording e.recording initial readings = _ := estimate_error hr hrun
      rw [h]
      exact ⟨hend.withStatus .failed, rfl⟩
    | ok beam =>
      have h : estimate maps.recording e.recording initial readings = _ := estimate_ok hr hrun
      rw [h]
      exact ⟨hend.withStatus .converged, rfl⟩

/-- The iterations on record behind an estimation, and the calls that they made. -/
theorem estimate_completed (maps : MapSource K G) (initial : Covariance K)
    (readings : List (Reading K)) (he : e.settings.check = .ok ()) :
    ∃ made rest, Completed e.settings initial readings (estimate maps e initial readings).2.completed
      made ∧ calls maps e initial readings = made ++ rest := by
  have hcalls : calls maps e initial readings = (recorded maps e initial readings).source.2 := rfl
  rw [estimate_snd, hcalls]
  cases hr : Reading.setFault? readings with
  | some cause =>
    rw [(recorded_rejected maps e initial hr).2]
    exact ⟨[], [], .none, rfl⟩
  | none => exact (estimate_ending maps initial he hr).1.completed

end Estimations

end Estimator

end BeamOptics
