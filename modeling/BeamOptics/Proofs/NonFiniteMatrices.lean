import BeamOptics.Proofs.FloatingPoint
import BeamOptics.Proofs.LeastSquares
import BeamOptics.Proofs.Solvers

/-! Matrices with entries that are not finite. The guards of the elimination pass over values that are
not numbers: an infinite entry is always caught, while a value that is not a number may get through and
then spoils every solution. -/

namespace BeamOptics

open Scalar (Floating)

variable {K : Type} [Scalar K] {n : ℕ}

namespace Mat

/-! ### Components of a solution -/

section Solution

variable {top : Fin (n + 1)} {pivot : K} {right factors : Vector K n} {rest : Elimination K n}

def reduced (top : Fin (n + 1)) (factors : Vector K n) (b : Vector K (n + 1)) : Vector K n :=
  Vector.ofFn fun i => b.get (exchange top i.succ) - b.get top * factors.get i

theorem get_solve_zero (b : Vector K (n + 1)) :
    ((Elimination.step top pivot right factors rest).solve b).get 0 =
      Fin.foldr n (fun k acc => acc - (rest.solve (reduced top factors b)).get k * right.get k)
        (b.get top) / pivot := Vector.get_ofFn _ 0

theorem get_solve_succ (b : Vector K (n + 1)) (i : Fin n) :
    ((Elimination.step top pivot right factors rest).solve b).get i.succ =
      (rest.solve (reduced top factors b)).get i := Vector.get_ofFn _ i.succ

end Solution

variable [Floating K]

/-! ### The pivot row -/

/-- A fold that takes a member when its value is larger ends with the first one or with a larger one. -/
theorem foldl_larger {α : Type} (value : α → K) {m : ℕ} (member : Fin m → α) (start : α) :
    let best := Fin.foldl m
      (fun best i => if value best < value (member i) then member i else best) start
    best = start ∨ value start < value best := by
  induction m with
  | zero => exact .inl rfl
  | succ m ih =>
    rw [Fin.foldl_succ_last]
    dsimp only
    have hbest := ih fun i => member i.castSucc
    set best := Fin.foldl m (fun best i =>
      if value best < value (member i.castSucc) then member i.castSucc else best) start
    split_ifs with h
    -- The last member is taken: what it exceeds is the first one or exceeds that.
    · obtain heq | hlt := hbest
      · exact .inr (heq ▸ h)
      · exact .inr (Floating.lt_trans hlt h)
    · exact hbest

/-- In a column that is passed over the first entry does not exceed zero. -/
theorem abs_first_le_zero {A : Mat K (n + 1)} (h : (A.entry A.pivotRow 0 == 0) = true) :
    Scalar.abs (A.entry 0 0) ≤ 0 := by
  have hle := Floating.abs_le_zero h
  obtain hfirst | hlt := foldl_larger (fun r => Scalar.abs (A.entry r 0)) Fin.succ (0 : Fin (n + 1))
  · have hrow : A.pivotRow = 0 := hfirst
    rwa [hrow] at hle
  · exact Floating.le_trans (Floating.lt_iff.mp hlt).1 hle

/-- Where no pivot is negligible, no column is passed over. -/
theorem pivot_of_not_negligible {A : Mat K (n + 1)} {t : K} (ht : 0 ≤ t)
    (h : ∀ p ∈ A.eliminate.pivots, ¬ Scalar.abs p ≤ t) : (A.entry A.pivotRow 0 == 0) = false := by
  by_contra hzero
  have hzero : (A.entry A.pivotRow 0 == 0) = true := Bool.not_eq_false _ ▸ hzero
  have hstep : A.eliminate = .step 0 (A.entry 0 0) (Vector.ofFn fun j => A.entry 0 j.succ)
      (Vector.ofFn fun _ => 0) (ofFn fun i j => A.entry i.succ j.succ).eliminate := if_pos hzero
  rw [hstep] at h
  exact h _ (List.mem_cons_self ..) (Floating.le_trans (abs_first_le_zero hzero) ht)

/-! ### Values that are not numbers -/

/-- A sum with an addend that is not a number is not one. -/
theorem isNaN_foldr_sub (f : Fin n → K) (a : K) (h : ∃ k, Scalar.isNaN (f k) = true) :
    Scalar.isNaN (Fin.foldr n (fun k acc => acc - f k) a) = true := by
  induction n with
  | zero => exact h.elim fun k _ => k.elim0
  | succ n ih =>
    rw [Fin.foldr_succ]
    obtain ⟨k, hk⟩ := h
    cases k using Fin.cases with
    | zero => exact Floating.isNaN_sub (.inr hk)
    | succ k => exact Floating.isNaN_sub (.inl (ih _ ⟨k, hk⟩))

/-- One step of the elimination keeps an entry that is not a number, in the row on top or in the rows
below. -/
theorem isNaN_step {A : Mat K (n + 1)} {top : Fin (n + 1)} {right factors : Vector K n} {B : Mat K n}
    (hright : ∀ j : Fin n, A.entry top j.succ = right.get j)
    (hfactors : ∀ i : Fin n, A.entry (exchange top i.succ) 0 * (1 / A.entry top 0) = factors.get i)
    (hB : ∀ i j : Fin n,
      A.entry (exchange top i.succ) j.succ - right.get j * factors.get i = B.entry i j)
    (hA : ∃ i j, Scalar.isNaN (A.entry i j) = true) :
    (Scalar.isNaN (A.entry top 0) = true ∨ ∃ j, Scalar.isNaN (right.get j) = true) ∨
      ∃ i j, Scalar.isNaN (B.entry i j) = true := by
  obtain ⟨r, c, hrc⟩ := hA
  obtain ⟨i, rfl⟩ : ∃ i, r = exchange top i := ⟨_, (exchange_exchange top r).symm⟩
  cases i using Fin.cases with
  | zero =>
    rw [exchange_zero] at hrc
    left
    cases c using Fin.cases with
    | zero => exact .inl hrc
    | succ c => exact .inr ⟨c, hright c ▸ hrc⟩
  | succ i =>
    right
    cases c using Fin.cases with
    | zero =>
      -- The factor of the row is no number either, and with it the whole row.
      have hfactor : Scalar.isNaN (factors.get i) = true := hfactors i ▸ Floating.isNaN_mul (.inl hrc)
      refine ⟨i, i, ?_⟩
      rw [← hB]
      exact Floating.isNaN_sub (.inr (Floating.isNaN_mul (.inr hfactor)))
    | succ c =>
      refine ⟨i, c, ?_⟩
      rw [← hB]
      exact Floating.isNaN_sub (.inl hrc)

/-- An entry that is not a number spoils every solution, unless a pivot is negligible. -/
theorem isNaN_solve {A : Mat K n} {t : K} (ht : 0 ≤ t)
    (hpivots : ∀ p ∈ A.eliminate.pivots, ¬ Scalar.abs p ≤ t)
    (hA : ∃ i j, Scalar.isNaN (A.entry i j) = true) (b : Vector K n) :
    ∃ i, Scalar.isNaN ((A.eliminate.solve b).get i) = true := by
  induction n with
  | zero => exact hA.elim fun i _ => i.elim0
  | succ n ih =>
    obtain ⟨right, factors, B, heliminate, hright, hfactors, hB⟩ :=
      exists_step (pivot_of_not_negligible ht hpivots)
    rw [heliminate] at hpivots ⊢
    -- From the row on top follows the first unknown, from the rows below all others.
    obtain (hpivot | ⟨c, hc⟩) | hbelow := isNaN_step hright hfactors hB hA
    · refine ⟨0, ?_⟩
      rw [get_solve_zero]
      exact Floating.isNaN_div (.inr hpivot)
    · refine ⟨0, ?_⟩
      rw [get_solve_zero]
      exact Floating.isNaN_div (.inl (isNaN_foldr_sub _ _ ⟨c, Floating.isNaN_mul (.inr hc)⟩))
    · have hrest : ∀ p ∈ B.eliminate.pivots, ¬ Scalar.abs p ≤ t := (List.forall_mem_cons.mp hpivots).2
      obtain ⟨i, hi⟩ := ih hrest hbelow (reduced A.pivotRow factors b)
      refine ⟨i.succ, ?_⟩
      rw [get_solve_succ]
      exact hi

/-! ### The guards -/

def HasNonFinite (A : Mat K n) : Prop := ∃ i j, Scalar.isFinite (A.entry i j) = false

def HasInfinite (A : Mat K n) : Prop :=
  ∃ i j, Scalar.isFinite (A.entry i j) = false ∧ Scalar.isNaN (A.entry i j) = false

/-- The guards of the elimination catch the matrix: an entry is infinite, or none is larger than zero,
or a pivot is negligible beside the largest entry. -/
def Caught (A : Mat K n) : Prop :=
  A.HasInfinite ∨ (A.maxAbs == 0) = true ∨
    ∃ p ∈ A.eliminate.pivots, Scalar.abs p ≤ negligiblePivot * A.maxAbs

instance (A : Mat K n) : Decidable A.HasNonFinite :=
  inferInstanceAs (Decidable (∃ i j, Scalar.isFinite (A.entry i j) = false))

instance (A : Mat K n) : Decidable A.HasInfinite :=
  inferInstanceAs
    (Decidable (∃ i j, Scalar.isFinite (A.entry i j) = false ∧ Scalar.isNaN (A.entry i j) = false))

instance (A : Mat K n) : Decidable A.Caught :=
  inferInstanceAs (Decidable (A.HasInfinite ∨ (A.maxAbs == 0) = true ∨
    ∃ p ∈ A.eliminate.pivots, Scalar.abs p ≤ negligiblePivot * A.maxAbs))

theorem smallestPivot_le_iff {e : Elimination K (n + 1)} {t : K} :
    e.smallestPivot ≤ t ↔ ∃ p ∈ e.pivots, Scalar.abs p ≤ t := by
  cases e with
  | step top pivot right factors rest =>
    rw [Elimination.pivots, List.exists_mem_cons_iff]
    exact Floating.foldl_minNum_le_iff rest.pivots (Scalar.abs pivot) t

variable (A : Mat K n)

theorem zero_le_maxAbs : 0 ≤ A.maxAbs := (Floating.foldl_maxNum A.entries Floating.number_zero).1

/-- The largest absolute entry is finite exactly if no entry is infinite, because entries that are
not numbers are passed over. -/
theorem isFinite_maxAbs_iff : Scalar.isFinite A.maxAbs = true ↔ ¬ A.HasInfinite := by
  obtain ⟨-, hall, hfinite⟩ := Floating.foldl_maxNum A.entries (Floating.number_zero (K := K))
  constructor
  · rintro hmax ⟨i, j, hij, hnumber⟩
    have hle := hall _ (mem_entries.mpr ⟨i, j, rfl⟩) hnumber
    cases hij.symm.trans (Floating.finite_of_abs_le hle hmax)
  · intro h
    refine hfinite Floating.finite_zero fun x hx hnumber => ?_
    obtain ⟨i, j, rfl⟩ := mem_entries.mp hx
    by_contra hij
    exact h ⟨i, j, Bool.not_eq_true _ ▸ hij, hnumber⟩

/-- The factorization fails for what the guards catch, and for nothing else. -/
theorem factorize_cases (A : Mat K (n + 1)) :
    A.Caught ∧ (∃ f, A.factorize = .error (.numeric f)) ∨
      ¬ A.Caught ∧ A.factorize = .ok A.eliminate := by
  -- The first guard in terms of the entries.
  have hguard : (decide (n + 1 = 0) || A.maxAbs == 0 || !Scalar.isFinite A.maxAbs) = true ↔
      (A.maxAbs == 0) = true ∨ A.HasInfinite := by
    rw [← not_not (a := A.HasInfinite), ← isFinite_maxAbs_iff]
    simp
  by_cases hmax : (A.maxAbs == 0) = true ∨ A.HasInfinite
  · exact .inl ⟨hmax.elim (fun h => .inr (.inl h)) .inl, _, if_pos (hguard.mpr hmax)⟩
  by_cases hpivot : A.eliminate.smallestPivot ≤ negligiblePivot * A.maxAbs
  · have hcaught : A.Caught := .inr (.inr (smallestPivot_le_iff.mp hpivot))
    exact .inl ⟨hcaught, _, (if_neg (mt hguard.mp hmax)).trans (if_pos hpivot)⟩
  · refine .inr ⟨?_, (if_neg (mt hguard.mp hmax)).trans (if_neg hpivot)⟩
    rintro (hinfinite | hzero | hnegligible)
    · exact hmax (.inr hinfinite)
    · exact hmax (.inl hzero)
    · exact hpivot (smallestPivot_le_iff.mpr hnegligible)

/-- What the guards do not catch is spoilt by an entry that is not finite. -/
theorem isNaN_solve_of_not_caught {A : Mat K n} (hA : A.HasNonFinite) (hcaught : ¬ A.Caught)
    (b : Vector K n) : ∃ i, Scalar.isNaN ((A.eliminate.solve b).get i) = true := by
  rw [Caught, not_or, not_or, not_exists] at hcaught
  obtain ⟨hinfinite, -, hpivots⟩ := hcaught
  obtain ⟨hfinite, hnonneg⟩ := Floating.negligiblePivot (K := K)
  have hthreshold : 0 ≤ negligiblePivot * A.maxAbs :=
    Floating.mul_nonneg hnonneg A.zero_le_maxAbs hfinite (A.isFinite_maxAbs_iff.mpr hinfinite)
  obtain ⟨i, j, hij⟩ := hA
  have hnan : Scalar.isNaN (A.entry i j) = true := by
    by_contra hnumber
    exact hinfinite ⟨i, j, hij, Bool.not_eq_true _ ▸ hnumber⟩
  exact isNaN_solve hthreshold (fun p hp hle => hpivots p ⟨hp, hle⟩) ⟨i, j, hnan⟩ b

end Mat

/-! ### Square matrices -/

namespace Square

/-- Inverse and solutions are returned for every right-hand side, each with a component that is not a
number, in every column if there are several. -/
structure Spoils (A : Square K) : Prop where
  inverse : ∃ X : Mat K A.dim, A.inverse = .ok ⟨A.dim, X⟩ ∧ ∀ j, ∃ i, Scalar.isNaN (X.entry i j) = true
  solve : ∀ b : Vec K, b.dim = A.dim → ∃ x : Vector K A.dim, A.solve b = .ok ⟨x.toList⟩ ∧
    ∃ i, Scalar.isNaN (x.get i) = true
  solveMat : ∀ B : Square K, B.dim = A.dim → ∃ X : Mat K A.dim, A.solveMat B = .ok ⟨A.dim, X⟩ ∧
    ∀ j, ∃ i, Scalar.isNaN (X.entry i j) = true

/-- What spoils the results is not refused. -/
theorem Spoils.not_refuses {A : Square K} (h : A.Spoils) : ¬ A.Refuses := by
  intro hrefuses
  obtain ⟨f, hf⟩ := hrefuses.inverse
  obtain ⟨X, hX, -⟩ := h.inverse
  cases hX.symm.trans hf

variable [Floating K]

/-- What gets past the guards with an entry that is not finite spoils all results. -/
theorem spoils_of_not_caught {A : Mat K n} (hA : A.HasNonFinite) (hcaught : ¬ A.Caught)
    (hfactorize : A.factorize = .ok A.eliminate) : Spoils ⟨n, A⟩ := by
  have hcolumn (B : Mat K n) (j : Fin n) :
      ∃ i, Scalar.isNaN ((A.eliminate.solveMat B).entry i j) = true := by
    obtain ⟨i, hi⟩ := Mat.isNaN_solve_of_not_caught hA hcaught (B.column j)
    refine ⟨i, ?_⟩
    rw [Elimination.solveMat, Mat.ofColumns, Mat.entry_ofFn]
    simpa [Vector.get_eq_getElem] using hi
  refine ⟨⟨_, ?_, hcolumn (.identity n)⟩, fun b hb => ?_, fun B hB => ?_⟩
  · rw [inverse, Mat.inverse, Mat.solveMat, hfactorize]
    rfl
  · obtain ⟨v, -, rfl⟩ := exists_toVector hb
    refine ⟨_, ?_, Mat.isNaN_solve_of_not_caught hA hcaught v⟩
    rw [solve_mk, Mat.solve, hfactorize]
    rfl
  · obtain ⟨C, rfl⟩ := exists_eq_mk hB
    refine ⟨_, ?_, hcolumn C⟩
    rw [solveMat_eq_map, Mat.solveMat, hfactorize]
    rfl

/-- A matrix with an entry that is not finite is either caught and refused, or not caught and spoils
all results. -/
theorem nonFinite_cases {A : Square K} (hA : A.mat.HasNonFinite) :
    A.mat.Caught ∧ A.Refuses ∨ ¬ A.mat.Caught ∧ A.Spoils := by
  obtain ⟨n, M⟩ := A
  cases n with
  | zero => exact hA.elim fun i _ => i.elim0
  | succ n =>
    obtain ⟨hcaught, f, hf⟩ | ⟨hcaught, hok⟩ := M.factorize_cases
    · exact .inl ⟨hcaught, refuses_of_factorize hf⟩
    · exact .inr ⟨hcaught, spoils_of_not_caught hA hcaught hok⟩

end Square

/-! ### Fits -/

def Moments.HasNaN (m : Moments K) : Prop :=
  Scalar.isNaN m.s11 = true ∨ Scalar.isNaN m.s12 = true ∨ Scalar.isNaN m.s22 = true

namespace Observation

def positionRow (M : PhaseMap K) (p : Plane) : Vector K 2 := #v[(M.block p).a, (M.block p).b]

variable {maps : List (PhaseMap K)} {readings : List (Reading K)}

/-- The entries of the normal matrix are sums over the maps. -/
theorem entry_normalMatrix (hlength : maps.length = readings.length) (p : Plane) (i j : Fin 3) :
    (normalMatrix (equations maps readings p)).entry i j =
      Scalar.sum (maps.map fun M => (row M p).get i * (row M p).get j) := by
  have hrows : (equations maps readings p).map (fun e => e.1.get i * e.1.get j) =
      maps.map fun M => (row M p).get i * (row M p).get j := by
    have hmap := congrArg (List.map fun r : Vector K 3 => r.get i * r.get j) (map_fst_equations hlength p)
    rwa [List.map_map, List.map_map] at hmap
  rw [← hrows]
  exact Mat.entry_ofFn ..

/-- A fit is solved from normal matrices that the guards do not catch. -/
theorem moments_of_zeroCurrent [Floating K] {beam : Covariance K}
    (h : zeroCurrent maps readings = .ok beam) (p : Plane) :
    maps.length = readings.length ∧ ¬ (normalMatrix (equations maps readings p)).Caught ∧
      ∃ x, x = (normalMatrix (equations maps readings p)).eliminate.solve
        (normalRhs (equations maps readings p)) ∧ beam.moments p = ⟨x.get 0, x.get 1, x.get 2⟩ := by
  obtain ⟨-, -, h⟩ := bind_eq_ok.mp h
  obtain ⟨hlength, m, hm, rfl⟩ := observe_eq_ok.mp h
  refine ⟨hlength, ?_⟩
  rw [Covariance.moments_ofMoments]
  have hp := hm p
  unfold planeMoments at hp
  dsimp only at hp
  obtain ⟨hcaught, f, hf⟩ | ⟨hcaught, hok⟩ :=
    (normalMatrix (equations maps readings p)).factorize_cases
  · rw [Mat.solve, hf] at hp
    cases hp
  · rw [Mat.solve, hok] at hp
    exact ⟨hcaught, _, rfl, (Except.ok.inj hp).symm⟩

/-- The place on the diagonal of a normal matrix where the fourth powers of an entry of the first rows are
added up. -/
def corner (k : Fin 2) : Fin 3 := ⟨2 * k, by omega⟩

theorem get_row_corner (M : PhaseMap K) (p : Plane) (k : Fin 2) :
    (row M p).get (corner k) = (positionRow M p).get k * (positionRow M p).get k := by
  fin_cases k <;> rfl

variable [Floating K] {M : PhaseMap K} {p : Plane} {k : Fin 2}

/-- An entry that is not finite in the first rows leaves its trace on the diagonal of the normal
matrix. -/
theorem not_finite_corner (hlength : maps.length = readings.length) (hM : M ∈ maps)
    (hk : Scalar.isFinite ((positionRow M p).get k) = false) :
    Scalar.isFinite
      ((normalMatrix (equations maps readings p)).entry (corner k) (corner k)) = false := by
  by_contra hfinite
  have hfinite := Bool.not_eq_false _ ▸ hfinite
  rw [entry_normalMatrix hlength] at hfinite
  have hterm := (Floating.finite_of_foldl_add hfinite).2 _ (List.mem_map_of_mem hM)
  rw [get_row_corner] at hterm
  cases hk.symm.trans (Floating.finite_of_mul (Floating.finite_of_mul hterm).1).1

theorem number_corner (hlength : maps.length = readings.length)
    (hk : ∀ M ∈ maps, Scalar.isNaN ((positionRow M p).get k) = false) :
    Scalar.isNaN
      ((normalMatrix (equations maps readings p)).entry (corner k) (corner k)) = false := by
  rw [entry_normalMatrix hlength]
  refine (Floating.number_of_le (Floating.zero_le_foldl_add
    (Floating.le_refl Floating.number_zero) fun x hx => ?_)).2
  obtain ⟨M, hM, rfl⟩ := List.mem_map.mp hx
  rw [get_row_corner]
  have hsquare := (Floating.number_of_le (Floating.mul_self_nonneg (hk M hM))).2
  exact Floating.mul_self_nonneg hsquare

/-- An infinite entry in the first row of a plane's block leaves nothing to fit, unless it meets one that
is not a number. -/
theorem zeroCurrent_refused (hM : M ∈ maps) (hk : Scalar.isFinite ((positionRow M p).get k) = false)
    (hnumbers : ∀ M ∈ maps, Scalar.isNaN ((positionRow M p).get k) = false) :
    ∃ f, zeroCurrent maps readings = .error f := by
  cases hfit : zeroCurrent maps readings with
  | error f => exact ⟨f, rfl⟩
  | ok beam =>
    -- Fourth powers of numbers add up to a number, so the sum in the corner is infinite.
    obtain ⟨hlength, hcaught, -⟩ := moments_of_zeroCurrent hfit p
    exact absurd (.inl ⟨_, _, not_finite_corner hlength hM hk, number_corner hlength hnumbers⟩) hcaught

/-- A fit through an entry that is not finite has a moment that is not a number. -/
theorem zeroCurrent_hasNaN (hM : M ∈ maps) (hk : Scalar.isFinite ((positionRow M p).get k) = false)
    {beam : Covariance K} (hfit : zeroCurrent maps readings = .ok beam) : (beam.moments p).HasNaN := by
  obtain ⟨hlength, hcaught, x, hx, hmoments⟩ := moments_of_zeroCurrent hfit p
  obtain ⟨i, hi⟩ := Mat.isNaN_solve_of_not_caught
    ⟨_, _, not_finite_corner hlength hM hk⟩ hcaught (normalRhs (equations maps readings p))
  rw [← hx] at hi
  rw [hmoments]
  fin_cases i
  · exact .inl hi
  · exact .inr (.inl hi)
  · exact .inr (.inr hi)

end Observation

/-! ### What entries that are not finite lead to -/

/-- A square matrix with an entry that is not finite is refused if the guards catch it, as they do an
infinite entry, and else all its solutions are spoilt; so is a fit through maps with such an entry in the
first row of a plane's block. -/
theorem nonFinite_refused_or_spoilt [Floating K] :
    (∀ A : Square K, A.mat.HasNonFinite →
      (A.Refuses ↔ A.mat.Caught) ∧ (A.Spoils ↔ ¬ A.mat.Caught)) ∧
    ∀ {maps : List (PhaseMap K)} {readings : List (Reading K)} {M : PhaseMap K} {p : Plane} {k : Fin 2},
      M ∈ maps → Scalar.isFinite ((Observation.positionRow M p).get k) = false →
        ((∀ N ∈ maps, Scalar.isNaN ((Observation.positionRow N p).get k) = false) →
          ∃ f, Observation.zeroCurrent maps readings = .error f) ∧
        ∀ beam, Observation.zeroCurrent maps readings = .ok beam → (beam.moments p).HasNaN := by
  refine ⟨fun A hA => ?_, fun hM hk =>
    ⟨Observation.zeroCurrent_refused hM hk, fun beam => Observation.zeroCurrent_hasNaN hM hk⟩⟩
  obtain ⟨hcaught, hrefuses⟩ | ⟨hcaught, hspoils⟩ := Square.nonFinite_cases hA
  · exact ⟨iff_of_true hrefuses hcaught,
      iff_of_false (fun h => h.not_refuses hrefuses) (not_not.mpr hcaught)⟩
  · exact ⟨iff_of_false hspoils.not_refuses hcaught, iff_of_true hspoils hcaught⟩

def shear (x : Float) : Square Float := ⟨2, ⟨#v[#v[1, x], #v[0, 1]]⟩⟩

def driftsTo (length : Float) : List (PhaseMap Float) := [0, 1, length].map (PhaseMap.drift · 2)

theorem mem_driftsTo (length : Float) : PhaseMap.drift length 2 ∈ driftsTo length := by simp [driftsTo]

def steadyReadings : List (Reading Float) :=
  [⟨"first", 0, ⟨1, 1, 1⟩⟩, ⟨"second", 1, ⟨1, 1, 1⟩⟩, ⟨"third", 2, ⟨1, 1, 1⟩⟩]

theorem exists_ok {ε α : Type} {x : Except ε α} (h : x.toOption.isSome = true) : ∃ a, x = .ok a := by
  cases x with
  | error e => cases h
  | ok a => exact ⟨a, rfl⟩

/-- An infinite shear is refused, and so is a fit through an infinite length. What is not a number gets
through. -/
theorem nonFinite_refused_or_spoilt_shear :
    (shear (1 / 0)).Refuses ∧ (shear (0 / 0)).Spoils ∧
      (∃ f, Observation.zeroCurrent (driftsTo (1 / 0)) steadyReadings = .error f) ∧
      ∃ beam, Observation.zeroCurrent (driftsTo (0 / 0)) steadyReadings = .ok beam ∧
        (beam.moments .horizontal).HasNaN := by
  obtain ⟨hsquare, hfit⟩ := nonFinite_refused_or_spoilt (K := Float)
  obtain ⟨beam, hbeam⟩ : ∃ beam,
      Observation.zeroCurrent (driftsTo (0 / 0)) steadyReadings = .ok beam :=
    exists_ok (by decide +kernel)
  refine ⟨(hsquare _ ?_).1.mpr ?_, (hsquare _ ?_).2.mpr ?_,
    (hfit (p := .horizontal) (k := 1) (mem_driftsTo (1 / 0)) ?_).1 ?_,
    beam, hbeam, (hfit (k := 1) (mem_driftsTo (0 / 0)) ?_).2 beam hbeam⟩
  all_goals decide +kernel

/-- A shear by what is not a number is inverted, and a fit through such a length is returned. -/
theorem nan_not_refused :
    (shear (0 / 0)).mat.HasNonFinite ∧
      (shear (0 / 0)).inverse.toOption.map (·.mat.entries) = some [0 / 0, 0 / 0, 0 / 0, 0 / 0] ∧
      ¬ (shear (0 / 0)).Refuses ∧
      ∃ beam, Observation.zeroCurrent (driftsTo (0 / 0)) steadyReadings = .ok beam := by
  have hinverse :
      (shear (0 / 0)).inverse.toOption.map (·.mat.entries) = some [0 / 0, 0 / 0, 0 / 0, 0 / 0] := by
    decide +kernel
  refine ⟨by decide +kernel, hinverse, fun hrefuses => ?_, exists_ok (by decide +kernel)⟩
  obtain ⟨f, hf⟩ := hrefuses.inverse
  rw [hf] at hinverse
  cases hinverse

end BeamOptics
