import BeamOptics.Proofs.RealMatrix
import BeamOptics.Proofs.Outcomes

/-! Linear systems over the reals. Each step of an elimination keeps the solutions of the system, so
a matrix whose pivots do not vanish has exactly the solution that the elimination gives. -/

namespace BeamOptics

variable {n : ℕ}

/-! ### The pivot row -/

/-- A fold that keeps the member with the largest value ends with one that no member exceeds. -/
theorem foldl_largest {α : Type} (value : α → ℝ) {m : ℕ} (member : Fin m → α) (start : α) :
    let best := Fin.foldl m
      (fun best i => if value best < value (member i) then member i else best) start
    value start ≤ value best ∧ ∀ i, value (member i) ≤ value best := by
  induction m with
  | zero => exact ⟨le_rfl, fun i => i.elim0⟩
  | succ m ih =>
    obtain ⟨hstart, hmember⟩ := ih fun i => member i.castSucc
    rw [Fin.foldl_succ_last]
    dsimp only
    -- The last member meets the best of the others, which the induction speaks of.
    set best := Fin.foldl m (fun best i =>
      if value best < value (member i.castSucc) then member i.castSucc else best) start
    have hkeep : value best ≤
        value (if value best < value (member (Fin.last m)) then member (Fin.last m) else best) := by
      split_ifs with h
      · exact h.le
      · exact le_rfl
    refine ⟨hstart.trans hkeep, fun i => ?_⟩
    induction i using Fin.lastCases with
    | last =>
      split_ifs with h
      · exact le_rfl
      · exact not_lt.mp h
    | cast i => exact (hmember i).trans hkeep

/-- The pivot row holds the largest entry of the first column. -/
theorem Mat.abs_entry_le_pivot (A : Mat ℝ (n + 1)) (i : Fin (n + 1)) :
    |A.entry i 0| ≤ |A.entry A.pivotRow 0| := by
  obtain ⟨hfirst, hothers⟩ := foldl_largest (fun r => |A.entry r 0|) Fin.succ (0 : Fin (n + 1))
  induction i using Fin.cases with
  | zero => exact hfirst
  | succ i => exact hothers i

theorem exchange_zero (top : Fin (n + 1)) : exchange top 0 = top := if_pos rfl

theorem exchange_exchange (top i : Fin (n + 1)) : exchange top (exchange top i) = i := by
  by_cases hi : i = 0
  · rw [hi, exchange_zero]
    by_cases htop : top = 0
    · rw [htop, exchange_zero]
    · rw [exchange, if_neg htop, if_pos rfl]
  by_cases htop : i = top
  · have hfirst : exchange top i = 0 := by rw [exchange, if_neg hi, if_pos htop]
    rw [hfirst, exchange_zero, htop]
  · have hsame : exchange top i = i := by rw [exchange, if_neg hi, if_neg htop]
    rw [hsame, hsame]

/-- The row on top and the rows below it are all rows. -/
theorem forall_exchange {P : Fin (n + 1) → Prop} (top : Fin (n + 1)) :
    (∀ i, P i) ↔ P top ∧ ∀ i : Fin n, P (exchange top i.succ) := by
  have hall : (∀ i, P i) ↔ ∀ i, P (exchange top i) := by
    refine ⟨fun h i => h _, fun h i => ?_⟩
    rw [← exchange_exchange top i]
    exact h _
  rw [hall, Fin.forall_fin_succ, exchange_zero]

/-! ### Solutions -/

def Mat.Solves (A : Mat ℝ n) (x b : Vector ℝ n) : Prop :=
  ∀ i, ∑ j, A.entry i j * x.get j = b.get i

theorem foldr_sub (f : Fin n → ℝ) (a : ℝ) :
    Fin.foldr n (fun k acc => acc - f k) a = a - ∑ k, f k := by
  induction n with
  | zero => simp
  | succ n ih =>
    rw [Fin.foldr_succ, ih, Fin.sum_univ_succ]
    ring

/-- Back substitution takes the other unknowns from the rest of the record and the first one from
its row. -/
theorem Elimination.solve_step (top : Fin (n + 1)) (pivot : ℝ) (right factors : Vector ℝ n)
    (rest : Elimination ℝ n) (b : Vector ℝ (n + 1)) {others : Vector ℝ n}
    (hothers : others =
      rest.solve (Vector.ofFn fun i => b.get (exchange top i.succ) - b.get top * factors.get i)) :
    (Elimination.step top pivot right factors rest).solve b =
      Vector.ofFn (Fin.cases ((b.get top - ∑ k, others.get k * right.get k) / pivot)
        fun i => others.get i) := by
  subst hothers
  rw [← foldr_sub]
  rfl

section Step

variable {A : Mat ℝ (n + 1)} {x b : Vector ℝ (n + 1)}

/-- One step of the elimination keeps the solutions: the first unknown follows from the row on top,
and the others solve the rows below with the top row taken from them. -/
theorem Mat.solves_step {pivot : ℝ} {right factors : Vector ℝ n} {B : Mat ℝ n} {top : Fin (n + 1)}
    (hpivot : A.entry top 0 = pivot) (hne : pivot ≠ 0)
    (hright : ∀ j : Fin n, A.entry top j.succ = right.get j)
    (hfactors : ∀ i : Fin n, A.entry (exchange top i.succ) 0 = factors.get i * pivot)
    (hB : ∀ i j : Fin n, B.entry i j =
      A.entry (exchange top i.succ) j.succ - right.get j * factors.get i) :
    A.Solves x b ↔
      x.get 0 = (b.get top - ∑ j : Fin n, x.get j.succ * right.get j) / pivot ∧
        B.Solves (Vector.ofFn fun j => x.get j.succ)
          (Vector.ofFn fun i => b.get (exchange top i.succ) - b.get top * factors.get i) := by
  have hrow (i : Fin (n + 1)) : ∑ j, A.entry i j * x.get j =
      A.entry i 0 * x.get 0 + ∑ j : Fin n, A.entry i j.succ * x.get j.succ := Fin.sum_univ_succ _
  have hsum : ∑ j : Fin n, A.entry top j.succ * x.get j.succ =
      ∑ j : Fin n, x.get j.succ * right.get j :=
    Finset.sum_congr rfl fun j _ => by rw [hright, mul_comm]
  have htop : ∑ j, A.entry top j * x.get j = b.get top ↔
      x.get 0 = (b.get top - ∑ j : Fin n, x.get j.succ * right.get j) / pivot := by
    rw [hrow, hpivot, hsum, eq_div_iff hne, mul_comm pivot]
    exact eq_sub_iff_add_eq.symm
  -- The row on top fixes the first unknown, and with it the rows below become those of `B`.
  rw [Mat.Solves, forall_exchange top, htop]
  apply and_congr_right
  intro hfirst
  apply forall_congr'
  intro i
  have hpivotal : pivot * x.get 0 = b.get top - ∑ j : Fin n, x.get j.succ * right.get j := by
    rw [hfirst, mul_div_cancel₀ _ hne]
  have habove : ∑ j, A.entry (exchange top i.succ) j * x.get j = factors.get i * (pivot * x.get 0) +
      ∑ j : Fin n, A.entry (exchange top i.succ) j.succ * x.get j.succ := by
    rw [hrow, hfactors, mul_assoc]
  have hbelow : ∑ j : Fin n, B.entry i j * (Vector.ofFn fun j : Fin n => x.get j.succ).get j =
      ∑ j : Fin n, A.entry (exchange top i.succ) j.succ * x.get j.succ -
        factors.get i * ∑ j : Fin n, x.get j.succ * right.get j := by
    rw [Finset.mul_sum, ← Finset.sum_sub_distrib]
    apply Finset.sum_congr rfl
    intro j _
    rw [hB, Vector.get_ofFn]
    ring
  rw [habove, hbelow, hpivotal, Vector.get_ofFn]
  constructor
  · intro h
    linarith
  · intro h
    linarith

theorem eq_ofFn_cases {others : Vector ℝ n} {first : ℝ} :
    x = Vector.ofFn (Fin.cases first fun i => others.get i) ↔
      x.get 0 = first ∧ (Vector.ofFn fun j : Fin n => x.get j.succ) = others := by
  constructor
  · rintro rfl
    refine ⟨by simp, Vector.ext fun i hi => ?_⟩
    simp [Vector.get_eq_getElem]
  · rintro ⟨rfl, rfl⟩
    apply Vector.ext
    intro i hi
    cases i with
    | zero => simp [Vector.get_eq_getElem]
    | succ i => simp [Vector.get_eq_getElem]

/-- A first step on a pivot that does not vanish, and what is left to eliminate. -/
theorem Mat.eliminate_step (h : A.entry A.pivotRow 0 ≠ 0) :
    ∃ (right factors : Vector ℝ n) (B : Mat ℝ n),
      A.eliminate = .step A.pivotRow (A.entry A.pivotRow 0) right factors B.eliminate ∧
      (∀ j : Fin n, A.entry A.pivotRow j.succ = right.get j) ∧
      (∀ i : Fin n, A.entry (exchange A.pivotRow i.succ) 0 =
        factors.get i * A.entry A.pivotRow 0) ∧
      ∀ i j : Fin n, B.entry i j =
        A.entry (exchange A.pivotRow i.succ) j.succ - right.get j * factors.get i := by
  have hbeq : (A.entry A.pivotRow 0 == Scalar.ofNat 0) = false := by simpa using h
  obtain ⟨right, factors, B, heliminate, hright, hfactors, hB⟩ := exists_step hbeq
  refine ⟨right, factors, B, heliminate, hright, fun i => ?_, fun i j => (hB i j).symm⟩
  rw [← hfactors, Scalar.real_one, mul_one_div, div_mul_cancel₀ _ h]

/-- A column without a pivot is passed over. -/
theorem Mat.eliminate_skip (h : A.entry A.pivotRow 0 = 0) :
    A.eliminate = .step 0 (A.entry 0 0) (Vector.ofFn fun j => A.entry 0 j.succ)
      (Vector.ofFn fun _ => 0) (ofFn fun i j => A.entry i.succ j.succ).eliminate := by
  have hbeq : (A.entry A.pivotRow 0 == Scalar.ofNat 0) = true := by simp [h]
  rw [← Scalar.real_zero]
  exact if_pos hbeq

/-- Where the pivot vanishes, the whole column does. -/
theorem Mat.column_eq_zero (h : A.entry A.pivotRow 0 = 0) (i : Fin (n + 1)) : A.entry i 0 = 0 := by
  have hle := A.abs_entry_le_pivot i
  rw [h, abs_zero] at hle
  exact abs_nonpos_iff.mp hle

/-- A column without an entry has no pivot. -/
theorem Mat.pivot_ne_zero (h : ∀ p ∈ A.eliminate.pivots, p ≠ 0) : A.entry A.pivotRow 0 ≠ 0 := by
  intro hzero
  -- The elimination records the first entry of the column, which vanishes with the pivot.
  rw [eliminate_skip hzero] at h
  exact h _ (List.mem_cons_self ..) (column_eq_zero hzero 0)

end Step

/-- A matrix without a vanishing pivot has one solution for each right-hand side. -/
theorem Mat.solves_iff {A : Mat ℝ n} (h : ∀ p ∈ A.eliminate.pivots, p ≠ 0) (x b : Vector ℝ n) :
    A.Solves x b ↔ x = A.eliminate.solve b := by
  induction n with
  | zero =>
    refine ⟨fun _ => Vector.ext fun i hi => absurd hi (Nat.not_lt_zero i), ?_⟩
    exact fun _ i => i.elim0
  | succ n ih =>
    have hne := pivot_ne_zero h
    obtain ⟨right, factors, B, heliminate, hright, hfactors, hB⟩ := eliminate_step hne
    rw [heliminate] at h ⊢
    have hrest : ∀ p ∈ B.eliminate.pivots, p ≠ 0 := (List.forall_mem_cons.mp h).2
    rw [solves_step rfl hne hright hfactors hB, ih hrest, Elimination.solve_step _ _ _ _ _ _ rfl,
      eq_ofFn_cases]
    -- The two sides differ in the unknowns that the first one is computed from.
    apply and_congr_left
    intro hothers
    rw [← hothers]
    simp only [Vector.get_ofFn]

/-! ### Factorizations -/

theorem foldl_min_le (qs : List ℝ) (m : ℝ) :
    qs.foldl (fun acc q => min acc |q|) m ≤ m ∧
      ∀ q ∈ qs, qs.foldl (fun acc q => min acc |q|) m ≤ |q| := by
  induction qs generalizing m with
  | nil => simp
  | cons q qs ih =>
    obtain ⟨hstart, hall⟩ := ih (min m |q|)
    refine ⟨hstart.trans (min_le_left _ _), List.forall_mem_cons.mpr ⟨?_, hall⟩⟩
    exact hstart.trans (min_le_right _ _)

/-- The smallest pivot is no larger than any. -/
theorem Elimination.smallestPivot_le {e : Elimination ℝ n} {p : ℝ} (hp : p ∈ e.pivots) :
    e.smallestPivot ≤ |p| := by
  unfold smallestPivot
  cases hpivots : e.pivots with
  | nil => simp [hpivots] at hp
  | cons q qs =>
    obtain ⟨hstart, hall⟩ := foldl_min_le qs |q|
    rw [hpivots] at hp
    rcases List.mem_cons.mp hp with rfl | hp
    · exact hstart
    · exact hall p hp

theorem le_foldl_max (xs : List ℝ) (m : ℝ) :
    m ≤ xs.foldl (fun acc x => max acc |x|) m ∧
      ∀ x ∈ xs, |x| ≤ xs.foldl (fun acc x => max acc |x|) m := by
  induction xs generalizing m with
  | nil => simp
  | cons x xs ih =>
    obtain ⟨hstart, hall⟩ := ih (max m |x|)
    refine ⟨(le_max_left _ _).trans hstart, List.forall_mem_cons.mpr ⟨?_, hall⟩⟩
    exact (le_max_right _ _).trans hstart

theorem Mat.maxAbs_nonneg (A : Mat ℝ n) : 0 ≤ A.maxAbs := by
  rw [maxAbs, Scalar.maxAbs, Scalar.real_zero]
  exact (le_foldl_max A.entries 0).1

theorem Mat.abs_entry_le_maxAbs (A : Mat ℝ n) (i j : Fin n) : |A.entry i j| ≤ A.maxAbs := by
  have hmem : A.entry i j ∈ A.entries := mem_entries.mpr ⟨i, j, rfl⟩
  rw [maxAbs, Scalar.maxAbs, Scalar.real_zero]
  exact (le_foldl_max A.entries 0).2 _ hmem

theorem Mat.maxAbs_le {A : Mat ℝ n} {c : ℝ} (hc : 0 ≤ c) (h : ∀ i j, |A.entry i j| ≤ c) :
    A.maxAbs ≤ c := by
  have hfold (xs : List ℝ) (m : ℝ) (hm : m ≤ c) (hxs : ∀ x ∈ xs, |x| ≤ c) :
      xs.foldl (fun acc x => max acc |x|) m ≤ c := by
    induction xs generalizing m with
    | nil => exact hm
    | cons x xs ih =>
      obtain ⟨hx, hrest⟩ := List.forall_mem_cons.mp hxs
      exact ih _ (max_le hm hx) hrest
  rw [maxAbs, Scalar.maxAbs, Scalar.real_zero]
  refine hfold _ 0 hc fun x hx => ?_
  obtain ⟨i, j, rfl⟩ := mem_entries.mp hx
  exact h i j

/-- A matrix is refused if nothing in it can be used, or if its smallest pivot is negligible. -/
theorem Mat.factorize_eq (A : Mat ℝ n) : A.factorize =
    if n = 0 ∨ A.maxAbs = 0 then .error (.numeric .unusableMatrix)
    else if A.eliminate.smallestPivot ≤ negligiblePivot * A.maxAbs then
      .error (.numeric (.singularMatrix n A.eliminate.smallestPivot))
    else .ok A.eliminate := by
  unfold factorize
  simp

section PivotTest

variable {A : Mat ℝ n}

def Mat.PassesPivotTest (A : Mat ℝ n) : Prop :=
  negligiblePivot * A.maxAbs < A.eliminate.smallestPivot

theorem Mat.PassesPivotTest.smallestPivot_pos (h : A.PassesPivotTest) : 0 < A.eliminate.smallestPivot :=
  (mul_nonneg (by norm_num [negligiblePivot]) A.maxAbs_nonneg).trans_lt h

/-- No pivot of a matrix that passes the test vanishes. -/
theorem Mat.PassesPivotTest.pivots_ne_zero (h : A.PassesPivotTest) : ∀ p ∈ A.eliminate.pivots, p ≠ 0 := by
  intro p hp
  exact abs_pos.mp (h.smallestPivot_pos.trans_le (Elimination.smallestPivot_le hp))

/-- The elimination is accepted for the matrices that pass the test. -/
theorem Mat.factorize_of_passes (h : A.PassesPivotTest) : A.factorize = .ok A.eliminate := by
  have husable : ¬ (n = 0 ∨ A.maxAbs = 0) := by
    cases n with
    | zero =>
      -- Zero stands for the smallest of no pivots.
      have hnone : A.eliminate.smallestPivot = 0 := Scalar.real_zero
      exact absurd hnone h.smallestPivot_pos.ne'
    | succ n =>
      rintro (hn | hmax)
      · exact absurd hn n.succ_ne_zero
      · refine pivot_ne_zero h.pivots_ne_zero (abs_nonpos_iff.mp ?_)
        exact (A.abs_entry_le_maxAbs _ _).trans_eq hmax
  rw [factorize_eq, if_neg husable, if_neg (not_le.mpr h)]

theorem Mat.factorize_of_not_passes (h : ¬ A.PassesPivotTest) : ∃ f, A.factorize = .error (.numeric f) := by
  rw [factorize_eq]
  split_ifs with husable hpivot
  · exact ⟨_, rfl⟩
  · exact ⟨_, rfl⟩
  · exact absurd (not_le.mp hpivot) h

theorem Mat.passes_of_factorize {e : Elimination ℝ n} (h : A.factorize = .ok e) :
    A.PassesPivotTest := by
  by_contra hfails
  obtain ⟨f, hf⟩ := factorize_of_not_passes hfails
  cases hf.symm.trans h

/-- No pivot of an accepted factorization vanishes. -/
theorem Mat.factorize_eq_ok {e : Elimination ℝ n} (h : A.factorize = .ok e) :
    e = A.eliminate ∧ ∀ p ∈ A.eliminate.pivots, p ≠ 0 := by
  have hpasses := passes_of_factorize h
  rw [factorize_of_passes hpasses] at h
  cases h
  exact ⟨rfl, hpasses.pivots_ne_zero⟩

end PivotTest

/-- A solution that is returned is the only one. -/
theorem Mat.solves_iff_of_solve {A : Mat ℝ n} {x b : Vector ℝ n} (h : A.solve b = .ok x)
    (y : Vector ℝ n) : A.Solves y b ↔ y = x := by
  obtain ⟨e, he, rfl⟩ := map_eq_ok.mp h
  obtain ⟨rfl, hpivots⟩ := factorize_eq_ok he
  exact solves_iff hpivots y b

/-! ### Sums of three squares -/

noncomputable def Mat.ofSquares (p q r a b c : ℝ) : Mat ℝ 3 :=
  ⟨#v[#v[p, p * a, p * b], #v[p * a, p * a * a + q, p * a * b + q * c],
    #v[p * b, p * a * b + q * c, p * b * b + q * c * c + r]]⟩

section Squares

variable {p q r a b c : ℝ}

/-- The elimination of the form exchanges no rows, and its pivots are the weights of the squares. -/
theorem Mat.eliminate_ofSquares (hp : 0 < p) (hq : 0 < q) (hr : 0 < r) (ha : |a| ≤ 1)
    (hb : |b| ≤ 1) (hc : |c| ≤ 1) : (ofSquares p q r a b c).eliminate =
      .step 0 p #v[p * a, p * b] #v[a, b] (.step 0 q #v[q * c] #v[c] (.step 0 r #v[] #v[] .done)) := by
  -- A factor of absolute value at most one moves no row to the top.
  have hkeep {x y : ℝ} (hx : 0 < x) (hy : |y| ≤ 1) : ¬ |x| < |x| * |y| := by
    rw [not_lt]
    exact mul_le_of_le_one_right (abs_nonneg x) hy
  -- From the last pivot up: each elimination leaves the matrix of the one before.
  have hlast : (⟨#v[#v[r]]⟩ : Mat ℝ 1).eliminate = .step 0 r #v[] #v[] .done := by
    refine eliminate_of_pivot (B := ⟨#v[]⟩) rfl ?_ nofun nofun nofun
    simp [Mat.entry, hr.ne']
  have hlower : (⟨#v[#v[q, q * c], #v[q * c, q * c * c + r]]⟩ : Mat ℝ 2).eliminate =
      .step 0 q #v[q * c] #v[c] (.step 0 r #v[] #v[] .done) := by
    have htop : (⟨#v[#v[q, q * c], #v[q * c, q * c * c + r]]⟩ : Mat ℝ 2).pivotRow = 0 := by
      simp [pivotRow, Fin.foldl_succ, Mat.entry, hkeep hq hc]
    rw [← hlast]
    apply eliminate_of_pivot htop
    · simp [Mat.entry, hq.ne']
    · simp [Mat.entry]
    · simp [Mat.entry, exchange, mul_assoc, mul_comm q, hq.ne']
    · simp [Mat.entry, exchange]
  have htop : (ofSquares p q r a b c).pivotRow = 0 := by
    simp [ofSquares, pivotRow, Fin.foldl_succ, Mat.entry, hkeep hp ha, hkeep hp hb]
  rw [← hlower]
  apply eliminate_of_pivot htop
  · simp [ofSquares, Mat.entry, hp.ne']
  · simp [ofSquares, Mat.entry]
  · simp [ofSquares, Mat.entry, exchange, Fin.forall_fin_two]
    field_simp
    simp
  · simp [ofSquares, Mat.entry, exchange, Fin.forall_fin_two]
    ring_nf
    simp

/-- The pivots are the weights of the squares, so the test fails only if one of them is negligible beside
the others. -/
theorem Mat.passes_ofSquares (hp : 0 < p) (hq : 0 < q) (hr : 0 < r) (ha : |a| ≤ 1) (hb : |b| ≤ 1)
    (hc : |c| ≤ 1) (hweights : negligiblePivot * (p + q + r) < min (min p q) r) :
    (ofSquares p q r a b c).PassesPivotTest := by
  have hsmallest : (ofSquares p q r a b c).eliminate.smallestPivot = min (min p q) r := by
    rw [eliminate_ofSquares hp hq hr ha hb hc]
    simp [Elimination.smallestPivot, Elimination.pivots, abs_of_pos, hp, hq, hr]
  -- Each entry is a sum of shares of the weights.
  have hlargest : (ofSquares p q r a b c).maxAbs ≤ p + q + r := by
    have hshare {w x y : ℝ} (hw : 0 < w) (hx : |x| ≤ 1) (hy : |y| ≤ 1) : |w * x * y| ≤ w := by
      rw [abs_mul, abs_mul, abs_of_pos hw, mul_assoc]
      exact mul_le_of_le_one_right hw.le (mul_le_one₀ hx (abs_nonneg y) hy)
    have hone : |(1 : ℝ)| ≤ 1 := abs_one.le
    have hcross := hshare hp ha hb
    have hfirst := hshare hp ha ha
    have hsecond := hshare hp hb hb
    have hthird := hshare hq hc hc
    have hup := hshare hp ha hone
    have hside := hshare hp hb hone
    have hnext := hshare hq hc hone
    rw [mul_one] at hup hside hnext
    rw [abs_le] at hcross hfirst hsecond hthird hup hside hnext
    refine maxAbs_le (by positivity) fun i j => ?_
    fin_cases i <;> fin_cases j
    all_goals simp only [ofSquares, Mat.entry, abs_le]
    all_goals simp
    all_goals constructor
    all_goals linarith
  rw [PassesPivotTest, hsmallest]
  refine lt_of_le_of_lt (mul_le_mul_of_nonneg_left hlargest ?_) hweights
  norm_num [negligiblePivot]

/-- A form of which no weight is negligible beside the others has its systems solved. -/
theorem Mat.solve_ofSquares (hp : 0 < p) (hq : 0 < q) (hr : 0 < r) (ha : |a| ≤ 1) (hb : |b| ≤ 1)
    (hc : |c| ≤ 1) (hweights : negligiblePivot * (p + q + r) < min (min p q) r)
    {x y : Vector ℝ 3} (hsolves : (ofSquares p q r a b c).Solves x y) :
    (ofSquares p q r a b c).solve y = .ok x := by
  have hpasses := passes_ofSquares hp hq hr ha hb hc hweights
  rw [solve, factorize_of_passes hpasses, (solves_iff hpasses.pivots_ne_zero _ _).mp hsolves]
  rfl

/-- Weights and factors that go with the powers of a step are bounded by bounds of the step. -/
theorem Mat.solve_ofSquares_powers {t : ℝ} (h₀ : 1 / 16 ≤ t) (h₁ : t ≤ 1 / 4) (hp : 0 < p)
    (hq : 0 < q) (hr : 0 < r) (ha : a ∈ Set.Icc 0 4) (hb : b ∈ Set.Icc 0 16) (hc : c ∈ Set.Icc 0 4)
    (hweights : negligiblePivot * (p + q + r) < min (min p (q * (1 / 16) ^ 2)) (r * (1 / 16) ^ 4))
    {x y : Vector ℝ 3}
    (hsolves : (ofSquares p (q * t ^ 2) (r * t ^ 4) (a * t) (b * t ^ 2) (c * t)).Solves x y) :
    (ofSquares p (q * t ^ 2) (r * t ^ 4) (a * t) (b * t ^ 2) (c * t)).solve y = .ok x := by
  have hpos : 0 < t := by linarith
  have habove (n : ℕ) : (1 / 16) ^ n ≤ t ^ n := pow_le_pow_left₀ (by norm_num) h₀ n
  have hbelow (n : ℕ) : t ^ n ≤ 1 := pow_le_one₀ hpos.le (by linarith)
  -- A step of a quarter has the largest factors.
  have hlinear {x : ℝ} (hx : x ∈ Set.Icc 0 4) : |x * t| ≤ 1 := by
    rw [abs_of_nonneg (mul_nonneg hx.1 hpos.le)]
    calc
      x * t ≤ 4 * (1 / 4) := mul_le_mul hx.2 h₁ hpos.le zero_le_four
      _ = 1 := by norm_num
  have hsquare : |b * t ^ 2| ≤ 1 := by
    rw [abs_of_nonneg (mul_nonneg hb.1 (sq_nonneg t))]
    calc
      b * t ^ 2 ≤ 16 * (1 / 4) ^ 2 :=
        mul_le_mul hb.2 (pow_le_pow_left₀ hpos.le h₁ 2) (sq_nonneg t) (by norm_num)
      _ = 1 := by norm_num
  have hnegligible : (0 : ℝ) ≤ negligiblePivot := by norm_num [negligiblePivot]
  apply solve_ofSquares hp (by positivity) (by positivity) (hlinear ha) hsquare (hlinear hc) _ hsolves
  -- A step of a sixteenth has the smallest pivots.
  calc
    negligiblePivot * (p + q * t ^ 2 + r * t ^ 4) ≤ negligiblePivot * (p + q + r) :=
      mul_le_mul_of_nonneg_left (add_le_add (add_le_add_right
        (mul_le_of_le_one_right hq.le (hbelow 2)) p) (mul_le_of_le_one_right hr.le (hbelow 4)))
        hnegligible
    _ < min (min p (q * (1 / 16) ^ 2)) (r * (1 / 16) ^ 4) := hweights
    _ ≤ min (min p (q * t ^ 2)) (r * t ^ 4) :=
      min_le_min (min_le_min_left p (mul_le_mul_of_nonneg_left (habove 2) hq.le))
        (mul_le_mul_of_nonneg_left (habove 4) hr.le)

end Squares
end BeamOptics
