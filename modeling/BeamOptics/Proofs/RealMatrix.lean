import BeamOptics.Proofs.RealScalar
import BeamOptics.Linear.Elimination

/-! Matrices over the reals. Products form a monoid, and the Frobenius norm scales, does not see a
sign, and bounds the trace. The first step of an elimination is read off over any numbers. -/

namespace BeamOptics.Mat

variable {n : ℕ}

/-- A fold that adds from the first member on is the sum of the family. -/
theorem total_eq_sum (f : Fin n → ℝ) : total f = ∑ k, f k := by
  unfold total
  rw [Scalar.real_zero]
  induction n with
  | zero => simp
  | succ n ih =>
    rw [Fin.foldl_succ_last, Fin.sum_univ_castSucc, ih (fun k => f k.castSucc)]

def toMatrix (A : Mat ℝ n) : Matrix (Fin n) (Fin n) ℝ := Matrix.of A.entry

@[simp] theorem toMatrix_apply (A : Mat ℝ n) (i j : Fin n) : A.toMatrix i j = A.entry i j := rfl

theorem toMatrix_injective : Function.Injective (toMatrix (n := n)) := by
  intro A B h
  apply ext_entry
  intro i j
  exact congrFun (congrFun h i) j

theorem toMatrix_mul (A B : Mat ℝ n) : (A * B).toMatrix = A.toMatrix * B.toMatrix := by
  ext i j
  rw [toMatrix_apply, entry_mul, total_eq_sum, Matrix.mul_apply]
  rfl

theorem toMatrix_identity : (identity n : Mat ℝ n).toMatrix = 1 := by
  ext i j
  simp [Matrix.one_apply]

theorem toMatrix_sub (A B : Mat ℝ n) : (A - B).toMatrix = A.toMatrix - B.toMatrix := by
  ext i j
  exact entry_sub ..

theorem toMatrix_transpose (A : Mat ℝ n) : A.transpose.toMatrix = A.toMatrix.transpose := by
  ext i j
  exact entry_transpose ..

theorem trace_eq (A : Mat ℝ n) : A.trace = A.toMatrix.trace := total_eq_sum _

protected theorem mul_assoc (A B C : Mat ℝ n) : A * B * C = A * (B * C) := by
  apply toMatrix_injective
  simp only [toMatrix_mul, Matrix.mul_assoc]

protected theorem identity_mul (A : Mat ℝ n) : identity n * A = A := by
  apply toMatrix_injective
  rw [toMatrix_mul, toMatrix_identity, Matrix.one_mul]

protected theorem mul_identity (A : Mat ℝ n) : A * identity n = A := by
  apply toMatrix_injective
  rw [toMatrix_mul, toMatrix_identity, Matrix.mul_one]

theorem transpose_transpose (A : Mat ℝ n) : A.transpose.transpose = A := by
  apply ext_entry
  intro i j
  rw [entry_transpose, entry_transpose]

theorem transpose_mul (A B : Mat ℝ n) : (A * B).transpose = B.transpose * A.transpose := by
  apply ext_entry
  intro i j
  simp only [entry_transpose, entry_mul, total_eq_sum, mul_comm]

/-- The list of entries holds each entry and nothing else. -/
theorem mem_entries {α : Type} {A : Mat α n} {x : α} : x ∈ A.entries ↔ ∃ i j, A.entry i j = x := by
  rw [entries, List.mem_flatMap]
  constructor
  · rintro ⟨row, hrow, hx⟩
    obtain ⟨i, hi, rfl⟩ := Vector.mem_iff_getElem.mp (Vector.mem_toList_iff.mp hrow)
    obtain ⟨j, hj, rfl⟩ := Vector.mem_iff_getElem.mp (Vector.mem_toList_iff.mp hx)
    exact ⟨⟨i, hi⟩, ⟨j, hj⟩, rfl⟩
  · rintro ⟨i, j, rfl⟩
    exact ⟨A.rows[i], by simp, by simp [entry]⟩

/-! ### The Frobenius norm -/

/-- A sum over the list of entries runs over rows and columns. -/
theorem sum_map_entries (A : Mat ℝ n) (f : ℝ → ℝ) :
    (A.entries.map f).sum = ∑ i, ∑ j, f (A.entry i j) := by
  -- The entries are listed row by row, so the sum is taken in each row and then over the rows.
  have hrow (v : Vector ℝ n) : (v.toList.map f).sum = ∑ j : Fin n, f v[j] := by
    have hv : Vector.ofFn (fun j : Fin n => v[j]) = v := Vector.ofFn_getElem
    conv_lhs => rw [← hv]
    rw [Vector.toList_ofFn, List.map_ofFn, List.sum_ofFn]
    rfl
  have hrows : A.rows.toList = List.ofFn fun i : Fin n => A.rows[i] := by
    have hv : Vector.ofFn (fun i : Fin n => A.rows[i]) = A.rows := Vector.ofFn_getElem
    conv_lhs => rw [← hv]
    exact Vector.toList_ofFn
  have hsum (rows : List (Vector ℝ n)) : ((rows.flatMap Vector.toList).map f).sum =
      (rows.map fun v => ∑ j : Fin n, f v[j]).sum := by
    induction rows with
    | nil => simp
    | cons v rows ih =>
      rw [List.flatMap_cons, List.map_append, List.sum_append, ih, hrow, List.map_cons,
        List.sum_cons]
  rw [entries, hsum, hrows, List.map_ofFn, List.sum_ofFn]
  rfl

theorem frobenius_eq_sqrt (A : Mat ℝ n) : A.frobenius = √(∑ i, ∑ j, A.entry i j ^ 2) := by
  rw [frobenius, Scalar.real_sqrt, Scalar.real_sum, sum_map_entries]
  simp only [Scalar.square, sq]

theorem frobenius_nonneg (A : Mat ℝ n) : 0 ≤ A.frobenius := by
  rw [frobenius_eq_sqrt]
  exact Real.sqrt_nonneg _

theorem frobenius_scale (A : Mat ℝ n) (k : ℝ) : (A.scale k).frobenius = |k| * A.frobenius := by
  have h : ∑ i, ∑ j, (A.scale k).entry i j ^ 2 = k ^ 2 * ∑ i, ∑ j, A.entry i j ^ 2 := by
    simp only [entry_scale, mul_pow, Finset.mul_sum, mul_comm]
  rw [frobenius_eq_sqrt, h, Real.sqrt_mul (sq_nonneg k), Real.sqrt_sq_eq_abs, frobenius_eq_sqrt]

theorem frobenius_sub_comm (A B : Mat ℝ n) : (A - B).frobenius = (B - A).frobenius := by
  rw [frobenius_eq_sqrt, frobenius_eq_sqrt]
  simp only [entry_sub, ← neg_sub (B.entry _ _), neg_sq]

/-- No entry is larger than the Frobenius norm. -/
theorem abs_entry_le_frobenius (A : Mat ℝ n) (i j : Fin n) : |A.entry i j| ≤ A.frobenius := by
  have hrow : A.entry i j ^ 2 ≤ ∑ k, A.entry i k ^ 2 :=
    Finset.single_le_sum (f := fun k => A.entry i k ^ 2) (fun _ _ => sq_nonneg _)
      (Finset.mem_univ j)
  have hall : ∑ k, A.entry i k ^ 2 ≤ ∑ l, ∑ k, A.entry l k ^ 2 :=
    Finset.single_le_sum (f := fun l => ∑ k, A.entry l k ^ 2)
      (fun _ _ => Finset.sum_nonneg fun _ _ => sq_nonneg _) (Finset.mem_univ i)
  rw [frobenius_eq_sqrt]
  exact Real.abs_le_sqrt (hrow.trans hall)

/-- The trace against the norm, by the inequality of Cauchy and Schwarz on the diagonal. -/
theorem abs_trace_le (A : Mat ℝ n) : |A.trace| ≤ √n * A.frobenius := by
  have htrace : A.trace = ∑ i, A.entry i i := A.trace_eq
  have hdiag : ∑ i, A.entry i i ^ 2 ≤ ∑ i, ∑ j, A.entry i j ^ 2 := by
    apply Finset.sum_le_sum
    intro i _
    exact Finset.single_le_sum (f := fun j => A.entry i j ^ 2) (fun j _ => sq_nonneg _)
      (Finset.mem_univ i)
  have hcs : (∑ i, A.entry i i) ^ 2 ≤ n * ∑ i, A.entry i i ^ 2 := by
    simpa using sq_sum_le_card_mul_sum_sq (s := Finset.univ) (f := fun i => A.entry i i)
  rw [htrace, frobenius_eq_sqrt, ← Real.sqrt_mul (Nat.cast_nonneg n), ← Real.sqrt_sq_eq_abs]
  apply Real.sqrt_le_sqrt
  exact hcs.trans (mul_le_mul_of_nonneg_left hdiag (Nat.cast_nonneg n))

/-! ### Elimination -/

/-- One step of an elimination, from what its pivot row leaves. -/
theorem eliminate_of_pivot {K : Type} [Scalar K] {n : Nat} {A : Mat K (n + 1)} {top : Fin (n + 1)}
    {right factors : Vector K n} {B : Mat K n} (htop : A.pivotRow = top)
    (hpivot : (A.entry top 0 == 0) = false)
    (hright : ∀ j : Fin n, A.entry top j.succ = right[j])
    (hfactors : ∀ i : Fin n, A.entry (exchange top i.succ) 0 * (1 / A.entry top 0) = factors[i])
    (hrest : ∀ i j : Fin n,
      A.entry (exchange top i.succ) j.succ - right[j] * factors[i] = B.entry i j) :
    A.eliminate = .step top (A.entry top 0) right factors B.eliminate := by
  -- Rows and factors are vectors by their entries, and the rest a matrix by its.
  have hr : Vector.ofFn (fun j : Fin n => A.entry top j.succ) = right := by
    simp only [hright]
    exact Vector.ofFn_getElem
  have hf : Vector.ofFn (fun i : Fin n =>
      A.entry (exchange top i.succ) 0 * (1 / A.entry top 0)) = factors := by
    simp only [hfactors]
    exact Vector.ofFn_getElem
  have hm : ofFn (fun i j : Fin n =>
      A.entry (exchange top i.succ) j.succ - right[j] * factors[i]) = B := by
    apply ext_entry
    intro i j
    rw [entry_ofFn, hrest]
  subst htop hr hf hm
  change (if (A.entry A.pivotRow 0 == 0) = true then _ else _ : Elimination K (n + 1)) = _
  rw [hpivot]
  rfl

theorem exists_get {α : Type} (f : Fin n → α) : ∃ v : Vector α n, ∀ i, f i = v.get i :=
  ⟨Vector.ofFn f, fun i => (Vector.get_ofFn f i).symm⟩

/-- A first step on a pivot, and what is left to eliminate. -/
theorem exists_step {K : Type} [Scalar K] {n : Nat} {A : Mat K (n + 1)}
    (hpivot : (A.entry A.pivotRow 0 == 0) = false) :
    ∃ (right factors : Vector K n) (B : Mat K n),
      A.eliminate = .step A.pivotRow (A.entry A.pivotRow 0) right factors B.eliminate ∧
      (∀ j : Fin n, A.entry A.pivotRow j.succ = right.get j) ∧
      (∀ i : Fin n, A.entry (exchange A.pivotRow i.succ) 0 * (1 / A.entry A.pivotRow 0) =
        factors.get i) ∧
      ∀ i j : Fin n,
        A.entry (exchange A.pivotRow i.succ) j.succ - right.get j * factors.get i = B.entry i j := by
  obtain ⟨right, hright⟩ := exists_get fun j : Fin n => A.entry A.pivotRow j.succ
  obtain ⟨factors, hfactors⟩ := exists_get fun i : Fin n =>
    A.entry (exchange A.pivotRow i.succ) 0 * (1 / A.entry A.pivotRow 0)
  obtain ⟨B, hB⟩ : ∃ B : Mat K n, ∀ i j : Fin n,
      A.entry (exchange A.pivotRow i.succ) j.succ - right.get j * factors.get i = B.entry i j :=
    ⟨ofFn fun i j => A.entry (exchange A.pivotRow i.succ) j.succ - right.get j * factors.get i,
      fun i j => by rw [entry_ofFn]⟩
  exact ⟨right, factors, B, eliminate_of_pivot rfl hpivot hright hfactors hB, hright, hfactors, hB⟩

end BeamOptics.Mat
