import BeamOptics.Proofs.RealMatrix
import BeamOptics.Phase.Map

/-! Blocks and maps of phase space over the reals. Maps that act plane by plane compose plane by
plane, and stretches of free motion add up. -/

namespace BeamOptics

namespace Block

theorem mul_def (m n : Block ℝ) : m * n =
    ⟨m.a * n.a + m.b * n.c, m.a * n.b + m.b * n.d,
      m.c * n.a + m.d * n.c, m.c * n.b + m.d * n.d⟩ := rfl

protected theorem mul_assoc (l m n : Block ℝ) : l * m * n = l * (m * n) := by
  simp only [mul_def, mk.injEq]
  refine ⟨?_, ?_, ?_, ?_⟩ <;> ring

protected theorem identity_mul (m : Block ℝ) : identity * m = m := by
  simp [mul_def, identity]

protected theorem mul_identity (m : Block ℝ) : m * identity = m := by
  simp [mul_def, identity]

/-- A stretch of free motion. -/
theorem shear_mul (s t : ℝ) : (⟨1, s, 0, 1⟩ * ⟨1, t, 0, 1⟩ : Block ℝ) = ⟨1, s + t, 0, 1⟩ := by
  simp [mul_def, add_comm]

end Block

namespace PhaseMap

theorem block_ofBlocks (b : Triple (Block ℝ)) (p : Plane) : (ofBlocks b).block p = b.get p := by
  cases p <;> rfl

/-- Maps that act plane by plane are composed plane by plane. -/
theorem ofBlocks_mul (b c : Triple (Block ℝ)) :
    ofBlocks b * ofBlocks c = ofBlocks ⟨b.x * c.x, b.y * c.y, b.z * c.z⟩ := by
  apply Mat.ext_entry
  intro i j
  rw [Mat.entry_mul, Mat.total_eq_sum, Fin.sum_univ_seven]
  -- In a row all but the entries of one plane vanish, so little is left to look at in its columns.
  fin_cases i <;> simp [ofBlocks, Mat.entry]
  all_goals fin_cases j <;> simp [Block.mul_def]

theorem ofBlocks_identity :
    ofBlocks ⟨Block.identity, Block.identity, Block.identity⟩ = (identity : PhaseMap ℝ) := by
  apply Mat.ext_entry
  intro i j
  rw [identity, Mat.entry_identity]
  fin_cases i <;> fin_cases j <;> simp [ofBlocks, Mat.entry, Block.identity]

/-- Drifts add up. -/
theorem drift_mul (s t gamma : ℝ) : drift s gamma * drift t gamma = drift (s + t) gamma := by
  simp only [drift, ofBlocks_mul]
  simp [Block.shear_mul, add_div]

/-- Free motion shears every plane by a share of the length. Along the line the share is smaller, by
the square of the Lorentz factor. -/
theorem exists_block_drift {gamma : ℝ} (h : 1 ≤ gamma) (p : Plane) :
    ∃ share : ℝ, 1 / gamma ^ 2 ≤ share ∧ share ≤ 1 ∧
      ∀ z, (drift z gamma).block p = ⟨1, z * share, 0, 1⟩ := by
  have hle : 1 / gamma ^ 2 ≤ 1 := div_le_one_of_le₀ (one_le_pow₀ h) (sq_nonneg gamma)
  cases p with
  | horizontal =>
    refine ⟨1, hle, le_rfl, fun z => ?_⟩
    simp [drift, block_ofBlocks, Triple.get]
  | vertical =>
    refine ⟨1, hle, le_rfl, fun z => ?_⟩
    simp [drift, block_ofBlocks, Triple.get]
  | longitudinal =>
    refine ⟨1 / gamma ^ 2, le_rfl, hle, fun z => ?_⟩
    rw [mul_one_div, sq]
    simp [drift, block_ofBlocks, Triple.get]

end PhaseMap

end BeamOptics
