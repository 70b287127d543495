import Mathlib
import BeamOptics.Scalar

/-! The real numbers as a carrier. Every formula of the library can be read over them, and is then
free of rounding; no real number is infinite or fails to be a number. -/

namespace BeamOptics

noncomputable def roundAway (x : ℝ) : ℝ :=
  if 0 ≤ x then ((⌊x + 1 / 2⌋ : ℤ) : ℝ) else ((⌈x - 1 / 2⌉ : ℤ) : ℝ)

noncomputable instance : Scalar ℝ where
  toAdd := inferInstance
  toSub := inferInstance
  toMul := inferInstance
  toDiv := inferInstance
  toNeg := inferInstance
  toLT := inferInstance
  toLE := inferInstance
  toBEq := ⟨fun a b => decide (a = b)⟩
  decLt := inferInstance
  decLe := inferInstance
  ofNat n := (n : ℝ)
  ofScientific m negative e := OfScientific.ofScientific m negative e
  sqrt := Real.sqrt
  exp := Real.exp
  log := Real.log
  sin := Real.sin
  cos := Real.cos
  sinh := Real.sinh
  cosh := Real.cosh
  pi := Real.pi
  abs x := |x|
  maxNum := max
  minNum := min
  floor x := ((⌊x⌋ : ℤ) : ℝ)
  ceil x := ((⌈x⌉ : ℤ) : ℝ)
  round := roundAway
  toNat x := ⌊x⌋₊
  isFinite _ := true
  isNaN _ := false
  precedes a b := decide (a ≤ b)

/-- Rounding keeps the order. -/
theorem roundAway_mono : Monotone roundAway := by
  intro x y h
  unfold roundAway
  split_ifs with hx hy hy
  · exact_mod_cast Int.floor_le_floor (by linarith)
  · exact absurd (hx.trans h) hy
  · have h₁ : ⌈x - 1 / 2⌉ ≤ 0 := Int.ceil_le.mpr (by push_cast; linarith)
    have h₂ : 0 ≤ ⌊y + 1 / 2⌋ := Int.floor_nonneg.mpr (by linarith)
    exact_mod_cast h₁.trans h₂
  · exact_mod_cast Int.ceil_le_ceil (by linarith)

namespace Scalar

/-! ### Literals and operations in the carrier's own words -/

@[simp] theorem real_zero : @OfNat.ofNat ℝ 0 (@instOfNat ℝ _ 0) = 0 := Nat.cast_zero

@[simp] theorem real_one : @OfNat.ofNat ℝ 1 (@instOfNat ℝ _ 1) = 1 := Nat.cast_one

@[simp] theorem real_ofScientific (m : ℕ) (negative : Bool) (e : ℕ) :
    @OfScientific.ofScientific ℝ (@instOfScientific ℝ _) m negative e =
      OfScientific.ofScientific m negative e := rfl

@[simp] theorem real_count (n : ℕ) : (Scalar.ofNat n : ℝ) = n := rfl

@[simp] theorem real_sqrt (x : ℝ) : Scalar.sqrt x = √x := rfl

@[simp] theorem real_exp (x : ℝ) : Scalar.exp x = Real.exp x := rfl

@[simp] theorem real_log (x : ℝ) : Scalar.log x = Real.log x := rfl

@[simp] theorem real_sin (x : ℝ) : Scalar.sin x = Real.sin x := rfl

@[simp] theorem real_cos (x : ℝ) : Scalar.cos x = Real.cos x := rfl

@[simp] theorem real_sinh (x : ℝ) : Scalar.sinh x = Real.sinh x := rfl

@[simp] theorem real_cosh (x : ℝ) : Scalar.cosh x = Real.cosh x := rfl

@[simp] theorem real_abs (x : ℝ) : Scalar.abs x = |x| := rfl

@[simp] theorem real_maxNum (x y : ℝ) : Scalar.maxNum x y = max x y := rfl

@[simp] theorem real_minNum (x y : ℝ) : Scalar.minNum x y = min x y := rfl

@[simp] theorem real_floor (x : ℝ) : Scalar.floor x = ⌊x⌋ := rfl

@[simp] theorem real_ceil (x : ℝ) : Scalar.ceil x = ⌈x⌉ := rfl

@[simp] theorem real_round (x : ℝ) : Scalar.round x = roundAway x := rfl

@[simp] theorem real_toNat (x : ℝ) : Scalar.toNat x = ⌊x⌋₊ := rfl

@[simp] theorem real_beq (x y : ℝ) : (x == y) = decide (x = y) := rfl

@[simp] theorem real_isFinite (x : ℝ) : Scalar.isFinite x = true := rfl

@[simp] theorem real_isNaN (x : ℝ) : Scalar.isNaN x = false := rfl

@[simp] theorem real_isPositive (x : ℝ) : Scalar.isPositive x = decide (0 < x) := by
  simp [isPositive]

/-- A sum from left to right is the sum. -/
@[simp] theorem real_sum (xs : List ℝ) : Scalar.sum xs = xs.sum := by
  rw [Scalar.sum, real_zero]
  exact List.sum_eq_foldl.symm

/-- A sum in lanes is the sum. -/
@[simp] theorem real_sumInLanes (xs : List ℝ) : sumInLanes xs = xs.sum := by
  have hfold (xs : List ℝ) (x : ℝ) : xs.foldl (· + ·) x = x + xs.sum := by
    rw [← List.sum_cons, List.sum_eq_foldl, List.foldl_cons, zero_add]
  have hlanes (a b c d e f g h : ℝ) (xs : List ℝ) :
      addLanes a b c d e f g h xs = a + b + c + d + e + f + g + h + xs.sum := by
    fun_induction addLanes a b c d e f g h xs with
    | case1 a b c d e f g h s t u v w x y z xs ih =>
      rw [ih]
      simp only [List.sum_cons]
      ring
    | case2 a b c d e f g h xs =>
      rw [hfold, real_zero]
      ring
  unfold sumInLanes
  split_ifs
  · exact real_sum xs
  · rw [hlanes, real_zero]
    ring

end Scalar

end BeamOptics
