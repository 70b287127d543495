import BeamOptics.Proofs.RealScalar
import BeamOptics.Linear.Elimination

/-! Numbers with infinities and with values that are not numbers. The conventions of floating-point
arithmetic are listed as far as solvers rely on them, and double-precision numbers follow them: a value
that is not a number spoils what is computed from it, compares with nothing, and gives way in maxima and
minima. -/

namespace BeamOptics

namespace Scalar

/-- The conventions of floating-point arithmetic. -/
class Floating (K : Type) [Scalar K] : Prop where
  number_of_le {a b : K} : a ≤ b → isNaN a = false ∧ isNaN b = false
  le_trans {a b c : K} : a ≤ b → b ≤ c → a ≤ c
  le_total {a b : K} : isNaN a = false → isNaN b = false → a ≤ b ∨ b ≤ a
  lt_iff {a b : K} : a < b ↔ a ≤ b ∧ ¬ b ≤ a
  maxNum_eq (a b : K) : maxNum a b =
    if isNaN a then b else if isNaN b then a else if a < b then b else a
  minNum_eq (a b : K) : minNum a b =
    if isNaN a then b else if isNaN b then a else if b < a then b else a
  number_of_finite {x : K} : isFinite x = true → isNaN x = false
  isNaN_abs (x : K) : isNaN (abs x) = isNaN x
  isFinite_abs (x : K) : isFinite (abs x) = isFinite x
  -- The absolute value of an infinite number lies above every finite one.
  finite_of_abs_le {a x : K} : abs x ≤ a → isFinite a = true → isFinite x = true
  abs_le_zero {x : K} : (x == 0) = true → abs x ≤ 0
  isNaN_add {a b : K} : isNaN a = true ∨ isNaN b = true → isNaN (a + b) = true
  isNaN_sub {a b : K} : isNaN a = true ∨ isNaN b = true → isNaN (a - b) = true
  isNaN_mul {a b : K} : isNaN a = true ∨ isNaN b = true → isNaN (a * b) = true
  isNaN_div {a b : K} : isNaN a = true ∨ isNaN b = true → isNaN (a / b) = true
  finite_of_add {a b : K} : isFinite (a + b) = true → isFinite a = true ∧ isFinite b = true
  finite_of_mul {a b : K} : isFinite (a * b) = true → isFinite a = true ∧ isFinite b = true
  add_nonneg {a b : K} : 0 ≤ a → 0 ≤ b → 0 ≤ a + b
  mul_nonneg {a b : K} : 0 ≤ a → 0 ≤ b → isFinite a = true → isFinite b = true → 0 ≤ a * b
  mul_self_nonneg {a : K} : isNaN a = false → 0 ≤ a * a
  finite_zero : isFinite (0 : K) = true
  -- The threshold of the pivot test is a finite number and not negative.
  negligiblePivot : isFinite (Mat.negligiblePivot : K) = true ∧ (0 : K) ≤ Mat.negligiblePivot

namespace Floating

variable {K : Type} [Scalar K] [Floating K]

/-! ### Maxima and minima -/

theorem le_refl {a : K} (ha : isNaN a = false) : a ≤ a := (le_total ha ha).elim id id

theorem number_zero : isNaN (0 : K) = false := number_of_finite finite_zero

theorem le_of_not_lt {a b : K} (ha : isNaN a = false) (hb : isNaN b = false) (h : ¬ a < b) : b ≤ a := by
  by_contra hle
  exact h (lt_iff.mpr ⟨(le_total ha hb).resolve_right hle, hle⟩)

theorem lt_trans {a b c : K} (hab : a < b) (hbc : b < c) : a < c := by
  obtain ⟨hle, hnot⟩ := lt_iff.mp hab
  exact lt_iff.mpr ⟨le_trans hle (lt_iff.mp hbc).1, fun hca => hnot (le_trans (lt_iff.mp hbc).1 hca)⟩

/-- The larger of a number and any value is the number or a number not below it. -/
theorem maxNum_cases {m : K} (hm : isNaN m = false) (x : K) :
    maxNum m x = m ∧ (isNaN x = false → x ≤ m) ∨ maxNum m x = x ∧ m ≤ x := by
  rw [maxNum_eq, hm, if_neg Bool.false_ne_true]
  by_cases hx : isNaN x = true
  · rw [if_pos hx]
    exact .inl ⟨rfl, fun h => absurd (hx.symm.trans h) (by decide)⟩
  rw [if_neg hx]
  by_cases hlt : m < x
  · rw [if_pos hlt]
    exact .inr ⟨rfl, (lt_iff.mp hlt).1⟩
  · rw [if_neg hlt]
    exact .inl ⟨rfl, fun h => le_of_not_lt hm h hlt⟩

theorem minNum_le_iff {a b t : K} : minNum a b ≤ t ↔ a ≤ t ∨ b ≤ t := by
  have hnever {x : K} (hx : isNaN x = true) : ¬ x ≤ t := fun h =>
    absurd (hx.symm.trans (number_of_le h).1) (by decide)
  rw [minNum_eq]
  split_ifs with ha hb hlt
  · exact (or_iff_right (hnever ha)).symm
  · exact (or_iff_left (hnever hb)).symm
  · exact (or_iff_right_of_imp fun h => le_trans (lt_iff.mp hlt).1 h).symm
  · have hle := le_of_not_lt (Bool.eq_false_iff.mpr hb) (Bool.eq_false_iff.mpr ha) hlt
    exact (or_iff_left_of_imp fun h => le_trans hle h).symm

/-- The largest absolute value so far is a number, and it is finite as long as no infinite one has been
met. -/
theorem foldl_maxNum (xs : List K) {m : K} (hm : isNaN m = false) :
    m ≤ xs.foldl (fun acc x => maxNum acc (abs x)) m ∧
      (∀ x ∈ xs, isNaN x = false → abs x ≤ xs.foldl (fun acc x => maxNum acc (abs x)) m) ∧
      (isFinite m = true → (∀ x ∈ xs, isNaN x = false → isFinite x = true) →
        isFinite (xs.foldl (fun acc x => maxNum acc (abs x)) m) = true) := by
  -- A value that is not a number gives way to the largest so far, which therefore stays a number.
  induction xs generalizing m with
  | nil => exact ⟨le_refl hm, by simp, fun h _ => h⟩
  | cons x xs ih =>
    rw [List.foldl_cons, List.forall_mem_cons]
    rcases maxNum_cases hm (abs x) with ⟨hkeep, hle⟩ | ⟨htake, hle⟩
    · obtain ⟨hstart, hall, hfinite⟩ := ih hm
      rw [hkeep]
      refine ⟨hstart, ⟨fun hx => le_trans (hle ((isNaN_abs x).trans hx)) hstart, hall⟩, ?_⟩
      exact fun h hxs => hfinite h (List.forall_mem_cons.mp hxs).2
    · have hnumber := (number_of_le hle).2
      obtain ⟨hstart, hall, hfinite⟩ := ih hnumber
      rw [htake]
      refine ⟨le_trans hle hstart, ⟨fun _ => hstart, hall⟩, fun _ hxs => ?_⟩
      obtain ⟨hx, hxs⟩ := List.forall_mem_cons.mp hxs
      exact hfinite ((isFinite_abs x).trans (hx ((isNaN_abs x).symm.trans hnumber))) hxs

/-- The running minimum of absolute values is at most `t` exactly if one of the values is. -/
theorem foldl_minNum_le_iff (qs : List K) (m t : K) :
    qs.foldl (fun acc q => minNum acc (abs q)) m ≤ t ↔ m ≤ t ∨ ∃ q ∈ qs, abs q ≤ t := by
  induction qs generalizing m with
  | nil => simp
  | cons q qs ih => rw [List.foldl_cons, ih, minNum_le_iff, or_assoc, List.exists_mem_cons_iff]

/-! ### Sums -/

/-- A finite sum has finite addends. -/
theorem finite_of_foldl_add {xs : List K} {a : K} (h : isFinite (xs.foldl (· + ·) a) = true) :
    isFinite a = true ∧ ∀ x ∈ xs, isFinite x = true := by
  induction xs generalizing a with
  | nil => exact ⟨h, by simp⟩
  | cons x xs ih =>
    obtain ⟨hsum, hxs⟩ := ih h
    obtain ⟨ha, hx⟩ := finite_of_add hsum
    exact ⟨ha, List.forall_mem_cons.mpr ⟨hx, hxs⟩⟩

theorem zero_le_foldl_add {xs : List K} {a : K} (ha : 0 ≤ a) (hxs : ∀ x ∈ xs, 0 ≤ x) :
    0 ≤ xs.foldl (· + ·) a := by
  induction xs generalizing a with
  | nil => exact ha
  | cons x xs ih =>
    obtain ⟨hx, hxs⟩ := List.forall_mem_cons.mp hxs
    exact ih (add_nonneg ha hx) hxs

end Floating

end Scalar

namespace DoublePrecision

open Float.Model Float.Model.UnpackedFloat

/-! ### Finite numbers -/

def HasSign (s : Sign) (u : UnpackedFloat) : Prop := u = .zero s ∨ ∃ m e h, u = .finite s m e h

theorem HasSign.isFinite {s : Sign} {u : UnpackedFloat} (h : HasSign s u) : u.isFinite = true := by
  obtain rfl | ⟨m, e, hm, rfl⟩ := h
  · rfl
  · rfl

theorem HasSign.isNaN {s : Sign} {u : UnpackedFloat} (h : HasSign s u) : u.isNaN = false := by
  obtain rfl | ⟨m, e, hm, rfl⟩ := h
  · rfl
  · rfl

theorem HasSign.zero_le {s : Sign} {u : UnpackedFloat} (h : HasSign .positive u) :
    (UnpackedFloat.zero s).le u = true := by
  obtain rfl | ⟨m, e, hm, rfl⟩ := h
  · rfl
  · rfl

/-! ### Storing a number -/

def repack (u : UnpackedFloat) : UnpackedFloat := (Float.Model.pack u).unpack

theorem repack_infinity (s : Sign) : repack (.infinity s) = .infinity s := by cases s <;> rfl

theorem repack_zero (s : Sign) : repack (.zero s) = .zero s := by cases s <;> rfl

theorem unpackSign_packComponents (s : Sign) (e : BitVec 11) (m : BitVec 52) :
    Sign.ofBitVec (unpackSign (packComponents .binary64 s e m)) = s := by
  simp only [unpackSign, packComponents, BitVec.extractLsb]
  rw [BitVec.extractLsb'_append_eq_of_le (by omega), BitVec.extractLsb'_append_eq_of_le (by omega)]
  cases s <;> rfl

/-- An exponent field that is not all ones belongs to a finite number. -/
theorem unpack_packComponents (s : Sign) {e : BitVec 11} (m : BitVec 52) (he : e ≠ -1#11) :
    HasSign s (UnpackedFloat.unpack .binary64 (packComponents .binary64 s e m)) := by
  unfold UnpackedFloat.unpack
  simp only [unpackMantissa_packComponents, unpackExponent_packComponents, unpackSign_packComponents]
  rw [if_neg he]
  split_ifs with hzero hm
  · exact .inl rfl
  · have hpos : 0 < m.toNat := Nat.pos_of_ne_zero fun h => hm (BitVec.toNat_inj.mp h)
    exact .inr ⟨m.toNat, _, hpos, rfl⟩
  · have hpos : 0 < (1#1 ++ m).toNat := by
      rw [BitVec.toNat_append]
      exact Nat.lt_of_lt_of_le (by decide) Nat.left_le_or
    exact .inr ⟨(1#1 ++ m).toNat, _, hpos, rfl⟩

/-- A number whose exponent is in range stays finite and keeps its sign. -/
theorem repack_inRange (s : Sign) {m : ℕ} {e : ℤ} (h : 0 < m) (he : e < 972) :
    HasSign s (repack (.finite s m e h)) := by
  -- The exponent field has eleven bits, and all ones are kept for what is not finite.
  have hrange : ¬ 2 ^ Format.binary64.exponentBits ≤
      (e + Format.binary64.exponentBias + Format.binary64.mantissaBitsWithoutImplicit).toNat + 1 := by
    change ¬ 2 ^ 11 ≤ (e + (1023 : ℕ) + (52 : ℕ)).toNat + 1
    omega
  change HasSign s (UnpackedFloat.unpack .binary64 (UnpackedFloat.pack .binary64 _))
  unfold UnpackedFloat.pack
  simp only [if_neg hrange]
  split_ifs
  · apply unpack_packComponents
    intro hones
    have hfield : (e + (1023 : ℕ) + (52 : ℕ)).toNat % 2 ^ 11 = 2 ^ 11 - 1 :=
      congrArg BitVec.toNat hones
    omega
  · exact unpack_packComponents s _ (by decide)

/-- Out of range it becomes infinite. -/
theorem repack_finite (s : Sign) {m : ℕ} {e : ℤ} (h : 0 < m) :
    repack (.finite s m e h) = .infinity s ∨ HasSign s (repack (.finite s m e h)) := by
  by_cases he : e < 972
  · exact .inr (repack_inRange s h he)
  · have hrange : 2 ^ Format.binary64.exponentBits ≤
        (e + Format.binary64.exponentBias + Format.binary64.mantissaBitsWithoutImplicit).toNat + 1 := by
      change 2 ^ 11 ≤ (e + (1023 : ℕ) + (52 : ℕ)).toNat + 1
      omega
    left
    rw [← repack_infinity s]
    change UnpackedFloat.unpack .binary64 (UnpackedFloat.pack .binary64 _) =
      UnpackedFloat.unpack .binary64 (UnpackedFloat.pack .binary64 _)
    unfold UnpackedFloat.pack
    simp only [if_pos hrange]

/-- Stored numbers have their exponents in range. -/
theorem exponent_lt (x : Float.Model) {s : Sign} {m : ℕ} {e : ℤ} {h : 0 < m}
    (hx : x.unpack = .finite s m e h) : e < 972 := by
  have hbias : Format.binary64.exponentBias = 1023 := rfl
  unfold Float.Model.unpack UnpackedFloat.unpack at hx
  set field : BitVec 11 := @unpackExponent .binary64 x.toBits.toBitVec
  have hlt : field.toNat < 2 ^ 11 := field.isLt
  dsimp only at hx
  rw [hbias] at hx
  -- All ones would not be a finite number, so the largest field is one less.
  split_ifs at hx with hones hm hzero
  · have hfield : field.toNat = 0 := congrArg BitVec.toNat hzero
    injection hx with _ _ he
    omega
  · have hne : field.toNat ≠ 2 ^ 11 - 1 := fun hfield => hones (BitVec.eq_of_toNat_eq hfield)
    injection hx with _ _ he
    omega

/-- Storing a number and reading it back does not make it a number or unmake it. -/
theorem isNaN_repack (u : UnpackedFloat) : (repack u).isNaN = u.isNaN := by
  cases u with
  | notANumber => rfl
  | infinity s => rw [repack_infinity]
  | zero s => rw [repack_zero]
  | finite s m e h =>
    obtain hr | hr := repack_finite s h
    · rw [hr]
      rfl
    · exact hr.isNaN

theorem finite_of_repack {u : UnpackedFloat} (h : (repack u).isFinite = true) : u.isFinite = true := by
  cases u with
  | notANumber => exact h
  | infinity s => rwa [repack_infinity] at h
  | zero s => rfl
  | finite s m e hm => rfl

/-! ### Comparing -/

/-- A key by which numbers are ordered: infinities outside, then by sign, exponent and mantissa. -/
def orderKey : UnpackedFloat → ℤ ×ₗ ℤ ×ₗ ℤ
  | .notANumber => toLex (3, toLex (0, 0))
  | .infinity .positive => toLex (2, toLex (0, 0))
  | .infinity .negative => toLex (-2, toLex (0, 0))
  | .zero _ => toLex (0, toLex (0, 0))
  | .finite .positive m e _ => toLex (1, toLex (e, m))
  | .finite .negative m e _ => toLex (-1, toLex (-e, -m))

theorem compare_natCast (m n : ℕ) : compare (m : ℤ) n = compare m n := by
  rw [← cmp_eq_compare, ← cmp_eq_compare]
  exact (Nat.strictMono_cast (α := ℤ)).cmp_map_eq m n

theorem compare_neg (e f : ℤ) : compare (-e) (-f) = (compare e f).swap := by
  rw [← cmp_eq_compare, ← cmp_eq_compare, cmp_swap]
  exact StrictAnti.cmp_map_eq (fun _ _ h => neg_lt_neg h) e f

/-- Numbers compare as their keys do. -/
theorem compare_eq {u v : UnpackedFloat} (hu : u.isNaN = false) (hv : v.isNaN = false) :
    u.compare v = some (compare (orderKey u) (orderKey v)) := by
  cases u with
  | notANumber => cases hu
  | infinity s =>
    cases v with
    | notANumber => cases hv
    | infinity t => cases s <;> cases t <;> rfl
    | zero t => cases s <;> rfl
    | finite t n f hn => cases s <;> cases t <;> rfl
  | zero s =>
    cases v with
    | notANumber => cases hv
    | infinity t => cases t <;> rfl
    | zero t => rfl
    | finite t n f hn => cases t <;> rfl
  | finite s m e hm =>
    cases v with
    | notANumber => cases hv
    | infinity t => cases s <;> cases t <;> rfl
    | zero t => cases s <;> rfl
    | finite t n f hn =>
      -- Only numbers of one sign are compared beyond the first component of their keys.
      cases s with
      | positive =>
        cases t with
        | positive =>
          simp only [UnpackedFloat.compare, orderKey, Prod.Lex.compare_def, compareLex, compareOn,
            ← compare_natCast]
          rfl
        | negative => rfl
      | negative =>
        cases t with
        | positive => rfl
        | negative =>
          simp only [UnpackedFloat.compare, orderKey, Prod.Lex.compare_def, compareLex, compareOn,
            Ordering.swap_then, ← compare_natCast, ← compare_neg]
          rfl

theorem isNaN_iff {u : UnpackedFloat} : u.isNaN = true ↔ u = .notANumber := by
  cases u <;> simp [UnpackedFloat.isNaN]

/-- A value that is not a number compares with nothing. -/
theorem compare_eq_none {u v : UnpackedFloat} (h : u.isNaN = true ∨ v.isNaN = true) :
    u.compare v = none := by
  obtain hu | hv := h
  · rw [isNaN_iff.mp hu]
    rfl
  · rw [isNaN_iff.mp hv]
    cases u <;> rfl

theorem numbers_of_compare {u v : UnpackedFloat} {o : Ordering} (h : u.compare v = some o) :
    u.isNaN = false ∧ v.isNaN = false := by
  constructor
  · by_contra hu
    cases h.symm.trans (compare_eq_none (.inl (Bool.not_eq_false _ ▸ hu)))
  · by_contra hv
    cases h.symm.trans (compare_eq_none (.inr (Bool.not_eq_false _ ▸ hv)))

/-- The order of floating-point numbers is that of their keys. -/
theorem le_iff {u v : UnpackedFloat} :
    u.le v = true ↔ (u.isNaN = false ∧ v.isNaN = false) ∧ orderKey u ≤ orderKey v := by
  rw [UnpackedFloat.le]
  constructor
  · intro h
    obtain ⟨o, ho, hle⟩ := (Option.any_eq_true _ _).mp h
    have hnumbers := numbers_of_compare ho
    rw [compare_eq hnumbers.1 hnumbers.2, Option.some_inj] at ho
    exact ⟨hnumbers, compare_le_iff_le.mp (Ordering.isLE_iff_ne_gt.mp (ho ▸ hle))⟩
  · rintro ⟨hnumbers, hle⟩
    rw [compare_eq hnumbers.1 hnumbers.2]
    exact Ordering.isLE_iff_ne_gt.mpr (compare_le_iff_le.mpr hle)

theorem lt_iff {u v : UnpackedFloat} :
    u.lt v = true ↔ (u.isNaN = false ∧ v.isNaN = false) ∧ orderKey u < orderKey v := by
  rw [UnpackedFloat.lt, beq_iff_eq]
  constructor
  · intro h
    have hnumbers := numbers_of_compare h
    rw [compare_eq hnumbers.1 hnumbers.2, Option.some_inj] at h
    exact ⟨hnumbers, compare_lt_iff_lt.mp h⟩
  · rintro ⟨hnumbers, hlt⟩
    rw [compare_eq hnumbers.1 hnumbers.2, compare_lt_iff_lt.mpr hlt]

/-- No finite number lies above an infinite absolute value. -/
theorem finite_of_abs_le {u v : UnpackedFloat} (h : (repack u.abs).le v = true)
    (hv : v.isFinite = true) : u.isFinite = true := by
  cases u with
  | notANumber => cases h
  | infinity s =>
    rw [UnpackedFloat.abs, repack_infinity] at h
    cases v with
    | notANumber => cases hv
    | infinity t => cases hv
    | zero t => cases h
    | finite t n f hn => cases h
  | zero s => rfl
  | finite s m e hm => rfl

theorem abs_le_zero {u : UnpackedFloat} {s : Sign} (h : u.beq (.zero s) = true) :
    (repack u.abs).le (.zero s) = true := by
  cases u with
  | notANumber => cases h
  | infinity t => cases t <;> cases h
  | zero t =>
    rw [UnpackedFloat.abs, repack_zero]
    rfl
  | finite t m e hm => cases t <;> cases h

theorem zero_le_iff {s : Sign} {u : UnpackedFloat} : (UnpackedFloat.zero s).le u = true ↔
    (∃ t, u = .zero t) ∨ (∃ m e h, u = .finite .positive m e h) ∨ u = .infinity .positive := by
  cases u with
  | notANumber => simp [UnpackedFloat.le, UnpackedFloat.compare]
  | infinity t => cases t <;> simp [UnpackedFloat.le, UnpackedFloat.compare]
  | zero t => simp [UnpackedFloat.le, UnpackedFloat.compare]
  | finite t m e h => cases t <;> simp [UnpackedFloat.le, UnpackedFloat.compare, h]

/-! ### Arithmetic -/

section Arithmetic

variable {u v : UnpackedFloat}

theorem isNaN_of_operand {op : UnpackedFloat → UnpackedFloat → UnpackedFloat}
    (hleft : ∀ v, op .notANumber v = .notANumber) (hright : ∀ u, op u .notANumber = .notANumber)
    (h : u.isNaN = true ∨ v.isNaN = true) : (repack (op u v)).isNaN = true := by
  obtain hu | hv := h
  · rw [isNaN_iff.mp hu, hleft]
    rfl
  · rw [isNaN_iff.mp hv, hright]
    rfl

/-- A finite sum comes from finite operands. -/
theorem finite_of_add (h : (u.add .binary64 v).isFinite = true) :
    u.isFinite = true ∧ v.isFinite = true := by
  cases u with
  | notANumber => cases h
  | infinity s =>
    cases v with
    | infinity t =>
      rw [UnpackedFloat.add] at h
      split_ifs at h <;> cases h
    | _ => cases h
  | zero s => cases v <;> first | exact ⟨rfl, rfl⟩ | cases h
  | finite s m e hm => cases v <;> first | exact ⟨rfl, rfl⟩ | cases h

theorem finite_of_mul (h : (u.mul .binary64 v).isFinite = true) :
    u.isFinite = true ∧ v.isFinite = true := by
  cases u <;> cases v <;> first | exact ⟨rfl, rfl⟩ | cases h

/-- Rounding keeps the sign. -/
theorem hasSign_roundWithAccuracy (s : Sign) (m : ℕ) (e : ℤ) (a : Accuracy) :
    HasSign s (roundWithAccuracy .binary64 s m e a) := by
  unfold roundWithAccuracy
  dsimp only
  split_ifs with h
  · exact .inl rfl
  · exact .inr ⟨_, _, Nat.pos_of_ne_zero h, rfl⟩

theorem zero_le_repack {s : Sign} (h : (UnpackedFloat.zero s).le u = true) :
    (UnpackedFloat.zero s).le (repack u) = true := by
  obtain ⟨t, rfl⟩ | ⟨m, e, hm, rfl⟩ | rfl := zero_le_iff.mp h
  · rw [repack_zero]
    rfl
  · obtain hr | hr := repack_finite .positive hm
    · rw [hr]
      rfl
    · exact hr.zero_le
  · rw [repack_infinity]
    rfl

/-- The product of finite numbers that are not negative is not negative. -/
theorem zero_le_mul {s : Sign} (hu : (UnpackedFloat.zero s).le u = true)
    (hv : (UnpackedFloat.zero s).le v = true) (hfu : u.isFinite = true) (hfv : v.isFinite = true) :
    (UnpackedFloat.zero s).le (u.mul .binary64 v) = true := by
  obtain ⟨t, rfl⟩ | ⟨m, e, hm, rfl⟩ | rfl := zero_le_iff.mp hu
  · obtain ⟨t', rfl⟩ | ⟨n, f, hn, rfl⟩ | rfl := zero_le_iff.mp hv
    · rfl
    · rfl
    · cases hfv
  · obtain ⟨t', rfl⟩ | ⟨n, f, hn, rfl⟩ | rfl := zero_le_iff.mp hv
    · rfl
    · exact (hasSign_roundWithAccuracy .positive _ _ _).zero_le
    · cases hfv
  · cases hfu

theorem zero_le_mul_self {s : Sign} (hu : u.isNaN = false) :
    (UnpackedFloat.zero s).le (u.mul .binary64 u) = true := by
  cases u with
  | notANumber => cases hu
  | infinity t => cases t <;> rfl
  | zero t => rfl
  | finite t m e h =>
    have hsign : t * t = .positive := by cases t <;> rfl
    rw [UnpackedFloat.mul, hsign]
    exact (hasSign_roundWithAccuracy .positive _ _ _).zero_le

theorem zero_le_normalize {s : Sign} {m : ℤ} (e : ℤ) (hm : 0 ≤ m) :
    (UnpackedFloat.zero s).le (UnpackedFloat.normalize .binary64 m e .positive) = true := by
  rcases hm.eq_or_lt with rfl | hpos
  · rfl
  rw [UnpackedFloat.normalize, compare_gt_iff_gt.mpr hpos]
  exact (hasSign_roundWithAccuracy .positive _ _ _).zero_le

/-- The sum of numbers that are not negative is not negative. -/
theorem zero_le_add {s : Sign} (hu : (UnpackedFloat.zero s).le u = true)
    (hv : (UnpackedFloat.zero s).le v = true) :
    (UnpackedFloat.zero s).le (u.add .binary64 v) = true := by
  obtain ⟨t, rfl⟩ | ⟨m, e, hm, rfl⟩ | rfl := zero_le_iff.mp hu
  · obtain ⟨t', rfl⟩ | ⟨n, f, hn, rfl⟩ | rfl := zero_le_iff.mp hv
    · cases t <;> cases t' <;> rfl
    · rfl
    · rfl
  · obtain ⟨t', rfl⟩ | ⟨n, f, hn, rfl⟩ | rfl := zero_le_iff.mp hv
    · rfl
    · exact zero_le_normalize _ (Int.add_nonneg (Int.natCast_nonneg _) (Int.natCast_nonneg _))
    · rfl
  · obtain ⟨t', rfl⟩ | ⟨n, f, hn, rfl⟩ | rfl := zero_le_iff.mp hv
    · rfl
    · rfl
    · rfl

end Arithmetic

/-! ### The conventions -/

theorem isFinite_abs (x : Float) : x.abs.isFinite = x.isFinite := by
  change (repack x.toModel.unpack.abs).isFinite = x.toModel.unpack.isFinite
  cases hx : x.toModel.unpack with
  | notANumber => rfl
  | infinity s =>
    rw [UnpackedFloat.abs, repack_infinity]
    rfl
  | zero s =>
    rw [UnpackedFloat.abs, repack_zero]
    rfl
  | finite s m e h =>
    -- The exponent comes from a stored number, so the absolute value can be stored as well.
    exact (repack_inRange .positive h (exponent_lt _ hx)).isFinite

theorem isNaN_abs (x : Float) : x.abs.isNaN = x.isNaN := by
  change (repack x.toModel.unpack.abs).isNaN = x.toModel.unpack.isNaN
  rw [isNaN_repack]
  cases x.toModel.unpack <;> rfl

theorem le_iff_unpack {x y : Float} : x ≤ y ↔ x.toModel.unpack.le y.toModel.unpack = true :=
  decide_eq_true_iff

theorem lt_iff_unpack {x y : Float} : x < y ↔ x.toModel.unpack.lt y.toModel.unpack = true :=
  decide_eq_true_iff

instance : Scalar.Floating Float where
  number_of_le h := (le_iff.mp (le_iff_unpack.mp h)).1
  le_trans h h' := by
    rw [le_iff_unpack, le_iff] at *
    exact ⟨⟨h.1.1, h'.1.2⟩, h.2.trans h'.2⟩
  le_total ha hb := by
    rw [le_iff_unpack, le_iff_unpack, le_iff, le_iff]
    obtain h | h := le_total (orderKey _) (orderKey _)
    · exact .inl ⟨⟨ha, hb⟩, h⟩
    · exact .inr ⟨⟨hb, ha⟩, h⟩
  lt_iff {a b} := by
    rw [lt_iff_unpack, le_iff_unpack, le_iff_unpack, lt_iff, le_iff, le_iff, lt_iff_le_not_ge]
    tauto
  maxNum_eq a b := rfl
  minNum_eq a b := rfl
  number_of_finite {x} h := by
    change x.toModel.unpack.isFinite = true at h
    change x.toModel.unpack.isNaN = false
    cases hx : x.toModel.unpack <;> rw [hx] at h <;> first | rfl | cases h
  isNaN_abs := isNaN_abs
  isFinite_abs := isFinite_abs
  finite_of_abs_le h ha := finite_of_abs_le (le_iff_unpack.mp h) ha
  abs_le_zero h := le_iff_unpack.mpr (abs_le_zero h)
  isNaN_add := isNaN_of_operand (fun _ => rfl) fun u => by cases u <;> rfl
  isNaN_sub := isNaN_of_operand (fun _ => rfl) fun u => by cases u <;> rfl
  isNaN_mul := isNaN_of_operand (fun _ => rfl) fun u => by cases u <;> rfl
  isNaN_div := isNaN_of_operand (fun _ => rfl) fun u => by cases u <;> rfl
  finite_of_add h := finite_of_add (finite_of_repack h)
  finite_of_mul h := finite_of_mul (finite_of_repack h)
  add_nonneg ha hb := le_iff_unpack.mpr
    (zero_le_repack (zero_le_add (le_iff_unpack.mp ha) (le_iff_unpack.mp hb)))
  mul_nonneg ha hb hfa hfb := le_iff_unpack.mpr
    (zero_le_repack (zero_le_mul (le_iff_unpack.mp ha) (le_iff_unpack.mp hb) hfa hfb))
  mul_self_nonneg ha := le_iff_unpack.mpr (zero_le_repack (zero_le_mul_self ha))
  finite_zero := rfl
  negligiblePivot := by decide +kernel

end DoublePrecision

end BeamOptics
