import BeamOptics.Proofs.RealMaps
import BeamOptics.Line.BeamLine

/-! Interrupting an element. A stop inside a drift or a gap cuts the way through it into two, and
the two maps compose to the map of the whole: the kicks of a drift lie on a grid of their own, and
places in a gap snap to samples. -/

namespace BeamOptics

/-- A rule that extends a map from one place of an element to a later one, when it does not matter
where the way is interrupted and nothing can fail behind the element's end. -/
structure Splits (length : ℝ)
    (segment : ℝ → ℝ → PhaseMap ℝ → Except (Fault ℝ) (PhaseMap ℝ)) : Prop where
  split : ∀ {a b c : ℝ}, a ≤ b → b ≤ c → ∀ acc,
    segment a c acc = segment a b acc >>= segment b c
  beyond : ∀ {a : ℝ} (b : ℝ), length ≤ a → ∀ acc, ∃ M, segment a b acc = .ok M

/-! ### Drifts -/

section Kicks

variable {K : Type} [Scalar K]

/-- Kicks in a row are some of them and then the others. -/
theorem kickedDrift_add (charged : ChargedBeam K) (slicing : Slicing K) (gamma : K)
    (m n j : ℕ) (z : K) (acc : PhaseMap K) :
    kickedDrift charged slicing gamma (m + n) j z acc =
      (kickedDrift charged slicing gamma m j z acc).bind fun p =>
        kickedDrift charged slicing gamma n (j + m) p.2 p.1 := by
  -- The induction is on the first kicks; each leaves another place and another map to go on from.
  induction m generalizing j z acc with
  | zero => simp [kickedDrift, Except.bind]
  | succ m ih =>
    rw [Nat.succ_add]
    simp only [kickedDrift]
    cases hk : charged.model.kick
      (charged.beam.propagate (PhaseMap.drift (slicing.center j - z) gamma * acc))
      slicing.length with
    | error f => rfl
    | ok kick =>
      have h := ih (j + 1) (slicing.center j)
        (kick * (PhaseMap.drift (slicing.center j - z) gamma * acc))
      rw [show j + 1 + m = j + (m + 1) by omega] at h
      exact h

end Kicks

/-- Free motion up to a place in front of the next kick may be taken at once or with the motion
that follows it. -/
theorem kickedDrift_free (charged : ChargedBeam ℝ) (slicing : Slicing ℝ) (gamma : ℝ)
    (n j : ℕ) (y z finish : ℝ) (acc : PhaseMap ℝ) :
    ((kickedDrift charged slicing gamma n j z (PhaseMap.drift (z - y) gamma * acc)).map fun p =>
        PhaseMap.drift (finish - p.2) gamma * p.1) =
      (kickedDrift charged slicing gamma n j y acc).map fun p =>
        PhaseMap.drift (finish - p.2) gamma * p.1 := by
  have hjoin (w : ℝ) : PhaseMap.drift (w - z) gamma * (PhaseMap.drift (z - y) gamma * acc) =
      PhaseMap.drift (w - y) gamma * acc := by
    rw [← Mat.mul_assoc, PhaseMap.drift_mul, sub_add_sub_cancel]
  cases n with
  | zero => exact congrArg Except.ok (hjoin finish)
  | succ n => simp only [kickedDrift, hjoin]

namespace Slicing

/-- The number of kicks up to a place, without the detour over whole numbers. -/
theorem kicksUpTo_eq (slicing : Slicing ℝ) (z : ℝ) :
    slicing.kicksUpTo z = min ⌊z / slicing.length + 1 / 2⌋₊ slicing.count := by
  have hfloor (x : ℝ) : ⌊max ((⌊x⌋ : ℤ) : ℝ) 0⌋₊ = ⌊x⌋₊ := by
    rcases le_total 0 ⌊x⌋ with h | h
    · rw [max_eq_left (Int.cast_nonneg h), ← Int.floor_toNat, Int.floor_intCast, Int.floor_toNat]
    · rw [max_eq_right (Int.cast_nonpos.mpr h), Nat.floor_zero, ← Int.floor_toNat,
        Int.toNat_of_nonpos h]
  simp [kicksUpTo, hfloor]

theorem kicksUpTo_mono {slicing : Slicing ℝ} (h : 0 ≤ slicing.length) :
    Monotone slicing.kicksUpTo := by
  intro a b hab
  rw [kicksUpTo_eq, kicksUpTo_eq]
  apply min_le_min_right
  apply Nat.floor_le_floor
  linarith [div_le_div_of_nonneg_right hab h]

theorem kicksUpTo_add {slicing : Slicing ℝ} (h : 0 ≤ slicing.length) {a b : ℝ} (hab : a ≤ b) :
    slicing.kicksUpTo a + slicing.kicksBetween a b = slicing.kicksUpTo b :=
  Nat.add_sub_cancel' (kicksUpTo_mono h hab)

/-- The kicks between places add up. -/
theorem kicksBetween_add {slicing : Slicing ℝ} (h : 0 ≤ slicing.length) {a b c : ℝ}
    (hab : a ≤ b) (hbc : b ≤ c) :
    slicing.kicksBetween a b + slicing.kicksBetween b c = slicing.kicksBetween a c := by
  have h₁ := kicksUpTo_mono h hab
  have h₂ := kicksUpTo_mono h hbc
  unfold kicksBetween
  omega

/-- The count of slices is the rounded quotient, up to the last index. -/
theorem count_eq (element longest : ℝ) :
    (Slicing.of element longest).count =
      min (max 1 ⌈element / longest⌉₊) (Index.limit - 1) := by
  have h : ⌊max ((⌈element / longest⌉ : ℤ) : ℝ) 1⌋₊ = max 1 ⌈element / longest⌉₊ := by
    rcases le_total ⌈element / longest⌉ 1 with hle | hle
    · rw [max_eq_right (by exact_mod_cast hle), Nat.floor_one, max_eq_left]
      rw [← Int.ceil_toNat]
      omega
    · rw [max_eq_left (by exact_mod_cast hle), ← Int.floor_toNat, Int.floor_intCast, Int.ceil_toNat,
        max_eq_right]
      rw [← Int.ceil_toNat]
      omega
  simp [Slicing.of, Index.saturate, h]

theorem count_pos (element longest : ℝ) : 0 < (Slicing.of element longest).count := by
  rw [count_eq]
  exact lt_min (lt_max_of_lt_left one_pos) (by decide)

/-- The grid fills the element. -/
theorem count_mul_length (element longest : ℝ) :
    ((Slicing.of element longest).count : ℝ) * (Slicing.of element longest).length = element := by
  have h : ((Slicing.of element longest).count : ℝ) ≠ 0 :=
    Nat.cast_ne_zero.mpr (count_pos element longest).ne'
  exact mul_div_cancel₀ element h

theorem length_pos {element : ℝ} (longest : ℝ) (h : 0 < element) :
    0 < (Slicing.of element longest).length :=
  div_pos h (Nat.cast_pos.mpr (count_pos element longest))

/-- At the end of the element all kicks have been given, and behind it there is none. -/
theorem kicksUpTo_end {element z : ℝ} (longest : ℝ) (h : 0 < element) (hz : element ≤ z) :
    (Slicing.of element longest).kicksUpTo z = (Slicing.of element longest).count := by
  have hc : ((Slicing.of element longest).count : ℝ) ≤ z / (Slicing.of element longest).length := by
    rw [le_div_iff₀ (length_pos longest h), count_mul_length]
    exact hz
  rw [kicksUpTo_eq]
  apply min_eq_right
  apply Nat.le_floor
  linarith

end Slicing

theorem driftSegment_self (charged : Option (ChargedBeam ℝ)) (length gamma : ℝ) {a b : ℝ}
    (h : b ≤ a) (acc : PhaseMap ℝ) : driftSegment charged length gamma a b acc = .ok acc := by
  unfold driftSegment
  rw [if_pos h]

theorem driftSegment_uncharged (length gamma : ℝ) {a b : ℝ} (h : a < b) (acc : PhaseMap ℝ) :
    driftSegment none length gamma a b acc = .ok (PhaseMap.drift (b - a) gamma * acc) := by
  unfold driftSegment
  rw [if_neg h.not_ge]

/-- A charged drift gives its kicks, and moves freely from the last of them on. -/
theorem driftSegment_charged (charged : ChargedBeam ℝ) (length gamma : ℝ) {a b : ℝ} (h : a < b)
    (acc : PhaseMap ℝ) {slicing : Slicing ℝ}
    (hs : slicing = Slicing.of length charged.model.sliceLength) :
    driftSegment (some charged) length gamma a b acc =
      (kickedDrift charged slicing gamma (slicing.kicksBetween a b) (slicing.kicksUpTo a) a
        acc).map fun p => PhaseMap.drift (b - p.2) gamma * p.1 := by
  subst hs
  unfold driftSegment
  rw [if_neg h.not_ge]
  rfl

/-- The motion from the entrance of a drift to a place in front of its first kick is free. -/
theorem driftSegment_front {charged : Option (ChargedBeam ℝ)} {length : ℝ} (gamma : ℝ) {z : ℝ}
    (hz : 0 ≤ z)
    (hfront : ∀ c ∈ charged, (Slicing.of length c.model.sliceLength).kicksUpTo z = 0) :
    driftSegment charged length gamma 0 z PhaseMap.identity = .ok (PhaseMap.drift z gamma) := by
  rcases hz.eq_or_lt with rfl | hpos
  · rw [driftSegment_self charged length gamma le_rfl]
    apply congrArg Except.ok
    rw [← PhaseMap.ofBlocks_identity, PhaseMap.drift]
    simp [Block.identity]
  have hfree : PhaseMap.drift (z - 0) gamma * PhaseMap.identity = PhaseMap.drift z gamma := by
    rw [sub_zero]
    exact Mat.mul_identity _
  cases charged with
  | none => rw [driftSegment_uncharged length gamma hpos, hfree]
  | some c =>
    rw [driftSegment_charged c length gamma hpos _ rfl, Slicing.kicksBetween, hfront c rfl,
      Nat.zero_sub]
    exact congrArg Except.ok hfree

/-- A stop strictly inside a drift, with the kicks in front of it and those behind. -/
theorem driftSegment_split (charged : Option (ChargedBeam ℝ)) {length : ℝ} (gamma : ℝ)
    (h : 0 < length) {a b c : ℝ} (hab : a < b) (hbc : b < c) (acc : PhaseMap ℝ) :
    driftSegment charged length gamma a c acc =
      driftSegment charged length gamma a b acc >>= driftSegment charged length gamma b c := by
  cases charged with
  | none =>
    rw [driftSegment_uncharged length gamma (hab.trans hbc),
      driftSegment_uncharged length gamma hab]
    change _ = driftSegment none length gamma b c _
    rw [driftSegment_uncharged length gamma hbc, ← Mat.mul_assoc, PhaseMap.drift_mul,
      sub_add_sub_cancel]
  | some charged =>
    obtain ⟨slicing, hs⟩ : ∃ s, s = Slicing.of length charged.model.sliceLength := ⟨_, rfl⟩
    have hpos : 0 ≤ slicing.length := by
      rw [hs]
      exact (Slicing.length_pos _ h).le
    rw [driftSegment_charged charged length gamma (hab.trans hbc) acc hs,
      driftSegment_charged charged length gamma hab acc hs,
      ← Slicing.kicksBetween_add hpos hab.le hbc.le, kickedDrift_add,
      Slicing.kicksUpTo_add hpos hab.le]
    cases kickedDrift charged slicing gamma (slicing.kicksBetween a b) (slicing.kicksUpTo a) a
      acc with
    | error f => rfl
    | ok p =>
      -- What is free behind the last kick in front of the stop joins what is free behind the stop.
      have hfree := kickedDrift_free charged slicing gamma (slicing.kicksBetween b c)
        (slicing.kicksUpTo b) p.2 b c p.1
      exact hfree.symm.trans (driftSegment_charged charged length gamma hbc _ hs).symm

/-- Behind its end a drift cannot fail, because all of its kicks have been given. -/
theorem driftSegment_beyond (charged : Option (ChargedBeam ℝ)) {length : ℝ} (gamma : ℝ)
    (h : 0 < length) {a : ℝ} (b : ℝ) (ha : length ≤ a) (acc : PhaseMap ℝ) :
    ∃ M, driftSegment charged length gamma a b acc = .ok M := by
  rcases le_or_gt b a with hba | hab
  · exact ⟨acc, driftSegment_self charged length gamma hba acc⟩
  cases charged with
  | none => exact ⟨_, driftSegment_uncharged length gamma hab acc⟩
  | some charged =>
    have hnone : (Slicing.of length charged.model.sliceLength).kicksBetween a b = 0 := by
      rw [Slicing.kicksBetween, Slicing.kicksUpTo_end _ h ha,
        Slicing.kicksUpTo_end _ h (ha.trans hab.le), Nat.sub_self]
    rw [driftSegment_charged charged length gamma hab acc rfl, hnone]
    exact ⟨_, rfl⟩

/-- A drift splits at any place. -/
theorem driftSegment_splits (charged : Option (ChargedBeam ℝ)) {length : ℝ} (gamma : ℝ)
    (h : 0 < length) : Splits length (driftSegment charged length gamma) where
  split := by
    intro a b c hab hbc acc
    rcases hab.eq_or_lt with rfl | hab
    · rw [driftSegment_self charged length gamma le_rfl]
      rfl
    rcases hbc.eq_or_lt with rfl | hbc
    · cases driftSegment charged length gamma a b acc with
      | error f => rfl
      | ok M => exact (driftSegment_self charged length gamma le_rfl M).symm
    · exact driftSegment_split charged gamma h hab hbc acc
  beyond b ha acc := driftSegment_beyond charged gamma h b ha acc

/-! ### Gaps -/

theorem Profile.spacing_pos (p : Profile ℝ) : 0 < p.spacing := by
  have h := p.accepted
  unfold Profile.fault? at h
  split_ifs at h with h₁ h₂ h₃ h₄
  rw [Scalar.real_zero, not_le] at h₄
  exact h₄

theorem Profile.two_le_size (p : Profile ℝ) : 2 ≤ p.size := by
  have h := p.accepted
  unfold fault? at h
  split_ifs at h with hcolumns hshort
  exact not_lt.mp hshort

theorem Profile.length_pos (p : Profile ℝ) : 0 < p.length :=
  mul_pos p.spacing_pos (Nat.cast_pos.mpr (Nat.sub_pos_of_lt p.two_le_size))

/-- Equal steps from zero on are accepted. -/
theorem Profile.fault?_of_equal_steps {positions samples : Array ℝ} {step : ℝ} (hstep : 0 < step)
    (hsize : positions.size = samples.size) (hsamples : 2 ≤ samples.size)
    (hpositions : ∀ i < positions.size, positions.getD i 0 = i * step) :
    fault? positions samples = none := by
  have hsteps : ((positions.size - 1 : ℕ) : ℝ) ≠ 0 := by
    exact_mod_cast (by omega : positions.size - 1 ≠ 0)
  have hmean : meanStep positions = step := by
    rw [meanStep, Scalar.real_zero, hpositions _ (by omega), hpositions 0 (by omega), Scalar.real_count]
    field_simp
    simp
  -- No step differs from the mean one.
  have hfaults : (List.range (positions.size - 1)).findSome? (stepFault? positions) = none := by
    rw [List.findSome?_eq_none_iff]
    intro i hi
    rw [List.mem_range] at hi
    have hhere : positions.getD (i + 1) 0 - positions.getD i 0 = step := by
      rw [hpositions (i + 1) (by omega), hpositions i (by omega)]
      push_cast
      ring
    have htolerance : (0 : ℝ) ≤ stepTolerance := by norm_num [stepTolerance]
    unfold stepFault?
    dsimp only
    rw [Scalar.real_zero, hhere, hmean]
    simp [hstep, htolerance]
  have hfinite : (positions.all Scalar.isFinite && samples.all Scalar.isFinite) = true := by simp
  unfold fault?
  rw [if_neg (not_not.mpr hsize), if_neg (not_lt.mpr hsamples), hfinite, hmean]
  simp [hstep, hfaults]

/-- A later place never snaps to an earlier sample. -/
theorem Profile.indexOf_mono (p : Profile ℝ) : Monotone p.indexOf := by
  intro y z h
  have hround : roundAway (y / p.spacing) ≤ roundAway (z / p.spacing) :=
    roundAway_mono (div_le_div_of_nonneg_right h p.spacing_pos.le)
  simp only [Profile.indexOf, Scalar.real_round, Scalar.real_isNaN, Scalar.real_zero,
    Scalar.real_toNat, Bool.or_false, decide_eq_true_eq]
  by_cases hy : roundAway (y / p.spacing) ≤ 0
  · rw [if_pos hy]
    exact Nat.zero_le _
  · rw [if_neg hy, if_neg fun hz => hy (hround.trans hz)]
    exact min_le_min_right _ (Nat.floor_le_floor hround)

namespace Passage

def extend {K : Type} [Scalar K] (step : ℕ → Block K × Block K) (b : Block K × Block K) (k : ℕ) :
    Block K × Block K := ((step k).1 * b.1, (step k).2 * b.2)

def rangeBlocks {K : Type} [Scalar K] (step : ℕ → Block K × Block K) (ks : List ℕ) :
    Block K × Block K :=
  ks.foldl (extend step) (Block.identity, Block.identity)

theorem compose_eq (p : Passage ℝ) (step : ℕ → Block ℝ × Block ℝ) (i j : ℕ) :
    p.compose step i j =
      let b := rangeBlocks step (List.range' i (min j p.lastIndex - i))
      PhaseMap.ofBlocks ⟨b.1, b.1, b.2⟩ := rfl

theorem foldl_extend (step : ℕ → Block ℝ × Block ℝ) (ks : List ℕ) (b : Block ℝ × Block ℝ) :
    ks.foldl (extend step) b =
      ((rangeBlocks step ks).1 * b.1, (rangeBlocks step ks).2 * b.2) := by
  unfold rangeBlocks
  induction ks generalizing b with
  | nil => simp [Block.identity_mul]
  | cons k ks ih =>
    rw [List.foldl_cons, List.foldl_cons, ih, ih (extend step (Block.identity, Block.identity) k)]
    simp only [extend, Block.mul_assoc, Block.identity_mul]

/-- The blocks of one range after another multiply. -/
theorem rangeBlocks_append (step : ℕ → Block ℝ × Block ℝ) (ks ls : List ℕ) :
    rangeBlocks step (ks ++ ls) =
      ((rangeBlocks step ls).1 * (rangeBlocks step ks).1,
        (rangeBlocks step ls).2 * (rangeBlocks step ks).2) := by
  rw [rangeBlocks, List.foldl_append, foldl_extend]
  rfl

/-- One more step stands in front of the others. -/
theorem rangeBlocks_concat (step : ℕ → Block ℝ × Block ℝ) (ks : List ℕ) (k : ℕ) :
    rangeBlocks step (ks ++ [k]) =
      ((step k).1 * (rangeBlocks step ks).1, (step k).2 * (rangeBlocks step ks).2) := by
  rw [rangeBlocks, List.foldl_concat]
  rfl

/-- The steps over a range are those up to an index in it and those from there on. -/
theorem compose_split (p : Passage ℝ) (step : ℕ → Block ℝ × Block ℝ) {i k j : ℕ} (hik : i ≤ k)
    (hkj : k ≤ j) : p.compose step i j = p.compose step k j * p.compose step i k := by
  have hrange : List.range' i (min j p.lastIndex - i) =
      List.range' i (min k p.lastIndex - i) ++ List.range' k (min j p.lastIndex - k) := by
    -- Behind the last sample there is no step, so an index past it leaves the second range empty.
    rcases le_or_gt k p.lastIndex with hk | hk
    · rw [show min j p.lastIndex - i = (k - i) + (min j p.lastIndex - k) by omega,
        ← List.range'_append_1, min_eq_left hk, show i + (k - i) = k by omega]
    · rw [min_eq_right hk.le, min_eq_right (hk.le.trans hkj),
        show p.lastIndex - k = 0 by omega]
      simp
  simp only [compose_eq, hrange, rangeBlocks_append, PhaseMap.ofBlocks_mul]

/-- A gap splits at any place, because both parts snap it to the same sample. -/
theorem transportBetween_splits (p : Passage ℝ) (length : ℝ) :
    Splits length fun a b acc => .ok (p.transportBetween a b * acc) where
  split := by
    intro a b c hab hbc acc
    change Except.ok _ = Except.ok _
    rw [← Mat.mul_assoc]
    unfold transportBetween transportRange
    rw [compose_split p p.transportStep (p.profile.indexOf_mono hab) (p.profile.indexOf_mono hbc)]
  beyond _ _ _ := ⟨_, rfl⟩

/-- The steps between two places are those up to a place between them and those from there on. -/
theorem compose_split_places (p : Passage ℝ) (step : ℕ → Block ℝ × Block ℝ) {x y z : ℝ} (hxy : x ≤ y)
    (hyz : y ≤ z) :
    p.compose step (p.profile.indexOf x) (p.profile.indexOf z) =
      p.compose step (p.profile.indexOf y) (p.profile.indexOf z) *
        p.compose step (p.profile.indexOf x) (p.profile.indexOf y) :=
  compose_split p step (p.profile.indexOf_mono hxy) (p.profile.indexOf_mono hyz)

/-- Cut anywhere, the maps of a passage compose to the map of the whole: at any index, behind the last
sample too, and at any place, outside the field and half way between two samples too. -/
theorem maps_split (p : Passage ℝ) :
    (∀ {i k j : ℕ}, i ≤ k → k ≤ j →
      p.transferRange i j = p.transferRange k j * p.transferRange i k ∧
        p.transportRange i j = p.transportRange k j * p.transportRange i k) ∧
    ∀ (z : ℝ) {a b : ℝ}, 0 ≤ a → 0 ≤ b →
      p.transferMap z (a + b) = p.transferMap (z + a) b * p.transferMap z a ∧
        p.transportBetween z (z + a + b) =
          p.transportBetween (z + a) (z + a + b) * p.transportBetween z (z + a) := by
  constructor
  · intro i k j hik hkj
    exact ⟨compose_split p p.fieldStep hik hkj, compose_split p p.transportStep hik hkj⟩
  · intro z a b ha hb
    have hfirst : z ≤ z + a := le_add_of_nonneg_right ha
    have hsecond : z + a ≤ z + a + b := le_add_of_nonneg_right hb
    refine ⟨?_, compose_split_places p p.transportStep hfirst hsecond⟩
    calc
      p.transferMap z (a + b) =
          p.compose p.fieldStep (p.profile.indexOf z) (p.profile.indexOf (z + a + b)) := by
        rw [transferMap, transferRange, add_assoc]
      _ = p.transferMap (z + a) b * p.transferMap z a :=
        compose_split_places p p.fieldStep hfirst hsecond

noncomputable def hump : Profile ℝ where
  positions := #[0, 1, 2]
  samples := #[0, 100000, 0]
  accepted := Profile.fault?_of_equal_steps one_pos rfl (by decide) fun i (hi : i < 3) => by
    interval_cases i <;> simp

/-- The place half way between the first two samples snaps to the second. -/
theorem hump_indexOf_tie : hump.indexOf (1 / 2) = 1 := by
  have hspacing : hump.spacing = 1 := by simp [Profile.spacing, Profile.meanStep, hump]
  have hsize : hump.size = 3 := rfl
  have hround : roundAway (1 / 2) = 1 := by norm_num [roundAway]
  simp [Profile.indexOf, hspacing, hsize]
  norm_num [hround]

/-- A range cut behind the last sample, and a stretch from in front of the field to behind it, cut half
way between two samples. -/
theorem maps_split_hump : ∃ p : Passage ℝ,
    p = of hump ⟨50000000, 1, -1⟩ ⟨2500000, 938272088, 1⟩ .quadratic ∧
      p.profile.indexOf (-1 + 3 / 2) = 1 ∧
      p.transferRange 0 7 = p.transferRange 5 7 * p.transferRange 0 5 ∧
      p.transferMap (-1) (3 / 2 + 3) = p.transferMap (-1 + 3 / 2) 3 * p.transferMap (-1) (3 / 2) := by
  refine ⟨_, rfl, ?_, ?_, ?_⟩
  · have hplace : (-1 + 3 / 2 : ℝ) = 1 / 2 := by norm_num
    rw [hplace]
    exact hump_indexOf_tie
  · exact ((maps_split _).1 (by omega) (by omega)).1
  · exact ((maps_split _).2 (-1) (by norm_num) (by norm_num)).1

end Passage

end BeamOptics
