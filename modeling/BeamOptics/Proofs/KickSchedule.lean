import BeamOptics.Proofs.Segments

/-! The schedule of a drift with space charge. What happens on a segment is a list of moves, free
motion and kicks in turn, that depends on the two ends alone. Cut at any stops, the segments share the
kicks of the element out among themselves: none is lost and none is given twice, also where a stop
meets a kick. -/

namespace BeamOptics

inductive Move (K : Type) where
  | free (length : K)
  | kick (j : ℕ) (length : K)

namespace Move

variable {K : Type} [Scalar K]

/-- The map behind a move. A kick is that of the beam which the map so far makes of the one at the
entrance. -/
def run (charged : ChargedBeam K) (gamma : K) (acc : PhaseMap K) :
    Move K → Except (Fault K) (PhaseMap K)
  | free length => .ok (PhaseMap.drift length gamma * acc)
  | kick _ length => do
    let kick ← charged.model.kick (charged.beam.propagate acc) length
    return kick * acc

def kick? : Move K → Option (ℕ × K)
  | free _ => none
  | kick j length => some (j, length)

def free? : Move K → Option K
  | free length => some length
  | kick .. => none

end Move

namespace Slicing

section Moves

variable {K : Type} [Scalar K]

/-- A number of kicks, from kick `j` on, with free motion in front of each and behind the last one. -/
def movesFrom (s : Slicing K) (finish : K) : (count j : ℕ) → (z : K) → List (Move K)
  | 0, _, z => [.free (finish - z)]
  | count + 1, j, z =>
    .free (s.center j - z) :: .kick j s.length :: s.movesFrom finish count (j + 1) (s.center j)

def moves (s : Slicing K) (start finish : K) : List (Move K) :=
  if finish ≤ start then []
  else s.movesFrom finish (s.kicksBetween start finish) (s.kicksUpTo start) start

def kicks (s : Slicing K) (start finish : K) : List (ℕ × K) :=
  (s.moves start finish).filterMap Move.kick?

def frees (s : Slicing K) (start finish : K) : List K :=
  (s.moves start finish).filterMap Move.free?

theorem kicks_movesFrom (s : Slicing K) (finish : K) (n j : ℕ) (z : K) :
    (s.movesFrom finish n j z).filterMap Move.kick? = (List.range' j n).map (·, s.length) := by
  induction n generalizing j z with
  | zero => rfl
  | succ n ih =>
    rw [List.range'_succ, List.map_cons, ← ih (j + 1) (s.center j)]
    rfl

end Moves

end Slicing

section Drifts

variable {K : Type} [Scalar K]

/-- A drift with kicks runs the moves in order. -/
theorem kickedDrift_eq_moves (charged : ChargedBeam K) (s : Slicing K) (gamma finish : K)
    (n j : ℕ) (z : K) (acc : PhaseMap K) :
    ((kickedDrift charged s gamma n j z acc).map fun p =>
        PhaseMap.drift (finish - p.2) gamma * p.1) =
      (s.movesFrom finish n j z).foldlM (Move.run charged gamma) acc := by
  induction n generalizing j z acc with
  | zero => rfl
  | succ n ih =>
    simp only [kickedDrift, Slicing.movesFrom, List.foldlM_cons, Move.run]
    change _ = (charged.model.kick (charged.beam.propagate
      (PhaseMap.drift (s.center j - z) gamma * acc)) s.length >>= fun kick =>
        Except.ok (kick * (PhaseMap.drift (s.center j - z) gamma * acc))) >>= _
    cases charged.model.kick (charged.beam.propagate
      (PhaseMap.drift (s.center j - z) gamma * acc)) s.length with
    | error f => rfl
    | ok kick => exact ih (j + 1) (s.center j) (kick * (PhaseMap.drift (s.center j - z) gamma * acc))

/-- A drift runs its schedule. -/
theorem driftSegment_eq_moves (charged : ChargedBeam K) (length gamma start finish : K)
    (acc : PhaseMap K) :
    driftSegment (some charged) length gamma start finish acc =
      ((Slicing.of length charged.model.sliceLength).moves start finish).foldlM
        (Move.run charged gamma) acc := by
  unfold driftSegment Slicing.moves
  split_ifs with h
  · rfl
  · exact kickedDrift_eq_moves charged _ gamma finish _ _ start acc

end Drifts

namespace Slicing

variable {s : Slicing ℝ} {a b : ℝ} {j : ℕ}

theorem center_eq (s : Slicing ℝ) (j : ℕ) : s.center j = (j + 1 / 2) * s.length := by
  simp [center]

theorem center_mono (h : 0 ≤ s.length) : Monotone s.center := by
  intro j k hjk
  rw [center_eq, center_eq]
  gcongr

/-- Kicks up to a place are those whose centre is not behind it: one exactly at the place counts. -/
theorem lt_kicksUpTo_iff (h : 0 < s.length) :
    j < s.kicksUpTo a ↔ j < s.count ∧ s.center j ≤ a := by
  have hcenter : s.center j ≤ a ↔ (j + 1 : ℝ) ≤ a / s.length + 1 / 2 := by
    rw [center_eq, ← le_div_iff₀ h]
    constructor <;> intro <;> linarith
  have hfloor : j < ⌊a / s.length + 1 / 2⌋₊ ↔ (j + 1 : ℝ) ≤ a / s.length + 1 / 2 := by
    rw [← Nat.succ_le_iff, Nat.le_floor_iff' j.succ_ne_zero, Nat.cast_succ]
  rw [kicksUpTo_eq, lt_min_iff, hfloor, hcenter, and_comm]

theorem kicksUpTo_entrance (h : 0 < s.length) : s.kicksUpTo 0 = 0 := by
  by_contra hne
  obtain ⟨-, hle⟩ := (lt_kicksUpTo_iff h).mp (Nat.pos_of_ne_zero hne)
  rw [center_eq] at hle
  have : 0 < ((0 : ℕ) + 1 / 2 : ℝ) * s.length := by positivity
  linarith

/-- The kicks between two places are consecutive. -/
theorem kicks_eq (s : Slicing ℝ) (hab : a ≤ b) :
    s.kicks a b = (List.range' (s.kicksUpTo a) (s.kicksBetween a b)).map (·, s.length) := by
  unfold kicks moves
  split_ifs with hba
  · have hsame : a = b := le_antisymm hab hba
    rw [hsame, kicksBetween, Nat.sub_self]
    rfl
  · exact kicks_movesFrom s b _ _ a

/-- The kicks of a segment are those with their centre behind its start and not behind its end. -/
theorem mem_kicks_iff (h : 0 < s.length) (hab : a ≤ b) {l : ℝ} :
    (j, l) ∈ s.kicks a b ↔ l = s.length ∧ j < s.count ∧ a < s.center j ∧ s.center j ≤ b := by
  have hrange : s.kicksUpTo a ≤ j ∧ j < s.kicksUpTo a + s.kicksBetween a b ↔
      j < s.count ∧ a < s.center j ∧ s.center j ≤ b := by
    rw [kicksUpTo_add h.le hab, ← not_lt, lt_kicksUpTo_iff h, lt_kicksUpTo_iff h]
    constructor
    · rintro ⟨hstart, hj, hfinish⟩
      exact ⟨hj, not_le.mp fun hle => hstart ⟨hj, hle⟩, hfinish⟩
    · rintro ⟨hj, hstart, hfinish⟩
      exact ⟨fun hle => hstart.not_ge hle.2, hj, hfinish⟩
  rw [kicks_eq s hab, List.mem_map, ← hrange, ← List.mem_range'_1]
  constructor
  · rintro ⟨k, hk, he⟩
    cases he
    exact ⟨rfl, hk⟩
  · rintro ⟨rfl, hj⟩
    exact ⟨j, hj, rfl⟩

theorem sum_frees_movesFrom (s : Slicing ℝ) (finish : ℝ) (n j : ℕ) (y : ℝ) :
    ((s.movesFrom finish n j y).filterMap Move.free?).sum = finish - y := by
  induction n generalizing j y with
  | zero => exact List.sum_singleton
  | succ n ih =>
    change (s.center j - y) + ((s.movesFrom finish n (j + 1) (s.center j)).filterMap Move.free?).sum = _
    rw [ih]
    ring

/-- The free motion between two places adds up to their distance. -/
theorem sum_frees (s : Slicing ℝ) (hab : a ≤ b) : (s.frees a b).sum = b - a := by
  unfold frees moves
  split_ifs with hba
  · rw [le_antisymm hab hba, sub_self]
    rfl
  · exact sum_frees_movesFrom s b _ _ a

/-- No free motion is backwards as long as the centres ahead lie ahead, and not behind the end. -/
theorem frees_movesFrom_nonneg (h : 0 ≤ s.length) {finish : ℝ} {n : ℕ} {y : ℝ} (hy : y ≤ finish)
    (hahead : ∀ k, j ≤ k → k < j + n → y ≤ s.center k ∧ s.center k ≤ finish) :
    ∀ l ∈ (s.movesFrom finish n j y).filterMap Move.free?, 0 ≤ l := by
  induction n generalizing j y with
  | zero =>
    intro l hl
    rw [List.mem_singleton.mp hl]
    exact sub_nonneg.mpr hy
  | succ n ih =>
    obtain ⟨hstart, hfinish⟩ := hahead j le_rfl (by omega)
    refine List.forall_mem_cons.mpr ⟨sub_nonneg.mpr hstart, ih hfinish ?_⟩
    intro k hjk hkn
    exact ⟨center_mono h (by omega), (hahead k (by omega) (by omega)).2⟩

/-- No free motion goes backwards. -/
theorem frees_nonneg (h : 0 < s.length) (hab : a ≤ b) : ∀ l ∈ s.frees a b, 0 ≤ l := by
  unfold frees moves
  split_ifs with hba
  · exact nofun
  · apply frees_movesFrom_nonneg h.le hab
    intro k hfirst hlast
    have hmem : (k, s.length) ∈ s.kicks a b := by
      rw [kicks_eq s hab]
      exact List.mem_map_of_mem (List.mem_range'_1.mpr ⟨hfirst, hlast⟩)
    obtain ⟨-, -, hbehind, hwithin⟩ := (mem_kicks_iff h hab).mp hmem
    exact ⟨hbehind.le, hwithin⟩

/-- The free motion in front of a kick leads to its centre. -/
theorem center_of_movesFrom {finish : ℝ} {n i : ℕ} {y l : ℝ} {before after : List (Move ℝ)}
    (h : s.movesFrom finish n i y = before ++ .kick j l :: after) :
    y + (before.filterMap Move.free?).sum = s.center j := by
  induction n generalizing i y before with
  | zero =>
    -- There is no kick left: the only move is free.
    have hmem : Move.kick j l ∈ s.movesFrom finish 0 i y := by
      rw [h]
      exact List.mem_append_right _ (List.mem_cons_self ..)
    cases List.mem_singleton.mp hmem
  | succ n ih =>
    rcases before with _ | ⟨first, _ | ⟨second, rest⟩⟩
    · cases (List.cons.inj h).1
    · obtain ⟨rfl, htail⟩ := List.cons.inj h
      cases (List.cons.inj htail).1
      simp [Move.free?]
    · obtain ⟨rfl, htail⟩ := List.cons.inj h
      obtain ⟨rfl, hrest⟩ := List.cons.inj htail
      have hnext := ih hrest
      simp only [List.filterMap_cons, Move.free?, List.sum_cons]
      linarith

/-- A kick is given where the free motion in front of it has led, which is the centre of its slice.
-/
theorem center_of_moves {l : ℝ} {before after : List (Move ℝ)}
    (h : s.moves a b = before ++ .kick j l :: after) :
    a + (before.filterMap Move.free?).sum = s.center j := by
  unfold moves at h
  split_ifs at h
  · cases before <;> cases h
  · exact center_of_movesFrom h

end Slicing

/-! ### Chains of stops -/

section Chain

theorem le_of_chain {α : Type} [Preorder α] {f : ℕ → α} {m : ℕ} (h : ∀ i < m, f i ≤ f (i + 1))
    {i k : ℕ} (hik : i ≤ k) (hkm : k ≤ m) : f i ≤ f k := by
  induction k, hik using Nat.le_induction with
  | base => exact le_rfl
  | succ k _ ih => exact (ih (by omega)).trans (h k (by omega))

/-- Ranges that begin where the one before ends follow each other without a gap. -/
theorem flatMap_range_of_chain {f : ℕ → ℕ} {m : ℕ} (h : ∀ i < m, f i ≤ f (i + 1)) :
    (List.range m).flatMap (fun i => List.range' (f i) (f (i + 1) - f i)) =
      List.range' (f 0) (f m - f 0) := by
  induction m with
  | zero => simp
  | succ m ih =>
    have hfirst : f 0 ≤ f m := le_of_chain h (Nat.zero_le m) (by omega)
    have hlast : f m ≤ f (m + 1) := h m (by omega)
    rw [List.range_succ, List.flatMap_append, ih fun i hi => h i (by omega), List.flatMap_singleton]
    calc
      List.range' (f 0) (f m - f 0) ++ List.range' (f m) (f (m + 1) - f m) =
          List.range' (f 0) (f m - f 0) ++
            List.range' (f 0 + (f m - f 0)) (f (m + 1) - f m) := by
        rw [show f 0 + (f m - f 0) = f m by omega]
      _ = List.range' (f 0) (f (m + 1) - f 0) := by
        rw [List.range'_append_1, show f m - f 0 + (f (m + 1) - f m) = f (m + 1) - f 0 by omega]

/-- The map at the end of an element, from one segment after the other. -/
theorem throughStops_chain (segment : ℝ → ℝ → PhaseMap ℝ → Except (Fault ℝ) (PhaseMap ℝ))
    (z : ℕ → ℝ) (m : ℕ) (acc : PhaseMap ℝ) :
    (throughStops segment (z (m + 1)) ((List.range m).map fun i => z (i + 1)) (z 0) acc).map
        Prod.snd =
      (List.range (m + 1)).foldlM (fun acc i => segment (z i) (z (i + 1)) acc) acc := by
  -- The induction takes the first stop off, and goes on with the chain behind it.
  induction m generalizing z acc with
  | zero =>
    change ((segment (z 0) (z 1) acc).map ([], ·)).map Prod.snd = segment (z 0) (z 1) acc >>= pure
    cases segment (z 0) (z 1) acc with
    | error f => rfl
    | ok M => rfl
  | succ m ih =>
    have hstops : (List.range (m + 1)).map (fun i => z (i + 1)) =
        z 1 :: (List.range m).map fun i => z (i + 1 + 1) := by
      rw [List.range_succ_eq_map, List.map_cons, List.map_map]
      rfl
    have hfold : (List.range (m + 1 + 1)).foldlM (fun acc i => segment (z i) (z (i + 1)) acc) acc =
        segment (z 0) (z 1) acc >>= fun acc =>
          (List.range (m + 1)).foldlM (fun acc i => segment (z (i + 1)) (z (i + 1 + 1)) acc) acc := by
      rw [List.range_succ_eq_map, List.foldlM_cons]
      simp only [List.foldlM_map]
    rw [hstops, hfold, throughStops]
    cases segment (z 0) (z 1) acc with
    | error f => rfl
    | ok M =>
      refine Eq.trans ?_ (ih (fun i => z (i + 1)) M)
      change (throughStops segment _ _ (z 1) M >>= fun x => Except.ok (M :: x.1, x.2)).map Prod.snd =
        (throughStops segment _ _ (z 1) M).map Prod.snd
      cases throughStops segment (z (m + 1 + 1)) ((List.range m).map fun i => z (i + 1 + 1)) (z 1) M with
      | error f => rfl
      | ok x => rfl

theorem foldlM_flatMap {α β σ ε : Type} (step : σ → β → Except ε σ) (f : α → List β) (xs : List α)
    (s : σ) :
    (xs.flatMap f).foldlM step s = xs.foldlM (fun s x => (f x).foldlM step s) s := by
  induction xs generalizing s with
  | nil => rfl
  | cons x xs ih =>
    rw [List.flatMap_cons, List.foldlM_append, List.foldlM_cons]
    exact congrArg _ (funext ih)

/-- Through a chain of stops a drift runs the schedules of its segments one after the other. -/
theorem throughStops_moves (charged : ChargedBeam ℝ) (length gamma : ℝ) (z : ℕ → ℝ) (m : ℕ)
    (acc : PhaseMap ℝ) :
    (throughStops (driftSegment (some charged) length gamma) (z (m + 1))
        ((List.range m).map fun i => z (i + 1)) (z 0) acc).map Prod.snd =
      ((List.range (m + 1)).flatMap fun i =>
        (Slicing.of length charged.model.sliceLength).moves (z i) (z (i + 1))).foldlM
          (Move.run charged gamma) acc := by
  rw [throughStops_chain, foldlM_flatMap]
  simp only [driftSegment_eq_moves]

end Chain

namespace Slicing

/-- The kicks of an element, shared out among the segments of a chain of places `z 0, …, z m`. -/
structure SharedOut (s : Slicing ℝ) (z : ℕ → ℝ) (m : ℕ) : Prop where
  -- One segment after the other, every kick is given once, in order, and over a whole slice.
  once : (List.range m).flatMap (fun i => s.kicks (z i) (z (i + 1))) =
    (List.range s.count).map (·, s.length)
  ascending : ∀ {i k : ℕ}, i < k → k < m → ∀ p ∈ s.kicks (z i) (z (i + 1)),
    ∀ q ∈ s.kicks (z k) (z (k + 1)), p.1 < q.1
  -- A kick belongs to the segment that has its centre. A stop on the centre is behind the kick.
  place : ∀ {i j : ℕ} {l : ℝ}, i < m → ((j, l) ∈ s.kicks (z i) (z (i + 1)) ↔
    l = s.length ∧ j < s.count ∧ z i < (j + 1 / 2) * s.length ∧ (j + 1 / 2) * s.length ≤ z (i + 1))
  single : ∀ j < s.count, ∃! i, i < m ∧
    z i < (j + 1 / 2) * s.length ∧ (j + 1 / 2) * s.length ≤ z (i + 1)
  forward : ∀ i < m, ∀ l ∈ s.frees (z i) (z (i + 1)), 0 ≤ l
  whole : ∀ i < m, (s.frees (z i) (z (i + 1))).sum = z (i + 1) - z i
  -- The free motion in front of a kick ends at the kick's centre.
  centred : ∀ {i j : ℕ} {l : ℝ} {before after : List (Move ℝ)}, i < m →
    s.moves (z i) (z (i + 1)) = before ++ .kick j l :: after →
      z i + (before.filterMap Move.free?).sum = (j + 1 / 2) * s.length

/-- In all, the kicks are integrated over the length of all slices. -/
theorem SharedOut.total {s : Slicing ℝ} {z : ℕ → ℝ} {m : ℕ} (h : s.SharedOut z m) :
    (((List.range m).flatMap fun i => s.kicks (z i) (z (i + 1))).map Prod.snd).sum =
      s.count * s.length := by
  rw [h.once, List.map_map]
  simp only [Function.comp_def, List.map_const', List.length_range, List.sum_replicate,
    nsmul_eq_mul]

/-- Any chain from the entrance to where all kicks have been given shares them out. -/
theorem sharedOut {s : Slicing ℝ} (h : 0 < s.length) {z : ℕ → ℝ} {m : ℕ} (hentrance : z 0 = 0)
    (hexit : s.kicksUpTo (z m) = s.count) (hz : ∀ i < m, z i ≤ z (i + 1)) : s.SharedOut z m := by
  have hkicks : ∀ i < m, s.kicks (z i) (z (i + 1)) =
      (List.range' (s.kicksUpTo (z i)) (s.kicksBetween (z i) (z (i + 1)))).map (·, s.length) :=
    fun i hi => kicks_eq s (hz i hi)
  have hcounts : ∀ i < m, s.kicksUpTo (z i) ≤ s.kicksUpTo (z (i + 1)) :=
    fun i hi => kicksUpTo_mono h.le (hz i hi)
  have hplace {i j : ℕ} {l : ℝ} (hi : i < m) : (j, l) ∈ s.kicks (z i) (z (i + 1)) ↔
      l = s.length ∧ j < s.count ∧ z i < (j + 1 / 2) * s.length ∧
        (j + 1 / 2) * s.length ≤ z (i + 1) := by
    rw [← center_eq, mem_kicks_iff h (hz i hi)]
  have honce : (List.range m).flatMap (fun i => s.kicks (z i) (z (i + 1))) =
      (List.range s.count).map (·, s.length) := by
    calc
      (List.range m).flatMap (fun i => s.kicks (z i) (z (i + 1))) =
          (List.range m).flatMap fun i => (List.range' (s.kicksUpTo (z i))
            (s.kicksUpTo (z (i + 1)) - s.kicksUpTo (z i))).map (·, s.length) :=
        List.flatMap_congr fun i hi => hkicks i (List.mem_range.mp hi)
      _ = (List.range' (s.kicksUpTo (z 0)) (s.kicksUpTo (z m) - s.kicksUpTo (z 0))).map
            (·, s.length) := by
        rw [← List.map_flatMap, flatMap_range_of_chain hcounts]
      _ = (List.range s.count).map (·, s.length) := by
        rw [hentrance, hexit, kicksUpTo_entrance h, Nat.sub_zero, List.range_eq_range']
  refine ⟨honce, ?_, hplace, ?_, fun i hi => frees_nonneg h (hz i hi),
    fun i hi => sum_frees s (hz i hi), fun _ hmoves => ?_⟩
  · rintro i k hik hk ⟨j, _⟩ hp ⟨j', _⟩ hq
    obtain ⟨-, -, -, hj⟩ := (mem_kicks_iff h (hz i (by omega))).mp hp
    obtain ⟨-, -, hj', -⟩ := (mem_kicks_iff h (hz k hk)).mp hq
    -- The end of the earlier segment stands between the two centres.
    have hbetween : z (i + 1) ≤ z k := le_of_chain hz hik hk.le
    exact (center_mono h.le).reflect_lt (hj.trans_lt (hbetween.trans_lt hj'))
  · intro j hj
    have hmem : (j, s.length) ∈ (List.range m).flatMap fun i => s.kicks (z i) (z (i + 1)) := by
      rw [honce]
      exact List.mem_map_of_mem (List.mem_range.mpr hj)
    obtain ⟨i, hi, hkick⟩ := List.mem_flatMap.mp hmem
    have hi := List.mem_range.mp hi
    obtain ⟨-, -, hbehind, hwithin⟩ := (hplace hi).mp hkick
    refine ⟨i, ⟨hi, hbehind, hwithin⟩, ?_⟩
    rintro k ⟨hk, hbehind', hwithin'⟩
    rcases lt_trichotomy i k with hik | rfl | hki
    · have hbetween : z (i + 1) ≤ z k := le_of_chain hz hik hk.le
      linarith
    · rfl
    · have hbetween : z (k + 1) ≤ z i := le_of_chain hz hki hi.le
      linarith
  · rw [center_of_moves hmoves, center_eq]

/-- Slices are as many as asked for unless there are too few indices to count them. -/
theorem count_eq_ceil_iff (element longest : ℝ) :
    (Slicing.of element longest).count = max 1 ⌈element / longest⌉₊ ↔
      ⌈element / longest⌉₊ < Index.limit := by
  rw [count_eq, min_eq_left_iff, Index.limit]
  omega

/-- Slices keep to the largest length as long as they can be counted. -/
theorem length_le_iff {element longest : ℝ} (h : 0 < longest) :
    (Slicing.of element longest).length ≤ longest ↔ ⌈element / longest⌉₊ < Index.limit := by
  have hcount : (0 : ℝ) < (Slicing.of element longest).count :=
    Nat.cast_pos.mpr (count_pos element longest)
  calc
    (Slicing.of element longest).length ≤ longest ↔
        element / longest ≤ (Slicing.of element longest).count := by
      rw [← mul_le_mul_iff_right₀ hcount, count_mul_length, div_le_iff₀ h]
    _ ↔ ⌈element / longest⌉₊ ≤ (Slicing.of element longest).count := Nat.ceil_le.symm
    _ ↔ ⌈element / longest⌉₊ < Index.limit := by
      rw [count_eq, Index.limit]
      omega

end Slicing

theorem SpaceCharge.sliceLength_of_mk? {perveance longitudinal longest : ℝ} {model : SpaceCharge ℝ}
    (h : SpaceCharge.mk? perveance longitudinal longest = .ok model) :
    model.sliceLength = longest ∧ 0 < longest := by
  unfold mk? at h
  dsimp only at h
  split_ifs at h with hperveances hslice
  cases h
  exact ⟨rfl, by simpa using hslice⟩

/-- However a drift with space charge is cut, its segments share out the same kicks. There are as many
as slices of the largest length ask for, and none is longer, exactly where they can be counted. -/
theorem SpaceCharge.kicks_sharedOut {perveance longitudinal longest : ℝ} {model : SpaceCharge ℝ}
    (hmodel : SpaceCharge.mk? perveance longitudinal longest = .ok model) {length : ℝ}
    (hlength : 0 < length) {z : ℕ → ℝ} {m : ℕ} (hentrance : z 0 = 0) (hexit : z m = length)
    (hz : ∀ i < m, z i ≤ z (i + 1)) :
    ∃ s, s = Slicing.of length model.sliceLength ∧
      s.count = min (max 1 ⌈length / longest⌉₊) (Index.limit - 1) ∧
      s.length = length / s.count ∧
      (s.count = max 1 ⌈length / longest⌉₊ ↔ ⌈length / longest⌉₊ < Index.limit) ∧
      (s.length ≤ longest ↔ ⌈length / longest⌉₊ < Index.limit) ∧ s.SharedOut z m ∧
      (((List.range m).flatMap fun i => s.kicks (z i) (z (i + 1))).map Prod.snd).sum = length ∧
      ∀ (beam : Covariance ℝ) (gamma : ℝ) (acc : PhaseMap ℝ),
        (∀ i < m, driftSegment (some ⟨beam, model⟩) length gamma (z i) (z (i + 1)) acc =
          (s.moves (z i) (z (i + 1))).foldlM (Move.run ⟨beam, model⟩ gamma) acc) ∧
        (throughStops (driftSegment (some ⟨beam, model⟩) length gamma) length
            ((List.range (m - 1)).map fun i => z (i + 1)) 0 acc).map Prod.snd =
          ((List.range m).flatMap fun i => s.moves (z i) (z (i + 1))).foldlM
            (Move.run ⟨beam, model⟩ gamma) acc := by
  obtain ⟨hslice, hlongest⟩ := SpaceCharge.sliceLength_of_mk? hmodel
  rw [hslice]
  have hpos := Slicing.length_pos longest hlength
  have hend := Slicing.kicksUpTo_end longest hlength hexit.ge
  have hshared := Slicing.sharedOut hpos hentrance hend hz
  refine ⟨_, rfl, Slicing.count_eq length longest, rfl, Slicing.count_eq_ceil_iff length longest,
    Slicing.length_le_iff hlongest, hshared,
    hshared.total.trans (Slicing.count_mul_length length longest), ?_⟩
  intro beam gamma acc
  -- There is a segment, since the entrance is not the exit.
  obtain ⟨k, rfl⟩ : ∃ k, m = k + 1 := by
    refine Nat.exists_eq_succ_of_ne_zero fun hm => ?_
    rw [hm, hentrance] at hexit
    exact hlength.ne hexit
  have hstops := throughStops_moves ⟨beam, model⟩ length gamma z k acc
  rw [hexit, hentrance, hslice] at hstops
  refine ⟨fun i _ => ?_, hstops⟩
  rw [driftSegment_eq_moves, hslice]

/-- Stops in a drift of length one: twice at the centre of its second kick. -/
noncomputable def touchingStops (i : ℕ) : ℝ := [0, 3 / 8, 3 / 8].getD i 1

theorem SpaceCharge.kicks_sharedOut_touchingStops :
    SpaceCharge.mk? (1 / 1000) 0 (1 / 4) = .ok (⟨1 / 1000, 0, 1 / 4⟩ : SpaceCharge ℝ) ∧
      touchingStops 0 = 0 ∧ touchingStops 3 = 1 ∧
      (∀ i < 3, touchingStops i ≤ touchingStops (i + 1)) ∧
      ∃ s, s = Slicing.of 1 (1 / 4) ∧ s.count = 4 ∧ s.length = 1 / 4 ∧
        s.SharedOut touchingStops 3 ∧ (1, 1 / 4) ∈ s.kicks (touchingStops 0) (touchingStops 1) := by
  have hmodel : SpaceCharge.mk? (1 / 1000) 0 (1 / 4) =
      .ok (⟨1 / 1000, 0, 1 / 4⟩ : SpaceCharge ℝ) := by
    simp [SpaceCharge.mk?]
  have hz : ∀ i < 3, touchingStops i ≤ touchingStops (i + 1) := by
    intro i hi
    interval_cases i <;> norm_num [touchingStops]
  obtain ⟨s, hs, -, hlength, hcount, -, hshared, -⟩ :=
    SpaceCharge.kicks_sharedOut hmodel one_pos (by rfl) (by rfl : touchingStops 3 = 1) hz
  -- The slices are as many as the quotient says, since it can be counted.
  have hceil : ⌈(1 : ℝ) / (1 / 4)⌉₊ = 4 := by norm_num
  have hfour : s.count = 4 := by
    rw [hceil] at hcount
    exact hcount.mpr (by decide)
  have hquarter : s.length = 1 / 4 := by
    rw [hlength, hfour]
    norm_num
  refine ⟨hmodel, rfl, rfl, hz, s, hs, hfour, hquarter, hshared, (hshared.place (by omega)).mpr ?_⟩
  rw [hquarter, hfour]
  norm_num [touchingStops]

/-- Slices of a drift of length one that are to be no longer than 10⁻²⁰ are fewer than that asks for,
and each is longer. -/
theorem SpaceCharge.slices_overlong :
    SpaceCharge.mk? 1 0 (1 / 10 ^ 20) = .ok (⟨1, 0, 1 / 10 ^ 20⟩ : SpaceCharge ℝ) ∧
      (Slicing.of 1 (1 / 10 ^ 20 : ℝ)).count ≠ max 1 ⌈(1 : ℝ) / (1 / 10 ^ 20)⌉₊ ∧
      ¬ (Slicing.of 1 (1 / 10 ^ 20 : ℝ)).length ≤ 1 / 10 ^ 20 := by
  have hceil : ⌈(1 : ℝ) / (1 / 10 ^ 20)⌉₊ = 10 ^ 20 := by
    rw [one_div_one_div]
    exact_mod_cast Nat.ceil_natCast (10 ^ 20)
  have huncounted : ¬ ⌈(1 : ℝ) / (1 / 10 ^ 20)⌉₊ < Index.limit := by
    rw [hceil]
    decide
  refine ⟨by simp [SpaceCharge.mk?], ?_, ?_⟩
  · exact fun h => huncounted ((Slicing.count_eq_ceil_iff _ _).mp h)
  · exact fun h => huncounted ((Slicing.length_le_iff (by positivity)).mp h)

end BeamOptics
