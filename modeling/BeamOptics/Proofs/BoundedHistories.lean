import BeamOptics.Proofs.RelaxationLaw

/-! Histories as windows. From its making on, a history of positive capacity holds the latest pairs
that were pushed since the last clear, as many as its capacity says, and the histories of the three
planes do so independently of one another. A history of capacity zero is full only before its first
push: the test for fullness is an equality, so the pairs pushed later are all kept. -/

namespace BeamOptics

namespace History

variable {K : Type}

/-! ### Calls -/

inductive Call (K : Type) where
  | push (argument recursion : Vec K)
  | clear

def Call.pair? : Call K → Option (Vec K × Vec K)
  | .push argument recursion => some (argument, recursion)
  | .clear => none

def step (h : History K) : Call K → History K
  | .push argument recursion => h.push argument recursion
  | .clear => h.clear

def after (h : History K) (calls : List (Call K)) : History K := calls.foldl step h

/-- The pairs pushed since the last clear, oldest first. -/
def latestPairs (calls : List (Call K)) : List (Vec K × Vec K) :=
  (calls.rtakeWhile (·.pair?.isSome)).filterMap Call.pair?

@[simp] theorem after_nil (h : History K) : h.after [] = h := rfl

theorem after_concat (h : History K) (calls : List (Call K)) (call : Call K) :
    h.after (calls ++ [call]) = (h.after calls).step call :=
  List.foldl_concat ..

@[simp] theorem latestPairs_nil : latestPairs ([] : List (Call K)) = [] := rfl

theorem latestPairs_push (calls : List (Call K)) (argument recursion : Vec K) :
    latestPairs (calls ++ [.push argument recursion]) =
      latestPairs calls ++ [(argument, recursion)] := by
  rw [latestPairs, List.rtakeWhile_concat_pos _ _ _ rfl, List.filterMap_append]
  rfl

theorem latestPairs_clear (calls : List (Call K)) : latestPairs (calls ++ [.clear]) = [] := by
  rw [latestPairs, List.rtakeWhile_concat_neg _ _ _ Bool.false_ne_true, List.filterMap_nil]

/-! ### What calls leave -/

/-- After any calls a history that can hold a pair has the latest ones. -/
theorem after_empty_succ (n : ℕ) (calls : List (Call K)) :
    (empty (n + 1)).after calls = ⟨n + 1, (latestPairs calls).rtake (n + 1)⟩ := by
  induction calls using List.reverseRecOn with
  | nil => simp [empty, List.rtake]
  | append_singleton calls call ih =>
    rw [after_concat, ih]
    cases call with
    | push argument recursion => rw [latestPairs_push, step, push_rtake]
    | clear => simp [latestPairs_clear, step, clear, List.rtake]

/-- A history of capacity zero drops nothing but at a clear: the one pair that it could give up at
a push is not there yet. -/
theorem after_empty_zero (calls : List (Call K)) :
    (empty 0).after calls = ⟨0, latestPairs calls⟩ := by
  induction calls using List.reverseRecOn with
  | nil => rfl
  | append_singleton calls call ih =>
    rw [after_concat, ih]
    cases call with
    | push argument recursion =>
      rw [latestPairs_push, step, push]
      cases latestPairs calls <;> simp [isFull, size]
    | clear => simp [latestPairs_clear, step, clear]

/-! ### Windows -/

structure IsWindow (h : History K) (capacity : ℕ) (pairs : List (Vec K × Vec K)) : Prop where
  arguments_eq : h.arguments = (pairs.rtake capacity).map (·.1)
  recursions_eq : h.recursions = (pairs.rtake capacity).map (·.2)
  size_eq : h.size = min capacity pairs.length
  size_le : h.size ≤ capacity
  isFull_iff : h.isFull ↔ capacity ≤ pairs.length

/-- The last pairs of a list, as many as the capacity says, are a window of it. -/
theorem isWindow_rtake (capacity : ℕ) (pairs : List (Vec K × Vec K)) :
    (⟨capacity, pairs.rtake capacity⟩ : History K).IsWindow capacity pairs := by
  have hsize : (pairs.rtake capacity).length = min capacity pairs.length := by
    rw [List.rtake, List.length_drop]
    omega
  refine ⟨rfl, rfl, hsize, hsize.trans_le (min_le_left _ _), ?_⟩
  have hfull : (pairs.rtake capacity).length = capacity ↔ capacity ≤ pairs.length := by
    rw [hsize, min_eq_left_iff]
  exact decide_eq_true_iff.trans hfull

/-- Without a capacity only no pairs at all are a window of themselves. -/
theorem isWindow_zero_iff (pairs : List (Vec K × Vec K)) :
    (⟨0, pairs⟩ : History K).IsWindow 0 pairs ↔ pairs = [] := by
  constructor
  · intro h
    exact List.length_eq_zero_iff.mp (Nat.le_zero.mp h.size_le)
  · rintro rfl
    exact isWindow_rtake 0 []

theorem ofCapacity_eq_ok {capacity : ℕ} {h : History K} (hh : ofCapacity capacity = .ok h) :
    h = empty capacity := by
  obtain ⟨n, hn, rfl⟩ := map_eq_ok.mp hh
  unfold Index.ofCount at hn
  split at hn <;> cases hn
  rfl

end History

namespace Histories

variable {K : Type}

inductive Call (K : Type) where
  | record (p : Plane) (argument recursion : Vec K)
  | clear

def step (h : Histories K) : Call K → Histories K
  | .record p argument recursion => h.record p argument recursion
  | .clear => h.clear

def after (h : Histories K) (calls : List (Call K)) : Histories K := calls.foldl step h

def Call.inPlane? (p : Plane) : Call K → Option (History.Call K)
  | .record q argument recursion => if q = p then some (.push argument recursion) else none
  | .clear => some .clear

/-- A call reaches the history of a plane as the call that it is for that plane. -/
theorem get_step (h : Histories K) (call : Call K) (p : Plane) :
    (h.step call).get p = (h.get p).after (call.inPlane? p).toList := by
  cases call with
  | record q argument recursion =>
    by_cases hp : q = p
    · simp [step, record, Call.inPlane?, hp, History.after, History.step]
    · simp [step, record, Call.inPlane?, hp, Ne.symm hp, History.after]
  | clear => simp [step, clear, Call.inPlane?, History.after, History.step]

/-- The history of a plane is the one that its own calls lead to. -/
theorem get_after (h : Histories K) (calls : List (Call K)) (p : Plane) :
    (h.after calls).get p = (h.get p).after (calls.filterMap (Call.inPlane? p)) := by
  induction calls generalizing h with
  | nil => rfl
  | cons call calls ih =>
    have hstep : (h.after (call :: calls)).get p =
        ((h.step call).get p).after (calls.filterMap (Call.inPlane? p)) := ih (h.step call)
    rw [hstep, get_step]
    cases hcall : call.inPlane? p <;> simp [History.after, hcall]

end Histories

namespace History

variable {K : Type}

/-- After any calls a history is the window of its capacity on the pairs pushed since the last
clear, unless its capacity is zero and there are such pairs; then it has them all. The histories of
the planes do not interfere. -/
theorem after_isWindow_iff {capacity : ℕ} {h : History K} (hh : ofCapacity capacity = .ok h) :
    (∀ calls, (h.after calls).IsWindow capacity (latestPairs calls) ↔
      0 < capacity ∨ latestPairs calls = []) ∧
    (∀ calls, capacity = 0 → (h.after calls).increments = latestPairs calls) ∧
    ∃ hs, Histories.ofCapacity capacity = .ok hs ∧ ∀ calls p,
      (hs.after calls).get p = h.after (calls.filterMap (Histories.Call.inPlane? p)) := by
  refine ⟨fun calls => ?_, fun calls hzero => ?_, Triple.ofFn fun _ => h, ?_, fun calls p => ?_⟩
  · obtain rfl := ofCapacity_eq_ok hh
    cases capacity with
    | zero =>
      -- With no capacity nothing is evicted, so the window is kept only by an empty list.
      rw [after_empty_zero, isWindow_zero_iff]
      simp
    | succ n =>
      rw [after_empty_succ]
      exact iff_of_true (isWindow_rtake _ _) (.inl n.succ_pos)
  · obtain rfl := ofCapacity_eq_ok hh
    subst hzero
    rw [after_empty_zero]
  · rw [Histories.ofCapacity, hh]
    rfl
  · rw [Histories.get_after, Triple.get_ofFn]

/-- Two of the three pairs that came after a clear are left. -/
theorem after_isWindow_iff_two :
    History.ofCapacity 2 = .ok (empty 2 : History ℕ) ∧
      ((empty 2 : History ℕ).after [.push ⟨[7]⟩ ⟨[8]⟩, .clear, .push ⟨[1]⟩ ⟨[4]⟩,
        .push ⟨[2]⟩ ⟨[5]⟩, .push ⟨[3]⟩ ⟨[6]⟩]).IsWindow 2
          [(⟨[1]⟩, ⟨[4]⟩), (⟨[2]⟩, ⟨[5]⟩), (⟨[3]⟩, ⟨[6]⟩)] :=
  ⟨rfl, ((after_isWindow_iff rfl).1 _).mpr (.inl (by decide))⟩

/-- A pair pushed to a history that is to hold none stays there. -/
theorem zeroCapacity_not_isWindow :
    History.ofCapacity 0 = .ok (empty 0 : History ℕ) ∧
      ¬ ((empty 0 : History ℕ).after [.push ⟨[1]⟩ ⟨[1]⟩]).IsWindow 0
        (latestPairs [.push ⟨[1]⟩ ⟨[1]⟩]) :=
  ⟨rfl, fun h => absurd h.size_le (by decide)⟩

end History

end BeamOptics
