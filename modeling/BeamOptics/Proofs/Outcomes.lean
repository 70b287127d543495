/-! Results that may be faults. A sequence of steps succeeds when every step does, and otherwise
fails with the first fault; so two sequences whose steps succeed and fail alike do so themselves. -/

namespace BeamOptics

variable {ε α β : Type}

theorem bind_eq_ok {x : Except ε α} {g : α → Except ε β} {b : β} :
    (x >>= g) = .ok b ↔ ∃ a, x = .ok a ∧ g a = .ok b := by
  cases x with
  | error e => simp [bind, Except.bind]
  | ok a => simp [bind, Except.bind]

theorem bind_eq_error {x : Except ε α} {g : α → Except ε β} {e : ε} :
    (x >>= g) = .error e ↔ x = .error e ∨ ∃ a, x = .ok a ∧ g a = .error e := by
  cases x with
  | error e => simp [bind, Except.bind]
  | ok a => simp [bind, Except.bind]

theorem map_eq_ok {x : Except ε α} {g : α → β} {b : β} :
    x.map g = .ok b ↔ ∃ a, x = .ok a ∧ g a = b := by
  cases x with
  | error e => simp [Except.map]
  | ok a => simp [Except.map]

theorem map_eq_error {x : Except ε α} {g : α → β} {e : ε} : x.map g = .error e ↔ x = .error e := by
  cases x with
  | error e => simp [Except.map]
  | ok a => simp [Except.map]

theorem pure_eq_ok {a b : α} : (pure a : Except ε α) = .ok b ↔ a = b := by
  simp [pure, Except.pure]

theorem pure_ne_error {a : α} {e : ε} : (pure a : Except ε α) ≠ .error e := by
  simp [pure, Except.pure]

/-- Two results that are both faults or both values, the faults related by `F` and the values by `V`. -/
inductive Alike {ε' : Type} (F : ε → ε' → Prop) (V : α → β → Prop) :
    Except ε α → Except ε' β → Prop
  | error {e : ε} {e' : ε'} (h : F e e') : Alike F V (.error e) (.error e')
  | ok {a : α} {b : β} (h : V a b) : Alike F V (.ok a) (.ok b)

namespace Alike

variable {ε' α' β' : Type} {F : ε → ε' → Prop} {V : α → α' → Prop} {W : β → β' → Prop}
  {x : Except ε α} {y : Except ε' α'}

theorem elim (h : Alike F V x y) :
    (∃ e e', x = .error e ∧ y = .error e' ∧ F e e') ∨ ∃ a b, x = .ok a ∧ y = .ok b ∧ V a b := by
  cases h with
  | error he => exact Or.inl ⟨_, _, rfl, rfl, he⟩
  | ok hv => exact Or.inr ⟨_, _, rfl, rfl, hv⟩

/-- What is done with like results gives like results. -/
theorem bind {f : α → Except ε β} {g : α' → Except ε' β'} (h : Alike F V x y)
    (hfg : ∀ a b, V a b → Alike F W (f a) (g b)) : Alike F W (x >>= f) (y >>= g) := by
  cases h with
  | error he => exact .error he
  | ok hv => exact hfg _ _ hv

theorem map {f : α → β} {g : α' → β'} (h : Alike F V x y) (hfg : ∀ a b, V a b → W (f a) (g b)) :
    Alike F W (x.map f) (y.map g) := by
  cases h with
  | error he => exact .error he
  | ok hv => exact .ok (hfg _ _ hv)

theorem mono {G : ε → ε' → Prop} {W : α → α' → Prop} (h : Alike F V x y)
    (hF : ∀ e e', F e e' → G e e') (hV : ∀ a b, V a b → W a b) : Alike G W x y := by
  cases h with
  | error he => exact .error (hF _ _ he)
  | ok hv => exact .ok (hV _ _ hv)

/-- A result beside itself. -/
theorem self {x : Except ε α} {F : ε → ε → Prop} {V : α → α → Prop} (hF : ∀ e, F e e)
    (hV : ∀ a, x = .ok a → V a a) : Alike F V x x := by
  cases x with
  | error e => exact .error (hF e)
  | ok a => exact .ok (hV a rfl)

theorem of_eq {x y : Except ε α} {F : ε → ε → Prop} (h : x = y) (hF : ∀ e, F e e) :
    Alike F (· = ·) x y := by
  subst h
  exact .self hF fun _ _ => rfl

end Alike

end BeamOptics
