import BeamOptics.Index

/-!
Integration by split steps over equally spaced samples.

A step is a kick, which changes the momentum of a state by the force at a sample, followed by a
drift, which moves the position with the kicked momentum.
-/

namespace BeamOptics

structure SplitStep (K State : Type) where
  kick : (index : Nat) → (step : K) → State → State
  -- the change of position behind the kick
  drift : (index : Nat) → (step : K) → State → State

namespace SplitStep

variable {K State : Type}

@[inline] def step (system : SplitStep K State) (index : Nat) (size : K) (s : State) : State :=
  system.drift index size (system.kick index size s)

def statesFrom (system : SplitStep K State) (size : K) : (count index : Nat) → State → List State
  | 0, _, _ => []
  | count + 1, index, s => s :: statesFrom system size count (index + 1) (system.step index size s)

def integrate (system : SplitStep K State) (start : State) (count : Nat) (size : K) : List State :=
  system.statesFrom size count 0 start

/-- The states at the first `count` samples, if the machine can address a table of so many states
of `bytes` bytes each. -/
def integrate? (system : SplitStep K State) (bytes : Nat) (start : State) (count : Nat) (size : K) :
    Except (Fault K) (List State) :=
  (Index.ofCount bytes count).map (system.integrate start · size)

@[simp] theorem length_statesFrom (system : SplitStep K State) (size : K) (count index : Nat)
    (s : State) : (system.statesFrom size count index s).length = count := by
  induction count generalizing index s with
  | zero => rfl
  | succ n ih => simp [statesFrom, ih]

@[simp] theorem length_integrate (system : SplitStep K State) (start : State) (count : Nat)
    (size : K) : (system.integrate start count size).length = count :=
  length_statesFrom ..

end SplitStep

end BeamOptics
