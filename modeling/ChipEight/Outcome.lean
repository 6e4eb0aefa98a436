import ChipEight.Fault

/-!
# Operations that can fail part of the way

An operation that meets a fault keeps what it did before the fault.  An `Outcome` therefore always
holds a value, the one reached when the operation ended, next to the fault that ended it, if one
did.  `Outcome.andThen` runs a second operation where the first one succeeded, and `repeated` runs
one operation a number of times, counting the runs that succeeded.
-/

namespace ChipEight

/-- Where an operation ended and, if it failed, why. -/
structure Outcome (α : Type) where
  /-- What was reached, also by an operation that failed. -/
  value : α
  /-- What stopped the operation, if it did not run to its end. -/
  fault : Option Fault
deriving Repr, DecidableEq

namespace Outcome

variable {α β : Type}

/-- An operation that ran to its end. -/
def success (a : α) : Outcome α := ⟨a, none⟩

/-- An operation that stopped at `a`. -/
def failure (a : α) (f : Fault) : Outcome α := ⟨a, some f⟩

/-- Whether the operation ran to its end. -/
def succeeded (o : Outcome α) : Bool := o.fault.isNone

/-- The same ending, with the value looked at through `f`. -/
def map (f : α → β) (o : Outcome α) : Outcome β := ⟨f o.value, o.fault⟩

/-- Goes on with `next` from where `o` ended, unless `o` failed. -/
def andThen (o : Outcome α) (next : α → Outcome α) : Outcome α :=
  match o.fault with
  | none => next o.value
  | some _ => o

@[simp] theorem value_success (a : α) : (success a).value = a := rfl

@[simp] theorem value_failure (a : α) (f : Fault) : (failure a f).value = a := rfl

@[simp] theorem fault_failure (a : α) (f : Fault) : (failure a f).fault = some f := rfl

@[simp] theorem value_map (f : α → β) (o : Outcome α) : (o.map f).value = f o.value := rfl

@[simp] theorem fault_map (f : α → β) (o : Outcome α) : (o.map f).fault = o.fault := rfl

@[simp] theorem andThen_success (a : α) (next : α → Outcome α) :
    (success a).andThen next = next a := rfl

@[simp] theorem andThen_failure (a : α) (f : Fault) (next : α → Outcome α) :
    (failure a f).andThen next = failure a f := rfl

/-- An outcome whose value is `state`, or the fault if there is no such state. -/
def ofExcept (state : α) : Except Fault α → Outcome α
  | .ok a => success a
  | .error f => failure state f

end Outcome

/-- The end of a row of runs of one operation. -/
structure Progress (α : Type) extends Outcome α where
  /-- The number of runs that succeeded. -/
  completed : Nat
deriving Repr, DecidableEq

variable {α : Type}

/-- Runs `step` up to `n` times, each time from where the last run ended; `done` runs went before.
The first fault ends the row. -/
def repeatedFrom (step : α → Outcome α) (done : Nat) : Nat → α → Progress α
  | 0, a => ⟨.success a, done⟩
  | n + 1, a =>
    let o := step a
    match o.fault with
    | none => repeatedFrom step (done + 1) n o.value
    | some _ => ⟨o, done⟩

/-- Runs `step` up to `n` times, each time from where the last run ended, until the first fault. -/
def repeated (step : α → Outcome α) (n : Nat) (a : α) : Progress α := repeatedFrom step 0 n a

/-- What the runs of `repeated step n a` that succeed reach, in order. -/
def visited (step : α → Outcome α) : Nat → α → List α
  | 0, _ => []
  | n + 1, a =>
    let o := step a
    match o.fault with
    | none => o.value :: visited step n o.value
    | some _ => []

/-- What the runs of `repeated step n a` start from, in order, the failing run included. -/
def attempted (step : α → Outcome α) : Nat → α → List α
  | 0, _ => []
  | n + 1, a =>
    let o := step a
    match o.fault with
    | none => a :: attempted step n o.value
    | some _ => [a]

theorem completed_repeatedFrom (step : α → Outcome α) (done n : Nat) (a : α) :
    (repeatedFrom step done n a).completed = done + (visited step n a).length := by
  induction n generalizing done a with
  | zero => rfl
  | succ n ih =>
    cases h : (step a).fault with
    | none =>
      simp only [repeatedFrom, visited, h, ih, List.length_cons]
      omega
    | some f => simp [repeatedFrom, visited, h]

/-- Each run that succeeds reaches one value. -/
theorem completed_repeated (step : α → Outcome α) (n : Nat) (a : α) :
    (repeated step n a).completed = (visited step n a).length := by
  rw [repeated, completed_repeatedFrom, Nat.zero_add]

end ChipEight
