import ChipEight.Outcome

/-!
# Rows of runs

A row of `a + b` runs is a row of `a` runs and, unless that failed, a row of `b` runs from where it
ended (`repeatedFrom_add`).  States that a step cannot tell apart lead to rows that cannot be told
apart (`repeatedFrom_congr`).
-/

namespace ChipEight

variable {α β : Type} {step : α → Outcome α}

namespace Outcome

variable {f : α → β} {o o' : Outcome α}

theorem value_of_map_eq (h : o.map f = o'.map f) : f o.value = f o'.value := by
  rw [← value_map f, h, value_map]

theorem fault_of_map_eq (h : o.map f = o'.map f) : o.fault = o'.fault := by
  rw [← fault_map f, h, fault_map]

end Outcome

/-- The same ending of a row, with the value looked at through `f`. -/
def Progress.map (f : α → β) (p : Progress α) : Progress β := ⟨p.toOutcome.map f, p.completed⟩

theorem Progress.of_map_eq {f : α → β} {p p' : Progress α} (h : p.map f = p'.map f) :
    f p.value = f p'.value ∧ p.completed = p'.completed ∧ p.fault = p'.fault := by
  have houtcome : p.toOutcome.map f = p'.toOutcome.map f := congrArg Progress.toOutcome h
  have hcompleted : (p.map f).completed = (p'.map f).completed := by rw [h]
  exact ⟨Outcome.value_of_map_eq houtcome, hcompleted, Outcome.fault_of_map_eq houtcome⟩

theorem repeatedFrom_succ_of_success {a : α} (h : (step a).fault = none) (done n : Nat) :
    repeatedFrom step done (n + 1) a = repeatedFrom step (done + 1) n (step a).value := by
  rw [repeatedFrom]
  simp only [h]

theorem repeatedFrom_succ_of_failure {a : α} {f : Fault} (h : (step a).fault = some f)
    (done n : Nat) : repeatedFrom step done (n + 1) a = ⟨step a, done⟩ := by
  rw [repeatedFrom]
  simp only [h]

theorem toOutcome_repeatedFrom_one (step : α → Outcome α) (done : Nat) (a : α) :
    (repeatedFrom step done 1 a).toOutcome = step a := by
  cases hf : (step a).fault with
  | none =>
    rw [repeatedFrom_succ_of_success hf]
    show Outcome.mk (step a).value none = step a
    rw [← hf]
  | some f => rw [repeatedFrom_succ_of_failure hf]

theorem completed_repeatedFrom_le (done n : Nat) (a : α) :
    (repeatedFrom step done n a).completed ≤ done + n := by
  induction n generalizing done a with
  | zero => exact Nat.le_refl _
  | succ n ih =>
    cases hf : (step a).fault with
    | none =>
      rw [repeatedFrom_succ_of_success hf]
      exact Nat.le_trans (ih (done + 1) _) (by omega)
    | some f =>
      rw [repeatedFrom_succ_of_failure hf]
      exact Nat.le_add_right done (n + 1)

theorem completed_repeated_le (n : Nat) (a : α) : (repeated step n a).completed ≤ n :=
  Nat.le_trans (completed_repeatedFrom_le 0 n a) (by omega)

/-- A row without a fault completes all its runs. -/
theorem completed_repeatedFrom_of_success {done n : Nat} {a : α}
    (h : (repeatedFrom step done n a).fault = none) :
    (repeatedFrom step done n a).completed = done + n := by
  induction n generalizing done a with
  | zero => rfl
  | succ n ih =>
    cases hf : (step a).fault with
    | none =>
      rw [repeatedFrom_succ_of_success hf] at h ⊢
      rw [ih h]
      omega
    | some f =>
      rw [repeatedFrom_succ_of_failure hf] at h
      exact absurd (hf.symm.trans h) (fun e => nomatch e)

theorem completed_repeated_of_success {n : Nat} {a : α} (h : (repeated step n a).fault = none) :
    (repeated step n a).completed = n :=
  (completed_repeatedFrom_of_success h).trans (Nat.zero_add n)

theorem repeatedFrom_add_of_success {done n : Nat} {a : α}
    (h : (repeatedFrom step done n a).fault = none) (b : Nat) :
    repeatedFrom step done (n + b) a =
      repeatedFrom step (repeatedFrom step done n a).completed b
        (repeatedFrom step done n a).value := by
  induction n generalizing done a with
  | zero => rw [Nat.zero_add]; rfl
  | succ n ih =>
    rw [Nat.succ_add]
    cases hf : (step a).fault with
    | none =>
      rw [repeatedFrom_succ_of_success hf] at h ⊢
      rw [repeatedFrom_succ_of_success hf]
      exact ih h
    | some f =>
      rw [repeatedFrom_succ_of_failure hf] at h
      exact absurd (hf.symm.trans h) (fun e => nomatch e)

/-- A row that failed fails in the same way however much longer it was meant to be. -/
theorem repeatedFrom_add_of_failure {done n : Nat} {a : α} {f : Fault}
    (h : (repeatedFrom step done n a).fault = some f) (b : Nat) :
    repeatedFrom step done (n + b) a = repeatedFrom step done n a := by
  induction n generalizing done a with
  | zero => cases h
  | succ n ih =>
    rw [Nat.succ_add]
    cases hf : (step a).fault with
    | none =>
      rw [repeatedFrom_succ_of_success hf] at h
      rw [repeatedFrom_succ_of_success hf, repeatedFrom_succ_of_success hf]
      exact ih h
    | some f' => rw [repeatedFrom_succ_of_failure hf, repeatedFrom_succ_of_failure hf]

/-- If a longer row met no fault, a shorter one met none. -/
theorem fault_repeatedFrom_of_le {done n n' : Nat} {a : α} (hle : n ≤ n')
    (h : (repeatedFrom step done n' a).fault = none) :
    (repeatedFrom step done n a).fault = none := by
  cases hf : (repeatedFrom step done n a).fault with
  | none => rfl
  | some f =>
    obtain ⟨b, rfl⟩ := Nat.exists_eq_add_of_le hle
    rw [repeatedFrom_add_of_failure hf, hf] at h
    cases h

/-- A row that is long enough ends with the run that fails, wherever it was meant to end. -/
theorem repeated_of_failure {n k : Nat} {a : α} {f : Fault} (hn : (repeated step n a).fault = none)
    (hf : (step (repeated step n a).value).fault = some f) (hlt : n < k) :
    repeated step k a = ⟨step (repeated step n a).value, n⟩ := by
  have hcompleted := completed_repeated_of_success hn
  obtain ⟨b, rfl⟩ := Nat.exists_eq_add_of_lt hlt
  rw [Nat.add_assoc, repeated, repeatedFrom_add_of_success hn]
  exact (repeatedFrom_succ_of_failure hf _ b).trans (congrArg (Progress.mk _) hcompleted)

/-- A row that failed has a run that fails after runs that do not. -/
theorem exists_failure_of_repeated {k : Nat} {a : α} {f : Fault}
    (h : (repeated step k a).fault = some f) :
    ∃ n < k, (repeated step n a).fault = none ∧
      (step (repeated step n a).value).fault = some f := by
  induction k with
  | zero => cases h
  | succ k ih =>
    cases hk : (repeated step k a).fault with
    | none =>
      have hlast : (repeated step (k + 1) a).toOutcome = step (repeated step k a).value := by
        rw [repeated, repeatedFrom_add_of_success hk]
        exact toOutcome_repeatedFrom_one _ _ _
      exact ⟨k, Nat.lt_succ_self k, hk, (congrArg Outcome.fault hlast).symm.trans h⟩
    | some f' =>
      have hrow : repeated step (k + 1) a = repeated step k a := repeatedFrom_add_of_failure hk 1
      obtain ⟨n, hlt, hn, hf⟩ := ih (hrow ▸ h)
      exact ⟨n, Nat.lt_succ_of_lt hlt, hn, hf⟩

/-- States that `step` cannot tell apart through `f` lead to rows that are the same through `f`. -/
theorem repeatedFrom_congr {f : α → β}
    (hstep : ∀ {a a'}, f a = f a' → (step a).map f = (step a').map f) (done n : Nat) {a a' : α}
    (h : f a = f a') :
    (repeatedFrom step done n a).map f = (repeatedFrom step done n a').map f := by
  induction n generalizing done a a' with
  | zero => exact congrArg (fun b => Progress.mk (Outcome.success b) done) h
  | succ n ih =>
    have hstep' := hstep h
    have hfault : (step a).fault = (step a').fault := Outcome.fault_of_map_eq hstep'
    cases hf : (step a).fault with
    | none =>
      rw [repeatedFrom_succ_of_success hf, repeatedFrom_succ_of_success (hfault ▸ hf)]
      exact ih (done + 1) (Outcome.value_of_map_eq hstep')
    | some e =>
      rw [repeatedFrom_succ_of_failure hf, repeatedFrom_succ_of_failure (hfault ▸ hf)]
      exact congrArg (fun o => Progress.mk o done) hstep'

end ChipEight
