-- SUMMARY: Steps of a deterministic machine, and several of them taking turns on one memory.
import Mathlib.Logic.Function.Basic

/-!
# Machines and turns

`steps step n s` takes `n` steps from `s`, if there are as many. Machines with a memory in
common take turns in any order; while all but one of them leave the memory alone, that one
goes through the states it would go through alone.
-/

def steps {σ : Type} (step : σ → Option σ) : Nat → σ → Option σ
  | 0, s => some s
  | n + 1, s => (step s).bind (steps step n)

namespace Steps

variable {σ : Type} {step : σ → Option σ} {s s' s'' : σ} {m n : Nat}

theorem succ (h : step s = some s') (hrest : steps step n s' = some s'') :
    steps step (n + 1) s = some s'' := by
  rw [steps, h, Option.bind_some, hrest]

theorem append (h : steps step m s = some s') (hrest : steps step n s' = some s'') :
    steps step (m + n) s = some s'' := by
  induction m generalizing s with
  | zero =>
    obtain rfl := Option.some.inj h
    rwa [Nat.zero_add]
  | succ m ih =>
    rw [steps] at h
    obtain ⟨s₁, hstep, hsteps⟩ := Option.bind_eq_some_iff.mp h
    rw [Nat.succ_add]
    exact succ hstep (ih hsteps)

/-- A machine that does what another one does, as long as `I` holds, takes its steps. -/
theorem lift {step' : σ → Option σ} {I : σ → Prop}
    (hstep : ∀ s s', I s → step s = some s' → step' s = some s' ∧ I s') (hs : I s)
    (h : steps step n s = some s') : steps step' n s = some s' ∧ I s' := by
  induction n generalizing s with
  | zero =>
    obtain rfl := Option.some.inj h
    exact ⟨rfl, hs⟩
  | succ n ih =>
    rw [steps] at h
    obtain ⟨s₁, hnext, hrest⟩ := Option.bind_eq_some_iff.mp h
    obtain ⟨hnext', hs₁⟩ := hstep s s₁ hs hnext
    obtain ⟨hrest', hs'⟩ := ih hs₁ hrest
    exact ⟨succ hnext' hrest', hs'⟩

/-- The states on the way have a next one. -/
theorem exists_next (h : steps step n s = some s') (hm : m < n) :
    ∃ s₁ s₂, steps step m s = some s₁ ∧ step s₁ = some s₂ := by
  induction m generalizing s n with
  | zero =>
    obtain ⟨n, rfl⟩ : ∃ k, n = k + 1 := ⟨n - 1, by omega⟩
    rw [steps] at h
    obtain ⟨s₁, hstep, -⟩ := Option.bind_eq_some_iff.mp h
    exact ⟨s, s₁, rfl, hstep⟩
  | succ m ih =>
    obtain ⟨n, rfl⟩ : ∃ k, n = k + 1 := ⟨n - 1, by omega⟩
    rw [steps] at h
    obtain ⟨s₁, hstep, hrest⟩ := Option.bind_eq_some_iff.mp h
    obtain ⟨s₂, s₃, hsteps, hnext⟩ := ih hrest (by omega)
    exact ⟨s₂, s₃, succ hstep hsteps, hnext⟩

end Steps

/-! ## Turns -/

section Turns

variable {ι κ μ : Type} [DecidableEq ι] (step : κ × μ → Option (κ × μ))

/-- Machine `i` takes a step on the memory, if it has one to take. -/
def turn (s : (ι → κ) × μ) (i : ι) : (ι → κ) × μ :=
  match step (s.1 i, s.2) with
  | none => s
  | some (k, m) => (Function.update s.1 i k, m)

def turns (schedule : List ι) (s : (ι → κ) × μ) : (ι → κ) × μ := schedule.foldl (turn step) s

/-- As many steps as there are, up to `n`. -/
def stepsUpTo : Nat → κ × μ → κ × μ
  | 0, s => s
  | n + 1, s => match step s with
    | none => s
    | some s => stepsUpTo n s

end Turns

namespace Turns

variable {ι κ μ : Type} [DecidableEq ι] {step : κ × μ → Option (κ × μ)}

theorem stepsUpTo_stopped {s : κ × μ} (h : step s = none) (n : Nat) : stepsUpTo step n s = s := by
  cases n with
  | zero => rfl
  | succ n => rw [stepsUpTo, h]

theorem stepsUpTo_add {s s' : κ × μ} {m : Nat} (h : steps step m s = some s') (n : Nat) :
    stepsUpTo step (m + n) s = stepsUpTo step n s' := by
  induction m generalizing s with
  | zero =>
    obtain rfl := Option.some.inj h
    rw [Nat.zero_add]
  | succ m ih =>
    rw [steps] at h
    obtain ⟨s₁, hstep, hrest⟩ := Option.bind_eq_some_iff.mp h
    rw [Nat.succ_add, stepsUpTo, hstep]
    exact ih hrest

theorem stepsUpTo_of_steps {s s' : κ × μ} {n : Nat} (h : steps step n s = some s') :
    stepsUpTo step n s = s' := stepsUpTo_add h 0

/-- A machine that has stopped stays as it is. -/
theorem stepsUpTo_of_stopped {s s' : κ × μ} {m n : Nat} (h : steps step m s = some s')
    (hstop : step s' = none) (hmn : m ≤ n) : stepsUpTo step n s = s' := by
  obtain ⟨k, rfl⟩ := Nat.exists_eq_add_of_le hmn
  rw [stepsUpTo_add h, stepsUpTo_stopped hstop]

theorem stepsUpTo_invariant {I : κ × μ → Prop} (hstep : ∀ s s', I s → step s = some s' → I s') {s : κ × μ}
    (h : I s) (n : Nat) : I (stepsUpTo step n s) := by
  induction n generalizing s with
  | zero => exact h
  | succ n ih =>
    cases hnext : step s with
    | none =>
      rw [stepsUpTo_stopped hnext]
      exact h
    | some s' =>
      rw [stepsUpTo, hnext]
      exact ih (hstep s s' h hnext)

theorem turn_of_none {s : (ι → κ) × μ} {i : ι} (h : step (s.1 i, s.2) = none) : turn step s i = s := by
  rw [turn, h]

theorem turn_of_some {s : (ι → κ) × μ} {i : ι} {k : κ} {m : μ} (h : step (s.1 i, s.2) = some (k, m)) :
    turn step s i = (Function.update s.1 i k, m) := by
  rw [turn, h]

theorem turn_of_ne (s : (ι → κ) × μ) {i j : ι} (h : j ≠ i) : (turn step s i).1 j = s.1 j := by
  rw [turn]
  split
  · rfl
  · exact Function.update_of_ne h ..

/-- The rule for machines of which one alone writes: whatever the order of turns, it is where
its own steps have brought it, and the memory too. -/
theorem alone {Quiet : κ → Prop} {i₀ : ι}
    (hquiet : ∀ k m k' m', Quiet k → step (k, m) = some (k', m') → Quiet k' ∧ m' = m)
    (schedule : List ι) {s : (ι → κ) × μ} (hs : ∀ i ≠ i₀, Quiet (s.1 i)) :
    ((turns step schedule s).1 i₀, (turns step schedule s).2) =
        stepsUpTo step (schedule.count i₀) (s.1 i₀, s.2) ∧
      ∀ i ≠ i₀, Quiet ((turns step schedule s).1 i) := by
  induction schedule generalizing s with
  | nil => exact ⟨rfl, hs⟩
  | cons i schedule ih =>
    by_cases hi : i = i₀
    · subst hi
      have hothers : ∀ j ≠ i, Quiet ((turn step s i).1 j) := fun j hj => by
        rw [turn_of_ne s hj]
        exact hs j hj
      refine ⟨(ih hothers).1.trans ?_, (ih hothers).2⟩
      rw [List.count_cons_self, stepsUpTo]
      cases hstep : step (s.1 i, s.2) with
      | none => rw [turn_of_none hstep, stepsUpTo_stopped hstep]
      | some next => simp only [turn_of_some hstep, Function.update_self]
    · have hothers : ∀ j ≠ i₀, Quiet ((turn step s i).1 j) ∧ (turn step s i).2 = s.2 := fun j hj => by
        cases hstep : step (s.1 i, s.2) with
        | none =>
          rw [turn_of_none hstep]
          exact ⟨hs j hj, rfl⟩
        | some next =>
          obtain ⟨hnext, hmem⟩ := hquiet _ _ next.1 next.2 (hs i hi) hstep
          rw [turn_of_some hstep]
          refine ⟨?_, hmem⟩
          simp only
          by_cases hji : j = i
          · rw [hji, Function.update_self]
            exact hnext
          · rw [Function.update_of_ne hji]
            exact hs j hj
      rw [List.count_cons_of_ne hi]
      refine ⟨(ih fun j hj => (hothers j hj).1).1.trans ?_, (ih fun j hj => (hothers j hj).1).2⟩
      rw [turn_of_ne s (Ne.symm hi), (hothers i hi).2]

end Turns
