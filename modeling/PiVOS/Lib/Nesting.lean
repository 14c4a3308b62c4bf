-- SUMMARY: Executions of a system with nested activations, and the push that opened each of them.
import Mathlib.Data.List.Basic

/-!
# Nested activations

A system whose states have a depth, and which saves a snapshot of its state for
every level it leaves by going one deeper. If steps respect the levels below,
what is saved for a level is the snapshot taken at the push that opened the level
above, however many levels have come and gone in between.
-/

/-- The states reached from `s` by the events `es`, in order. -/
inductive Exec {σ ε : Type} (step : σ → ε → σ → Prop) (s : σ) : List ε → σ → Prop
  | nil : Exec step s [] s
  | snoc {es : List ε} {e : ε} {s' s'' : σ} (h : Exec step s es s') (hstep : step s' e s'') :
    Exec step s (es ++ [e]) s''

namespace Exec

variable {σ ε : Type} {step : σ → ε → σ → Prop} {s s' : σ} {es : List ε}

/-- What every step preserves holds in every state reached. -/
theorem invariant {I : σ → Prop} (h : Exec step s es s')
    (hpres : ∀ s e s', I s → step s e s' → I s') (hs : I s) : I s' := by
  induction h with
  | nil => exact hs
  | snoc _ hstep ih => exact hpres _ _ _ ih hstep

/-- The rule for a ghost record: where every step can be given one that keeps the invariant,
the whole execution carries one. -/
theorem ghost {γ : Type} {R : σ × γ → ε → σ × γ → Prop} {I : σ → γ → Prop} {g : γ} (h : Exec step s es s')
    (hstep : ∀ s e s' g, I s g → step s e s' → ∃ g', R (s, g) e (s', g') ∧ I s' g') (hs : I s g) :
    ∃ g', Exec R (s, g) es (s', g') ∧ I s' g' := by
  induction h with
  | nil => exact ⟨g, .nil, hs⟩
  | snoc _ hlast ih =>
    obtain ⟨g₁, hrun, h₁⟩ := ih
    obtain ⟨g₂, hghost, h₂⟩ := hstep _ _ _ _ h₁ hlast
    exact ⟨g₂, hrun.snoc hghost, h₂⟩

end Exec

/-- The execution from `s` never comes back up to level `d`. -/
def ExecBelow {σ ε : Type} (step : σ → ε → σ → Prop) (depth : σ → Nat) (d : Nat) :
    σ → List ε → σ → Prop :=
  Exec fun s e s' => step s e s' ∧ d < depth s'

/-- A step goes one level deeper and saves a snapshot for the level it leaves, or
stays or comes up; either way it keeps what is saved for the levels above. -/
structure Nesting {σ ε : Type} (step : σ → ε → σ → Prop) where
  Snapshot : Type
  depth : σ → Nat
  snapshot : σ → Snapshot
  saved : σ → Nat → Snapshot
  Inv : σ → Prop
  inv_step : ∀ s e s', Inv s → step s e s' → Inv s'
  cases : ∀ {s e s'}, Inv s → step s e s' →
    (depth s' = depth s + 1 ∧ saved s' (depth s) = snapshot s ∧
      ∀ d < depth s, saved s' d = saved s d) ∨
    (depth s' ≤ depth s ∧ ∀ d < depth s', saved s' d = saved s d)

namespace Nesting

variable {σ ε : Type} {step : σ → ε → σ → Prop}

/-- `s₁` is the state in which the execution `es` from `s₀` to `s` left level `d`
for the last time: it went one deeper there and has stayed below since. -/
structure LeftAt (n : Nesting step) (s₀ : σ) (es : List ε) (s : σ) (d : Nat) (s₁ : σ) :
    Prop where
  split : ∃ before e after s₂, es = before ++ e :: after ∧ Exec step s₀ before s₁ ∧
    step s₁ e s₂ ∧ n.depth s₂ = d + 1 ∧ ExecBelow step n.depth d s₂ after s
  depth : n.depth s₁ = d

theorem LeftAt.snoc {n : Nesting step} {s₀ s s' s₁ : σ} {es : List ε} {e : ε} {d : Nat}
    (h : n.LeftAt s₀ es s d s₁) (hstep : step s e s') (hd : d < n.depth s') :
    n.LeftAt s₀ (es ++ [e]) s' d s₁ := by
  obtain ⟨⟨before, e₁, after, s₂, rfl, hbefore, hpush, hdepth, hafter⟩, hs₁⟩ := h
  exact ⟨⟨before, e₁, after ++ [e], s₂, by simp, hbefore, hpush, hdepth,
    hafter.snoc ⟨hstep, hd⟩⟩, hs₁⟩

/-- What is saved for a level is the snapshot of the state in which it was left. -/
theorem saved_eq (n : Nesting step) {s₀ s : σ} {es : List ε} (hinv : n.Inv s₀)
    (h : Exec step s₀ es s) {d : Nat} (hlow : n.depth s₀ ≤ d) (hd : d < n.depth s) :
    ∃ s₁, n.LeftAt s₀ es s d s₁ ∧ n.saved s d = n.snapshot s₁ := by
  induction h with
  | nil => omega
  | @snoc es e s s' hexec hstep ih =>
    rcases n.cases (hexec.invariant n.inv_step hinv) hstep with ⟨hpush, hsaved, hkeep⟩ | ⟨hle, hkeep⟩
    · rcases Nat.lt_or_ge d (n.depth s) with hlt | hge
      · obtain ⟨s₁, hleft, heq⟩ := ih hlt
        exact ⟨s₁, hleft.snoc hstep hd, by rw [hkeep d hlt, heq]⟩
      · obtain rfl : d = n.depth s := by omega
        exact ⟨s, ⟨⟨es, e, [], s', rfl, hexec, hstep, hpush, .nil⟩, rfl⟩, hsaved⟩
    · obtain ⟨s₁, hleft, heq⟩ := ih (by omega)
      exact ⟨s₁, hleft.snoc hstep hd, by rw [hkeep d hd, heq]⟩

end Nesting
