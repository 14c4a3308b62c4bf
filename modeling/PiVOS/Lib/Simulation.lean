-- SUMMARY: Sequences of calls with results, and the simulation rule for two systems that take the same calls.
import Mathlib.Data.List.Basic

/-!
# Calls and simulation

A system that answers calls is a function from a call and a state to a result and
a state. If related states give equal results and related states for every call,
two systems cannot be told apart by any sequence of calls.
-/

/-- The results of a sequence of calls, in order, and the state it ends in. -/
def runCalls {ι σ ρ : Type} (call : ι → σ → ρ × σ) : List ι → σ → List ρ × σ
  | [], s => ([], s)
  | c :: cs, s =>
    let (result, s) := call c s
    let (results, s) := runCalls call cs s
    (result :: results, s)

namespace Simulation

variable {ι σ τ ρ : Type} {call : ι → σ → ρ × σ} {call' : ι → τ → ρ × τ}

theorem runCalls_nil (s : σ) : runCalls call [] s = ([], s) := rfl

theorem runCalls_cons (c : ι) (cs : List ι) (s : σ) :
    runCalls call (c :: cs) s =
      ((call c s).1 :: (runCalls call cs (call c s).2).1, (runCalls call cs (call c s).2).2) := rfl

theorem runCalls_append (cs cs' : List ι) (s : σ) :
    runCalls call (cs ++ cs') s =
      ((runCalls call cs s).1 ++ (runCalls call cs' (runCalls call cs s).2).1,
        (runCalls call cs' (runCalls call cs s).2).2) := by
  induction cs generalizing s with
  | nil => rfl
  | cons c cs ih => simp only [List.cons_append, runCalls_cons, ih]

/-- The simulation rule. -/
theorem simulates {R : σ → τ → Prop}
    (hcall : ∀ c s t, R s t → (call c s).1 = (call' c t).1 ∧ R (call c s).2 (call' c t).2)
    (cs : List ι) {s : σ} {t : τ} (h : R s t) :
    (runCalls call cs s).1 = (runCalls call' cs t).1 ∧
      R (runCalls call cs s).2 (runCalls call' cs t).2 := by
  induction cs generalizing s t with
  | nil => exact ⟨rfl, h⟩
  | cons c cs ih =>
    obtain ⟨hresult, hnext⟩ := hcall c s t h
    obtain ⟨hresults, hend⟩ := ih hnext
    simp only [runCalls_cons]
    exact ⟨by rw [hresult, hresults], hend⟩

end Simulation
