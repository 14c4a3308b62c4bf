-- SUMMARY: Bounded execution of loops, with the invariant and variant rules for it.
import Mathlib.Data.Nat.Bitwise

/-!
# While loops

`loopWhile cond body n s` runs `while (cond) body` from `s` for at most `n`
rounds. A loop has ended once its condition is false in the state reached; a
bound that is too small shows as a state in which the condition still holds, so
termination is a property of its own and never part of the definition.
`untilReturn round n s` does the same for `while (1)` loops left by `return`, and
`forRange body n first s` is a loop over `n` consecutive numbers. `forWidth width n body rounds s`
is such a loop from 0 with a counter of `width` bits, which never gets to some bounds.
-/

/-- The state after at most `n` rounds of `while (cond) body`. -/
def loopWhile {σ : Type} (cond : σ → Bool) (body : σ → σ) : Nat → σ → σ
  | 0, s => s
  | n + 1, s => if cond s then loopWhile cond body n (body s) else s

/-- `while (1)` with `return`s in its body: a round goes on in a new state or
returns a value; `none` when none of the first `n` rounds returns. -/
def untilReturn {σ ρ : Type} (round : σ → σ ⊕ (ρ × σ)) : Nat → σ → Option (ρ × σ)
  | 0, _ => none
  | n + 1, s =>
    match round s with
    | .inl s => untilReturn round n s
    | .inr result => some result

/-- `for (i = first; i < first + n; i++) body`. -/
def forRange {σ : Type} (body : Nat → σ → σ) : (n first : Nat) → σ → σ
  | 0, _, s => s
  | n + 1, first, s => forRange body n (first + 1) (body first s)

/-- `for (i = 0; i < n; i++) body` with a counter of `width` bits: the counter and the state
after at most `rounds` rounds. -/
def forWidth {σ : Type} (width n : Nat) (body : Nat → σ → σ) (rounds : Nat) (s : σ) : Nat × σ :=
  loopWhile (fun c => decide (c.1 < n)) (fun c => ((c.1 + 1) % 2 ^ width, body c.1 c.2)) rounds (0, s)

namespace Loop

variable {σ : Type} {cond : σ → Bool} {body : σ → σ}

@[simp] theorem loopWhile_zero (s : σ) : loopWhile cond body 0 s = s := rfl

theorem loopWhile_succ_of_true {s : σ} (n : Nat) (h : cond s = true) :
    loopWhile cond body (n + 1) s = loopWhile cond body n (body s) := by
  simp [loopWhile, h]

theorem loopWhile_of_false {s : σ} (n : Nat) (h : cond s = false) :
    loopWhile cond body n s = s := by
  cases n with
  | zero => rfl
  | succ n => simp [loopWhile, h]

/-- Running `m + n` rounds is running `m` rounds and then `n` more. -/
theorem loopWhile_add (m n : Nat) (s : σ) :
    loopWhile cond body (m + n) s = loopWhile cond body n (loopWhile cond body m s) := by
  induction m generalizing s with
  | zero => simp
  | succ m ih =>
    rw [Nat.add_right_comm]
    cases h : cond s with
    | true => rw [loopWhile_succ_of_true _ h, loopWhile_succ_of_true _ h, ih]
    | false => simp only [loopWhile_of_false _ h]

/-- The last of `n + 1` rounds, while the loop is still going on. -/
theorem loopWhile_succ_last {s : σ} {n : Nat} (h : cond (loopWhile cond body n s) = true) :
    loopWhile cond body (n + 1) s = body (loopWhile cond body n s) := by
  rw [loopWhile_add, loopWhile_succ_of_true _ h, loopWhile_zero]

/-- More rounds change nothing once the loop has ended. -/
theorem loopWhile_stable {s : σ} {m n : Nat} (hmn : m ≤ n)
    (h : cond (loopWhile cond body m s) = false) :
    loopWhile cond body n s = loopWhile cond body m s := by
  obtain ⟨k, rfl⟩ := Nat.exists_eq_add_of_le hmn
  rw [loopWhile_add, loopWhile_of_false k h]

/-- The invariant rule: what every round preserves holds after any number of rounds. -/
theorem invariant {I : σ → Prop} {s : σ} (hstep : ∀ s, I s → cond s = true → I (body s))
    (h : I s) (n : Nat) : I (loopWhile cond body n s) := by
  induction n generalizing s with
  | zero => exact h
  | succ n ih =>
    cases hc : cond s with
    | true => rw [loopWhile_succ_of_true _ hc]; exact ih (hstep s h hc)
    | false => rw [loopWhile_of_false _ hc]; exact h

/-- The variant rule: a loop whose variant decreases under the invariant has
ended after as many rounds as the variant counts, and the invariant still holds. -/
theorem variant (cond : σ → Bool) (body : σ → σ) (I : σ → Prop) (μ : σ → Nat) {s : σ}
    (hstep : ∀ s, I s → cond s = true → I (body s) ∧ μ (body s) < μ s)
    (h : I s) {n : Nat} (hn : μ s ≤ n) :
    I (loopWhile cond body n s) ∧ cond (loopWhile cond body n s) = false := by
  induction n generalizing s with
  | zero =>
    cases hc : cond s with
    | true => have := (hstep s h hc).2; omega
    | false => exact ⟨h, hc⟩
  | succ n ih =>
    cases hc : cond s with
    | true =>
      obtain ⟨hI, hμ⟩ := hstep s h hc
      rw [loopWhile_succ_of_true _ hc]
      exact ih hI (by omega)
    | false => rw [loopWhile_of_false _ hc]; exact ⟨h, hc⟩

/-- The rule for a loop left by `return`: rounds that go on keep the invariant
and lower the variant, and what a returning round establishes is the result. -/
theorem untilReturn_total {ρ : Type} {round : σ → σ ⊕ (ρ × σ)} {I : σ → Prop}
    {Q : ρ × σ → Prop} (μ : σ → Nat) {s : σ}
    (hstep : ∀ s, I s → (∃ s', round s = .inl s' ∧ I s' ∧ μ s' < μ s) ∨
      ∃ result, round s = .inr result ∧ Q result)
    (h : I s) {n : Nat} (hn : μ s < n) :
    ∃ result, untilReturn round n s = some result ∧ Q result := by
  induction n generalizing s with
  | zero => omega
  | succ n ih =>
    rcases hstep s h with ⟨s', hround, hI, hμ⟩ | ⟨result, hround, hQ⟩
    · obtain ⟨result, hrun, hQ⟩ := ih hI (by omega)
      exact ⟨result, by simp only [untilReturn, hround, hrun], hQ⟩
    · exact ⟨result, by simp only [untilReturn, hround], hQ⟩

/-- When such a loop is known to end, what its last round makes of the invariant holds. -/
theorem untilReturn_post {ρ : Type} {round : σ → σ ⊕ (ρ × σ)} {I Q : σ → Prop} {s : σ}
    (hstep : ∀ s, I s → (∀ s', round s = .inl s' → I s') ∧ ∀ r s', round s = .inr (r, s') → Q s')
    (h : I s) {n : Nat} {r : ρ} {s' : σ} (hrun : untilReturn round n s = some (r, s')) : Q s' := by
  induction n generalizing s with
  | zero => cases hrun
  | succ n ih =>
    rw [untilReturn] at hrun
    cases hround : round s with
    | inl s₁ =>
      rw [hround] at hrun
      exact ih ((hstep s h).1 s₁ hround) hrun
    | inr result =>
      rw [hround] at hrun
      obtain rfl := Option.some.inj hrun
      exact (hstep s h).2 r s' hround

/-- The invariant rule. -/
theorem untilReturn_invariant {ρ : Type} {round : σ → σ ⊕ (ρ × σ)} {I : σ → Prop} {s : σ}
    (hstep : ∀ s, I s → (∀ s', round s = .inl s' → I s') ∧ ∀ r s', round s = .inr (r, s') → I s')
    (h : I s) {n : Nat} {r : ρ} {s' : σ} (hrun : untilReturn round n s = some (r, s')) : I s' :=
  untilReturn_post hstep h hrun

/-- The last of `n + 1` rounds of a counted loop. -/
theorem forRange_succ_last (body : Nat → σ → σ) (n first : Nat) (s : σ) :
    forRange body (n + 1) first s = body (first + n) (forRange body n first s) := by
  induction n generalizing first s with
  | zero => rfl
  | succ n ih =>
    rw [forRange, ih, forRange, Nat.succ_add_eq_add_succ]

/-- The rule for counted loops: what holds before round `i` and is carried to
round `i + 1` by every round holds at the end. -/
theorem forRange_invariant {f : Nat → σ → σ} {I : Nat → σ → Prop} {n k : Nat} {s : σ}
    (hstep : ∀ i s, k ≤ i → i < k + n → I i s → I (i + 1) (f i s)) (h : I k s) :
    I (k + n) (forRange f n k s) := by
  induction n generalizing k s with
  | zero => exact h
  | succ n ih =>
    rw [Nat.add_succ, ← Nat.succ_add]
    refine ih (fun i s hlo hhi => ?_) (hstep k s (Nat.le_refl _) (by omega) h)
    exact hstep i s (by omega) (by omega)

section Width

variable {f : Nat → σ → σ} {width n : Nat} {s : σ}

theorem forWidth_of_le (hlt : n < 2 ^ width) {k : Nat} (hk : k ≤ n) :
    forWidth width n f k s = (k, forRange f k 0 s) := by
  induction k with
  | zero => rfl
  | succ k ih =>
    have hround := ih (Nat.le_of_succ_le hk)
    rw [forWidth] at hround
    rw [forWidth, loopWhile_succ_last (by rw [hround]; exact decide_eq_true hk), hround, forRange_succ_last,
      Nat.zero_add]
    simp only [Nat.mod_eq_of_lt (Nat.lt_of_le_of_lt hk hlt)]

/-- A bound the counter can hold is reached. -/
theorem forWidth_of_lt (hlt : n < 2 ^ width) {rounds : Nat} (hrounds : n ≤ rounds) :
    forWidth width n f rounds s = (n, forRange f n 0 s) := by
  have hend : forWidth width n f n s = (n, forRange f n 0 s) := forWidth_of_le hlt (Nat.le_refl n)
  rw [forWidth] at hend ⊢
  rw [loopWhile_stable hrounds (by rw [hend]; exact decide_eq_false (Nat.lt_irrefl n)), hend]

/-- With any other the loop goes on for ever. -/
theorem forWidth_lt (hle : 2 ^ width ≤ n) (rounds : Nat) : (forWidth width n f rounds s).1 < n :=
  invariant (I := fun c : Nat × σ => c.1 < n)
    (fun _ _ _ => Nat.lt_of_lt_of_le (Nat.mod_lt _ (Nat.two_pow_pos width)) hle)
    (Nat.lt_of_lt_of_le (Nat.two_pow_pos width) hle) rounds

theorem forWidth_ended_iff : (∃ rounds, ¬(forWidth width n f rounds s).1 < n) ↔ n < 2 ^ width := by
  constructor
  · rintro ⟨rounds, hended⟩
    exact Nat.lt_of_not_le fun hle => hended (forWidth_lt hle rounds)
  · intro hlt
    refine ⟨n, ?_⟩
    rw [forWidth_of_lt hlt (Nat.le_refl n)]
    exact Nat.lt_irrefl n

end Width

end Loop
