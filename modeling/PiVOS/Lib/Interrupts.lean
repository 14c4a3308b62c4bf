-- SUMMARY: A core with one pair of registers to return through, and code that interrupts come between.
import Mathlib.Data.List.Induction
import PiVOS.Lib.Nesting

/-!
# Interrupted code

An exception leaves in two registers where the core was and what it ran as, and a return
goes by them. Code that is interrupted goes on where it was, as what it was, but finds its
own place in the registers. Code that an exception entered is not interrupted at all, unless
it unmasks interrupts itself.
-/

namespace Interrupts

inductive Mode
  | el0t | el1t | el1h
deriving DecidableEq

structure Pstate where
  mode : Mode
  irqMasked : Bool
deriving DecidableEq

/-- A core. A value of `spsr` that no return is legal with is `none`. -/
structure Core (α : Type) where
  pc : α
  pstate : Pstate
  spEl0 : α
  elr : α
  spsr : Option Pstate

/-- The instructions that touch these registers, with what they read or write. -/
inductive Insn (α : Type)
  | mrsDaif (irqMasked : Bool)
  | msrDaif (irqMasked : Bool)
  | mrsSpEl0 (v : α)
  | msrSpEl0 (v : α)
  | mrsElr (v : α)
  | msrElr (v : α)
deriving DecidableEq

/-- One step of a core: any other instruction is `code`. -/
inductive Event (α : Type)
  | code
  | insn (i : Insn α)
  | svc
  | irq
  | eret
deriving DecidableEq

variable {α : Type}

namespace Core

/-- What is read is there. -/
def Reads (s : Core α) : Insn α → Prop
  | .mrsDaif irqMasked => s.pstate.irqMasked = irqMasked
  | .mrsSpEl0 v => s.spEl0 = v
  | .mrsElr v => s.elr = v
  | .msrDaif _ | .msrSpEl0 _ | .msrElr _ => True

def exec (s : Core α) : Insn α → Core α
  | .msrDaif irqMasked => { s with pstate := { s.pstate with irqMasked } }
  | .msrSpEl0 spEl0 => { s with spEl0 }
  | .msrElr elr => { s with elr }
  | .mrsDaif _ | .mrsSpEl0 _ | .mrsElr _ => s

def ReadsAll (s : Core α) : List (Insn α) → Prop
  | [] => True
  | i :: is => s.Reads i ∧ (s.exec i).ReadsAll is

/-- An exception, to EL1 with interrupts masked. -/
def take (s : Core α) (vector : α) : Core α :=
  { s with pc := vector, pstate := ⟨.el1h, true⟩, elr := s.pc, spsr := some s.pstate }

end Core

/-- Where the code goes next is up to the code. -/
inductive Step (vector : α) : Core α → Event α → Core α → Prop
  | code (s : Core α) (pc : α) : Step vector s .code { s with pc }
  | insn {s : Core α} {i : Insn α} (pc : α) (hreads : s.Reads i) :
    Step vector s (.insn i) { s.exec i with pc }
  | svc (s : Core α) : Step vector s .svc (s.take vector)
  | irq {s : Core α} (hunmasked : s.pstate.irqMasked = false) : Step vector s .irq (s.take vector)
  | eret {s : Core α} {pstate : Pstate} (hspsr : s.spsr = some pstate) :
    Step vector s .eret { s with pc := s.elr, pstate }

/-- Code with the instructions `is`, in that order, other code between them, and interrupts
at any place, each with a handler that touches none of these registers. A handler may be
interrupted as well, as far as this goes. -/
inductive Interrupted : List (Insn α) → List (Event α) → Prop
  | nil : Interrupted [] []
  | code {is : List (Insn α)} {es : List (Event α)} (h : Interrupted is es) :
    Interrupted is (es ++ [.code])
  | insn {is : List (Insn α)} {es : List (Event α)} (h : Interrupted is es) (i : Insn α) :
    Interrupted (is ++ [i]) (es ++ [.insn i])
  | irq {is : List (Insn α)} {es handler : List (Event α)} (h : Interrupted is es)
      (hhandler : Interrupted [] handler) :
    Interrupted is (es ++ (.irq :: (handler ++ [.eret])))

end Interrupts

/-! ## Executions in pieces -/

namespace Exec

variable {σ ε : Type} {step : σ → ε → σ → Prop} {s s' : σ} {es es' : List ε} {e : ε}

theorem of_nil (h : Exec step s [] s') : s' = s := by
  obtain ⟨es', hes'⟩ : ∃ es' : List ε, es' = [] := ⟨_, rfl⟩
  rw [← hes'] at h
  cases h with
  | nil => rfl
  | snoc => simp at hes'

theorem append {s'' : σ} (h : Exec step s es s') (h' : Exec step s' es' s'') :
    Exec step s (es ++ es') s'' := by
  induction h' with
  | nil => rwa [List.append_nil]
  | snoc _ hstep ih =>
    rw [← List.append_assoc]
    exact ih.snoc hstep

theorem of_snoc (h : Exec step s (es ++ [e]) s') : ∃ s₁, Exec step s es s₁ ∧ step s₁ e s' := by
  obtain ⟨es', hes'⟩ : ∃ es', es' = es ++ [e] := ⟨_, rfl⟩
  rw [← hes'] at h
  cases h with
  | nil => simp at hes'
  | snoc h hstep =>
    obtain ⟨rfl, heq⟩ := List.append_inj' hes' rfl
    obtain rfl := List.singleton_inj.mp heq
    exact ⟨_, h, hstep⟩

theorem of_append (h : Exec step s (es ++ es') s') :
    ∃ s₁, Exec step s es s₁ ∧ Exec step s₁ es' s' := by
  induction es' using List.reverseRecOn generalizing s' with
  | nil => exact ⟨s', by rwa [List.append_nil] at h, .nil⟩
  | append_singleton es' e ih =>
    rw [← List.append_assoc] at h
    obtain ⟨s₂, h, hstep⟩ := h.of_snoc
    obtain ⟨s₁, h₁, h₂⟩ := ih h
    exact ⟨s₁, h₁, h₂.snoc hstep⟩

theorem of_cons (h : Exec step s (e :: es) s') : ∃ s₁, step s e s₁ ∧ Exec step s₁ es s' := by
  have hsplit : Exec step s ([] ++ [e] ++ es) s' := h
  obtain ⟨s₁, hfirst, hrest⟩ := hsplit.of_append
  obtain ⟨s₀, h₀, hstep⟩ := hfirst.of_snoc
  obtain rfl := h₀.of_nil
  exact ⟨s₁, hstep, hrest⟩

end Exec

/-! ## Interrupted code -/

namespace Interrupts

variable {α : Type} {vector : α} {s s' : Core α} {is : List (Insn α)} {es handler : List (Event α)}

namespace Core

theorem exec_pc (s : Core α) (i : Insn α) (pc : α) : { s with pc }.exec i = { s.exec i with pc } := by
  cases i <;> rfl

theorem exec_mode (s : Core α) (i : Insn α) : (s.exec i).pstate.mode = s.pstate.mode := by
  cases i <;> rfl

theorem exec_spsr (s : Core α) (i : Insn α) : (s.exec i).spsr = s.spsr := by
  cases i <;> rfl

/-- The state after all of `is`. -/
def execAll (s : Core α) (is : List (Insn α)) : Core α := is.foldl exec s

theorem execAll_snoc (s : Core α) (is : List (Insn α)) (i : Insn α) :
    s.execAll (is ++ [i]) = (s.execAll is).exec i := List.foldl_append ..

theorem readsAll_snoc {s : Core α} {is : List (Insn α)} {i : Insn α} :
    s.ReadsAll (is ++ [i]) ↔ s.ReadsAll is ∧ (s.execAll is).Reads i := by
  induction is generalizing s with
  | nil => exact ⟨fun h => ⟨trivial, h.1⟩, fun h => ⟨h.2, trivial⟩⟩
  | cons i' is ih =>
    have hnext := ih (s := s.exec i')
    exact ⟨fun h => ⟨⟨h.1, (hnext.mp h.2).1⟩, (hnext.mp h.2).2⟩,
      fun h => ⟨h.1.1, hnext.mpr ⟨h.1.2, h.2⟩⟩⟩

theorem execAll_mode (s : Core α) (is : List (Insn α)) : (s.execAll is).pstate.mode = s.pstate.mode := by
  induction is using List.reverseRecOn with
  | nil => rfl
  | append_singleton is i ih => rw [execAll_snoc, exec_mode, ih]

theorem execAll_spsr (s : Core α) (is : List (Insn α)) : (s.execAll is).spsr = s.spsr := by
  induction is using List.reverseRecOn with
  | nil => rfl
  | append_singleton is i ih => rw [execAll_snoc, exec_spsr, ih]

end Core

theorem Step.insn_eq {i : Insn α} (h : Step vector s (.insn i) s') : s' = { s.exec i with pc := s'.pc } := by
  cases h with
  | insn pc hreads => rfl

/-- Without interrupts, code does what its instructions do. -/
theorem Interrupted.alone (h : Interrupted is es) (halone : .irq ∉ es)
    (hrun : Exec (Step vector) s es s') : s' = { s.execAll is with pc := s'.pc } := by
  induction h generalizing s' with
  | nil =>
    obtain rfl := hrun.of_nil
    rfl
  | code _ ih =>
    obtain ⟨s₁, hrun, hstep⟩ := hrun.of_snoc
    have h₁ := ih (fun hmem => halone (List.mem_append_left _ hmem)) hrun
    cases hstep with
    | code pc => rw [h₁]
  | insn _ i ih =>
    obtain ⟨s₁, hrun, hstep⟩ := hrun.of_snoc
    have h₁ := ih (fun hmem => halone (List.mem_append_left _ hmem)) hrun
    rw [hstep.insn_eq, h₁, Core.exec_pc, Core.execAll_snoc]
  | irq => exact absurd (List.mem_append_right _ (List.mem_cons_self ..)) halone

theorem Interrupted.reads (h : Interrupted is es) (halone : .irq ∉ es)
    (hrun : Exec (Step vector) s es s') : s.ReadsAll is := by
  induction h generalizing s' with
  | nil => trivial
  | code _ ih =>
    obtain ⟨s₁, hrun, -⟩ := hrun.of_snoc
    exact ih (fun hmem => halone (List.mem_append_left _ hmem)) hrun
  | insn h i ih =>
    obtain ⟨s₁, hrun, hstep⟩ := hrun.of_snoc
    have halone₁ := fun hmem : Event.irq ∈ _ => halone (List.mem_append_left _ hmem)
    have h₁ := h.alone halone₁ hrun
    refine Core.readsAll_snoc.mpr ⟨ih halone₁ hrun, ?_⟩
    cases hstep with
    | insn pc hreads =>
      rw [h₁] at hreads
      cases i <;> exact hreads
  | irq => exact absurd (List.mem_append_right _ (List.mem_cons_self ..)) halone

/-- With interrupts masked, and code that leaves them so, there are none. -/
theorem Interrupted.masked (h : Interrupted is es) (hkeeps : .msrDaif false ∉ is)
    (hmasked : s.pstate.irqMasked = true) (hrun : Exec (Step vector) s es s') :
    .irq ∉ es ∧ s'.pstate.irqMasked = true := by
  induction h generalizing s' with
  | nil =>
    obtain rfl := hrun.of_nil
    exact ⟨List.not_mem_nil, hmasked⟩
  | code _ ih =>
    obtain ⟨s₁, hrun, hstep⟩ := hrun.of_snoc
    obtain ⟨hnone, hmasked₁⟩ := ih hkeeps hrun
    cases hstep with
    | code pc => exact ⟨by simpa using hnone, hmasked₁⟩
  | insn _ i ih =>
    obtain ⟨s₁, hrun, hstep⟩ := hrun.of_snoc
    obtain ⟨hnone, hmasked₁⟩ := ih (fun hmem => hkeeps (List.mem_append_left _ hmem)) hrun
    refine ⟨by simpa using hnone, ?_⟩
    rw [hstep.insn_eq]
    cases i with
    | msrDaif irqMasked =>
      cases irqMasked with
      | true => rfl
      | false => exact absurd (List.mem_append_right _ (List.mem_singleton_self _)) hkeeps
    | mrsDaif | mrsSpEl0 | msrSpEl0 | mrsElr | msrElr => exact hmasked₁
  | irq _ _ ih _ =>
    obtain ⟨s₁, hrun, hhandler⟩ := hrun.of_append
    obtain ⟨-, hmasked₁⟩ := ih hkeeps hrun
    obtain ⟨s₂, htake, -⟩ := hhandler.of_cons
    cases htake with
    | irq hunmasked => exact absurd (hmasked₁.symm.trans hunmasked) (by decide)

/-- An interrupt comes back to where it was, and leaves that in the two registers. -/
theorem Interrupted.served (h : Interrupted [] handler)
    (hrun : Exec (Step vector) s (.irq :: (handler ++ [.eret])) s') :
    .irq ∉ handler ∧ s.pstate.irqMasked = false ∧
      s' = { s with elr := s.pc, spsr := some s.pstate } := by
  obtain ⟨s₁, htake, hrun⟩ := hrun.of_cons
  obtain ⟨s₂, hrun, hreturn⟩ := hrun.of_snoc
  cases htake with
  | irq hunmasked =>
    obtain ⟨hnone, -⟩ := h.masked List.not_mem_nil rfl hrun
    have h₂ := h.alone hnone hrun
    cases hreturn with
    | eret hspsr =>
      rw [h₂] at hspsr ⊢
      obtain rfl := Option.some.inj hspsr
      exact ⟨hnone, hunmasked, rfl⟩

/-- A system call is not interrupted, and returns to the caller's mode and to where its
instructions say. -/
theorem Interrupted.call (h : Interrupted is es) (hkeeps : .msrDaif false ∉ is)
    (hrun : Exec (Step vector) s (.svc :: (es ++ [.eret])) s') :
    .irq ∉ es ∧ (s.take vector).ReadsAll is ∧
      s' = { (s.take vector).execAll is with
        pc := ((s.take vector).execAll is).elr, pstate := s.pstate } := by
  obtain ⟨s₁, htake, hrun⟩ := hrun.of_cons
  obtain ⟨s₂, hrun, hreturn⟩ := hrun.of_snoc
  cases htake with
  | svc =>
    obtain ⟨hnone, -⟩ := h.masked hkeeps rfl hrun
    have hspsr₁ := Core.execAll_spsr (s.take vector) is
    refine ⟨hnone, h.reads hnone hrun, ?_⟩
    have h₂ := h.alone hnone hrun
    cases hreturn with
    | eret hspsr =>
      rw [h₂] at hspsr ⊢
      obtain rfl := Option.some.inj (hspsr₁.symm.trans hspsr)
      rfl

/-- What interrupts do not touch. -/
theorem Interrupted.kept (h : Interrupted is es) (hrun : Exec (Step vector) s es s') :
    s'.pstate = (s.execAll is).pstate ∧ s'.spEl0 = (s.execAll is).spEl0 := by
  induction h generalizing s' with
  | nil =>
    obtain rfl := hrun.of_nil
    exact ⟨rfl, rfl⟩
  | code _ ih =>
    obtain ⟨s₁, hrun₁, hstep⟩ := hrun.of_snoc
    have h₁ := ih hrun₁
    cases hstep with
    | code pc => exact h₁
  | insn _ i ih =>
    obtain ⟨s₁, hrun₁, hstep⟩ := hrun.of_snoc
    obtain ⟨hpstate, hspEl0⟩ := ih hrun₁
    rw [hstep.insn_eq, Core.execAll_snoc]
    cases i with
    | msrDaif irqMasked => exact ⟨by simp only [Core.exec, hpstate], hspEl0⟩
    | msrSpEl0 v => exact ⟨hpstate, rfl⟩
    | mrsDaif | mrsSpEl0 | mrsElr | msrElr => exact ⟨hpstate, hspEl0⟩
  | irq _ hhandler ih _ =>
    obtain ⟨s₁, hrun₁, hserve⟩ := hrun.of_append
    have h₁ := ih hrun₁
    obtain ⟨-, -, rfl⟩ := hhandler.served hserve
    exact h₁

/-- What the last interrupt leaves: a return goes to the mode of the code itself. -/
theorem Interrupted.spsr (h : Interrupted is es) (hrun : Exec (Step vector) s es s') (hirq : .irq ∈ es) :
    s'.spsr = some ⟨s.pstate.mode, false⟩ := by
  induction h generalizing s' with
  | nil => exact absurd hirq List.not_mem_nil
  | code _ ih =>
    obtain ⟨s₁, hrun₁, hstep⟩ := hrun.of_snoc
    have h₁ := ih hrun₁ ((List.mem_append.mp hirq).resolve_right (by simp))
    cases hstep with
    | code pc => exact h₁
  | insn _ i ih =>
    obtain ⟨s₁, hrun₁, hstep⟩ := hrun.of_snoc
    have h₁ := ih hrun₁ ((List.mem_append.mp hirq).resolve_right (by simp))
    rw [hstep.insn_eq]
    exact (Core.exec_spsr s₁ i).trans h₁
  | irq h hhandler ih _ =>
    obtain ⟨s₁, hrun₁, hserve⟩ := hrun.of_append
    obtain ⟨-, hunmasked, rfl⟩ := hhandler.served hserve
    obtain ⟨hpstate, -⟩ := h.kept hrun₁
    have hmode : s₁.pstate.mode = s.pstate.mode := by rw [hpstate, Core.execAll_mode]
    exact congrArg some (congr (congrArg Pstate.mk hmode) hunmasked)

/-- An interrupt leaves where it came, and code that does not write `elr` leaves it there. -/
theorem Interrupted.elr (h : Interrupted is es) (hkeeps : ∀ v, .msrElr v ∉ is)
    (hrun : Exec (Step vector) s es s') (hirq : .irq ∈ es) : ∃ before after s₁,
      es = before ++ .irq :: after ∧ Exec (Step vector) s before s₁ ∧ s'.elr = s₁.pc := by
  induction h generalizing s' with
  | nil => exact absurd hirq List.not_mem_nil
  | code _ ih =>
    obtain ⟨s₁, hrun₁, hstep⟩ := hrun.of_snoc
    obtain ⟨before, after, s₂, rfl, hbefore, helr⟩ :=
      ih hkeeps hrun₁ ((List.mem_append.mp hirq).resolve_right (by simp))
    cases hstep with
    | code pc => exact ⟨before, after ++ [.code], s₂, by simp, hbefore, helr⟩
  | insn _ i ih =>
    obtain ⟨s₁, hrun₁, hstep⟩ := hrun.of_snoc
    obtain ⟨before, after, s₂, rfl, hbefore, helr⟩ :=
      ih (fun v hmem => hkeeps v (List.mem_append_left _ hmem)) hrun₁
        ((List.mem_append.mp hirq).resolve_right (by simp))
    refine ⟨before, after ++ [.insn i], s₂, by simp, hbefore, ?_⟩
    rw [hstep.insn_eq]
    cases i with
    | msrElr v => exact absurd (List.mem_append_right _ (List.mem_singleton_self _)) (hkeeps v)
    | mrsDaif | msrDaif | mrsSpEl0 | msrSpEl0 | mrsElr => exact helr
  | @irq is es handler h hhandler _ _ =>
    obtain ⟨s₁, hrun₁, hserve⟩ := hrun.of_append
    obtain ⟨-, -, rfl⟩ := hhandler.served hserve
    exact ⟨es, handler ++ [.eret], s₁, rfl, hrun₁, rfl⟩

end Interrupts
