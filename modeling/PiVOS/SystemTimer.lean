-- SUMMARY: When the timer of a running system raises its interrupt.
import PiVOS.SystemRuns

/-!
# The timer of a running system

The handler resets the timer, so that the timer raises its interrupt again a period later,
unless the bit that masks it was set in the word the reset took from the stack. Then the
interrupt does not come, and nothing else resets the timer.
-/

namespace PiVOS
namespace System

variable {M : Type} {b : Board} {ops : MemoryOps M} {progs : KprocProgTab}

/-- What the timer is reset with, if the event resets it. -/
def Event.timerReset : Event M → Option TimerInputs
  | .exception inputs type _ _ _ =>
    if IsIrq type ∧ Gic.interruptId inputs.gic.iar = 30 then some inputs.timer else none
  | _ => none

/-- The time an event takes, as far as it counts. -/
def Event.ticks : Event M → Nat
  | .time n => n
  | _ => 0

/-- The interrupt of the timer is taken only while the timer raises it. -/
def Genuine (s : System M) (e : Event M) : Prop := e.timerReset.isSome → s.timer.asserted = true

/-- The resets of a run, from the one of the setup on. -/
def resets (first : TimerInputs) (es : List (Event M)) : List TimerInputs :=
  first :: es.filterMap Event.timerReset

def lastReset (first : TimerInputs) (es : List (Event M)) : TimerInputs :=
  es.foldl (fun last e => e.timerReset.getD last) first

/-- The time since the last reset. -/
def sinceReset (es : List (Event M)) : Nat :=
  es.foldl (fun n e => if e.timerReset.isSome then 0 else n + e.ticks) 0

/-- The word a reset took from the stack masks the interrupt. -/
def Masks (inputs : TimerInputs) : Prop := inputs.ctl.getLsbD 1 = true

section Append

variable (first : TimerInputs) (es : List (Event M)) (e : Event M)

theorem lastReset_snoc : lastReset first (es ++ [e]) = e.timerReset.getD (lastReset first es) := by
  rw [lastReset, List.foldl_append]
  rfl

theorem sinceReset_snoc : sinceReset (es ++ [e]) =
    if e.timerReset.isSome then 0 else sinceReset es + e.ticks := by
  rw [sinceReset, List.foldl_append]
  rfl

theorem resets_snoc : resets first (es ++ [e]) = resets first es ++ e.timerReset.toList := by
  rw [resets, List.filterMap_append, resets, List.cons_append]
  congr 2

end Append

/-- The timer after the events `es`. -/
structure TimerAt (first : TimerInputs) (es : List (Event M)) (t : GenericTimer) : Prop where
  enable : t.enable = true
  interval : t.interval = 4
  compare : t.compare + sinceReset es =
    t.count + (GenericTimer.period (lastReset first es).cntfrq 4).toInt
  imask : t.imask = true ↔ ∃ inputs ∈ resets first es, Masks inputs

theorem TimerAt.asserted_iff {first : TimerInputs} {es : List (Event M)} {t : GenericTimer}
    (h : TimerAt first es t) : t.asserted = true ↔
      (GenericTimer.period (lastReset first es).cntfrq 4).toInt ≤ sinceReset es ∧
        ∀ inputs ∈ resets first es, ¬Masks inputs := by
  have hcompare := h.compare
  have hdue : t.compare ≤ t.count ↔
      (GenericTimer.period (lastReset first es).cntfrq 4).toInt ≤ sinceReset es := by omega
  have hmask : t.imask = false ↔ ∀ inputs ∈ resets first es, ¬Masks inputs := by
    rw [← Bool.not_eq_true, h.imask]
    simp only [not_exists, not_and]
  rw [GenericTimer.asserted, h.enable, Bool.true_and, Bool.and_eq_true, Bool.not_eq_true',
    decide_eq_true_iff, hmask, hdue, and_comm]

section Steps

variable {tables : Tables M} {s₀ s₁ s s' : System M} {kdevs₀ : Kdevs (Kernel M)}
  {kcalls₀ : Kcalls (Kernel M)} (hdevs₀ : kdevs₀.Lists (Kernel.devices b ops))
  (hcalls₀ : kcalls₀.Lists (Kernel.calls ops progs kdevs₀))
  (hpower : PowerOn b s₀) (hsetup : SetUp b ops progs s₀ tables s₁)

include hdevs₀ hcalls₀ hpower hsetup

/-- The only steps that touch the timer are its interrupt and the passing of time. -/
theorem Running.timer {e : Event M} (h : Running b ops progs kcalls₀ s₁.gic s)
    (hstep : Step b tables s e s') : s'.timer =
      match e.timerReset with
      | some inputs => s.timer.reset inputs
      | none => s.timer.tick e.ticks := by
  cases hstep with
  | program memory spEl0 elrEl1 => rfl
  | uart m => rfl
  | time n => rfl
  | @exception _ inputs type esr rs rs' htype hown hrun =>
    obtain ⟨hirq, -, hserves⟩ | ⟨hsync, kernel, -, rfl⟩ | ⟨hirq, -, -, rfl⟩ :=
      h.exception_cases hdevs₀ hcalls₀ hsetup hpower.zero hpower.active hrun
    · simp only [Event.timerReset, hirq, true_and]
      unfold boundDevice at hserves
      by_cases hid : Gic.interruptId inputs.gic.iar = 30
      · rw [if_pos hid] at hserves
        rw [if_pos hid]
        cases hserves with
        | timer => rfl
      · rw [if_neg hid] at hserves
        rw [if_neg hid]
        split at hserves
        · cases hserves with
          | uart => rfl
        · cases hserves with
          | gic => rfl
    · have hnot : ¬IsIrq type := by rw [hsync]; decide
      simp only [Event.timerReset, hnot, false_and, if_false]
      rfl
    · simp only [Event.timerReset, hirq, false_and, if_false]
      rfl

end Steps

/-- An event keeps the record; a reset that is genuine follows resets that masked nothing. -/
theorem TimerAt.step {first : TimerInputs} {es : List (Event M)} {e : Event M} {t t' : GenericTimer}
    (h : TimerAt first es t) (hgenuine : e.timerReset.isSome → t.asserted = true)
    (ht' : t' = match e.timerReset with
      | some inputs => t.reset inputs
      | none => t.tick e.ticks) : TimerAt first (es ++ [e]) t' := by
  subst ht'
  cases hreset : e.timerReset with
  | none =>
    refine ⟨h.enable, h.interval, ?_, ?_⟩
    · rw [sinceReset_snoc, lastReset_snoc, hreset]
      simp only [Option.isSome_none, Bool.false_eq_true, if_false, Option.getD_none, GenericTimer.tick]
      have hcompare := h.compare
      omega
    · rw [resets_snoc, hreset]
      simpa [GenericTimer.tick] using h.imask
  | some inputs =>
    have hclear : ¬t.imask = true := by
      have hasserted := hgenuine (by rw [hreset]; rfl)
      rw [h.imask]
      rintro ⟨inputs, hmem, hmasks⟩
      exact (h.asserted_iff.mp hasserted).2 inputs hmem hmasks
    simp only [GenericTimer.reset_eq]
    refine ⟨rfl, h.interval, ?_, ?_⟩
    · rw [sinceReset_snoc, lastReset_snoc, hreset]
      simp [h.interval]
    · rw [resets_snoc, hreset]
      constructor
      · intro hmask
        exact ⟨inputs, List.mem_append_right _ (List.mem_singleton_self inputs), hmask⟩
      · rintro ⟨inputs', hmem, hmasks⟩
        rcases List.mem_append.mp hmem with hmem | hmem
        · exact absurd (h.imask.mpr ⟨inputs', hmem, hmasks⟩) hclear
        · obtain rfl := List.mem_singleton.mp hmem
          exact hmasks

theorem SetUp.timerAt {tables : Tables M} {s₀ s₁ : System M} (h : SetUp b ops progs s₀ tables s₁) :
    TimerAt s₀.inputs.timer ([] : List (Event M)) s₁.timer := by
  rw [h.timer, GenericTimer.init, GenericTimer.reset_eq]
  refine ⟨rfl, rfl, ?_, ?_⟩
  · simp [GenericTimer.kdevSetAction, sinceReset, lastReset]
  · simp [GenericTimer.kdevSetAction, resets, Masks]

/-- At a frequency below `2 ^ 29` the period does not overflow. -/
theorem period_of_lt {freq : BitVec 32} (h : freq.toNat < 2 ^ 29) :
    (GenericTimer.period freq 4).toInt = 4 * freq.toNat := by
  have hperiod : (GenericTimer.period freq 4).toNat = 4 * freq.toNat := by
    rw [GenericTimer.period, BitVec.toNat_mul]
    change freq.toNat * 4 % 2 ^ 32 = 4 * freq.toNat
    omega
  rw [BitVec.toInt_eq_toNat_of_lt (by omega), hperiod]
  rfl

/-- Waiting for a period is enough. -/
theorem TimerAt.asserted_tick {first : TimerInputs} {es : List (Event M)} {t : GenericTimer}
    (h : TimerAt first es t) (hclear : ∀ inputs ∈ resets first es, ¬Masks inputs)
    (hfreq : (lastReset first es).cntfrq.toNat < 2 ^ 29) {n : Nat}
    (hn : 4 * (lastReset first es).cntfrq.toNat ≤ n) : (t.tick n).asserted = true := by
  have hlater : TimerAt first (es ++ [.time n]) (t.tick n) := h.step (fun hreset => nomatch hreset) rfl
  rw [hlater.asserted_iff, lastReset_snoc, sinceReset_snoc, resets_snoc]
  simp only [Event.timerReset, Option.getD_none, Option.isSome_none, Bool.false_eq_true, if_false,
    Option.toList_none, List.append_nil, Event.ticks]
  refine ⟨?_, hclear⟩
  rw [period_of_lt hfreq]
  omega

/-- In every state that a system set up from `s₀` reaches, the timer raises its interrupt
just when its period has passed since it was last reset, and no reset so far, the one of
the setup included, has found the mask set in the uninitialized word it started from. Once
one has, the interrupt never comes again; until then it comes within four seconds. -/
theorem timer_asserted_iff (b : Board) (ops : MemoryOps M) (progs : KprocProgTab) {s₀ : System M}
    (hpower : PowerOn b s₀) :
    ∃ tables s₁, kernelMain b ops progs s₀ = some (tables, s₁) ∧
      ∀ es s, Exec (fun s e s' => Step b tables s e s' ∧ Genuine s e) s₁ es s →
        (s.timer.asserted = true ↔
          (GenericTimer.period (lastReset s₀.inputs.timer es).cntfrq 4).toInt ≤ sinceReset es ∧
            ∀ inputs ∈ resets s₀.inputs.timer es, ¬Masks inputs) ∧
        ((∀ inputs ∈ resets s₀.inputs.timer es, ¬Masks inputs) →
          (lastReset s₀.inputs.timer es).cntfrq.toNat < 2 ^ 29 →
          ∀ n, 4 * (lastReset s₀.inputs.timer es).cntfrq.toNat ≤ n → (s.timer.tick n).asserted = true) := by
  obtain ⟨tables, s₁, hmain, hsetup⟩ := kernelMain_spec b ops progs hpower.capacity hpower.empty
  obtain ⟨kdevs₀, -, hdevs₀⟩ := Kernel.setupDevices_lists b ops
  obtain ⟨kcalls₀, -, hcalls₀⟩ := Kernel.setupSyscalls_lists ops progs kdevs₀
  refine ⟨tables, s₁, hmain, fun es s hrun => ?_⟩
  have hboth : Running b ops progs kcalls₀ s₁.gic s ∧ TimerAt s₀.inputs.timer es s.timer := by
    induction hrun with
    | nil => exact ⟨hsetup.running hpower kcalls₀, hsetup.timerAt⟩
    | snoc _ hstep ih =>
      obtain ⟨hrunning, htimer⟩ := ih
      exact ⟨hrunning.step hdevs₀ hcalls₀ hsetup hpower.zero hpower.active hstep.1,
        htimer.step hstep.2 (hrunning.timer hdevs₀ hcalls₀ hpower hsetup hstep.1)⟩
  exact ⟨hboth.2.asserted_iff, fun hclear hfreq n hn => hboth.2.asserted_tick hclear hfreq hn⟩

theorem timer_asserted_iff_resetSystem :
    ∃ tables s₁,
      kernelMain UartSession.slowBoard Machine.oneTable Machine.noText resetSystem = some (tables, s₁) ∧
      ∀ es s, Exec (fun s e s' => Step UartSession.slowBoard tables s e s' ∧ Genuine s e) s₁ es s →
        (s.timer.asserted = true ↔
          (GenericTimer.period (lastReset resetSystem.inputs.timer es).cntfrq 4).toInt ≤ sinceReset es ∧
            ∀ inputs ∈ resets resetSystem.inputs.timer es, ¬Masks inputs) ∧
        ((∀ inputs ∈ resets resetSystem.inputs.timer es, ¬Masks inputs) →
          (lastReset resetSystem.inputs.timer es).cntfrq.toNat < 2 ^ 29 →
          ∀ n, 4 * (lastReset resetSystem.inputs.timer es).cntfrq.toNat ≤ n →
            (s.timer.tick n).asserted = true) :=
  timer_asserted_iff UartSession.slowBoard Machine.oneTable Machine.noText resetSystem_powerOn

end System
end PiVOS
