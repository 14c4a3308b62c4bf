-- SUMMARY: The interrupt dispatch table of `int.c`, and which exceptions of a program run a kernel call.
import PiVOS.CallTables

/-!
# Exceptions

Every entry of the vector table saves the registers and calls the function that the
dispatch table holds for it, with the frame and `ESR_EL1`. One entry takes all
synchronous exceptions of programs, system calls and faults alike.
-/

namespace PiVOS

/-- `enum int_type`. -/
inductive IntType
  | curElSp0Sync | curElSp0Irq | curElSp0Fiq | curElSp0Serror
  | curElSpnSync | curElSpnIrq | curElSpnFiq | curElSpnSerror
  | lowElAarch64Sync | lowElAarch64Irq | lowElAarch64Fiq | lowElAarch64Serror
  | lowElAarch32Sync | lowElAarch32Irq | lowElAarch32Fiq | lowElAarch32Serror
deriving DecidableEq

abbrev IntDispatchFn (S : Type) := Frame → (esr : Nat) → S → Option (Frame × S)

abbrev IntDispatchTab (S : Type) := IntType → IntDispatchFn S

variable {S : Type}

def intNotImplementedDispatch : IntDispatchFn S := fun rs _ s => some (rs, s)

def intInitDispatchTab : IntDispatchTab S := fun _ => intNotImplementedDispatch

def intRegister (tab : IntDispatchTab S) (type : IntType) (dispatch : IntDispatchFn S) :
    IntDispatchTab S :=
  Function.update tab type dispatch

def intDispatch (tab : IntDispatchTab S) (type : IntType) (rs : Frame) (esr : Nat) (s : S) :
    Option (Frame × S) :=
  tab type rs esr s

/-- The table as `kernel_main` sets it up: `gicDispatch` comes from `setup_devices`,
the kernel calls from `setup_syscalls`. -/
def kernelDispatchTab (gicDispatch : IntDispatchFn S) (kcalls : Kcalls S) : IntDispatchTab S :=
  let tab := intInitDispatchTab
  let tab := intRegister tab .curElSpnIrq gicDispatch
  let tab := intRegister tab .lowElAarch64Irq gicDispatch
  intRegister tab .lowElAarch64Sync fun rs esr s => kcallDispatch kcalls esr s rs

theorem intDispatch_sync (gicDispatch : IntDispatchFn S) (kcalls : Kcalls S) (rs : Frame) (esr : Nat)
    (s : S) : intDispatch (kernelDispatchTab gicDispatch kcalls) .lowElAarch64Sync rs esr s =
      kcallDispatch kcalls esr s rs := by
  rw [intDispatch, kernelDispatchTab, intRegister, Function.update_self]

/-! ## Exception classes -/

/-- Bits 31 down to 26 of `ESR_EL1`. -/
def exceptionClass (esr : Nat) : Nat := esr / 2 ^ 26 % 2 ^ 6

/-- `SVC` executed in AArch64 state. -/
def ecSvcAarch64 : Nat := 0x15

/-- Taken with this `ESR_EL1`, an exception of a program runs no registered call:
whatever the calls with these numbers do, the program gets -1 in `x0` and the kernel
stays as it is. -/
def RunsNoCall (gicDispatch : IntDispatchFn S) (kcalls : Kcalls S) (rs : Frame) (esr : Nat) (s : S) :
    Prop :=
  ∀ kcalls' : Kcalls S, (∀ i, (kcalls'.entry i).isSome = (kcalls.entry i).isSome) →
    intDispatch (kernelDispatchTab gicDispatch kcalls') .lowElAarch64Sync rs esr s =
      some (kcallUnsupported rs, s)

/-- No fault is executed as a kernel call. -/
def FaultRunsNoCall (gicDispatch : IntDispatchFn S) (kcalls : Kcalls S) (rs : Frame) (esr : Nat)
    (s : S) : Prop :=
  exceptionClass esr ≠ ecSvcAarch64 → RunsNoCall gicDispatch kcalls rs esr s

section Faults

variable {gicDispatch : IntDispatchFn S} {kcalls : Kcalls S} {rs : Frame} {esr : Nat} {s : S}

theorem bound_iff_isSome {kcalls : Kcalls S} {i : Nat} :
    (∃ call, kcalls.Bound i call) ↔ ∃ h : i < kcallBufferSize, (kcalls.entry ⟨i, h⟩).isSome := by
  constructor
  · rintro ⟨call, hbound⟩
    have hi := Table.mem_of_slot hbound
    have hentry : some (kcalls.entry ⟨i, by omega⟩) = some (some call) := (dif_pos hi).symm.trans hbound
    exact ⟨by omega, by rw [Option.some.inj hentry]; rfl⟩
  · rintro ⟨h, hsome⟩
    obtain ⟨call, hcall⟩ := Option.isSome_iff_exists.mp hsome
    have hslot : kcalls.slot i = some (kcalls.entry ⟨i, h⟩) := dif_pos ⟨by omega, by omega⟩
    exact ⟨call, hslot.trans (congrArg some hcall)⟩

/-- A registered number runs its call, whatever the exception was. -/
theorem not_runsNoCall_of_bound {call : KcallFn S} (h : kcalls.Bound (callIdOf esr) call) :
    ¬RunsNoCall gicDispatch kcalls rs esr s := by
  intro hno
  -- the same numbers, with calls that leave the model
  let kcalls' : Kcalls S := ⟨fun i => (kcalls.entry i).map fun _ _ _ => none⟩
  have hrun := hno kcalls' fun i => Option.isSome_map ..
  obtain ⟨hi, hsome⟩ := bound_iff_isSome.mp ⟨call, h⟩
  have hbound : kcalls'.Bound (callIdOf esr) fun _ _ => none := by
    obtain ⟨f, hf⟩ := Option.isSome_iff_exists.mp hsome
    have hslot : kcalls'.slot (callIdOf esr) = some (kcalls'.entry ⟨callIdOf esr, hi⟩) :=
      dif_pos ⟨by omega, by omega⟩
    rw [Table.Bound, hslot]
    simp [kcalls', hf]
  rw [intDispatch_sync, kcallDispatch_of_bound hbound] at hrun
  cases hrun

end Faults

/-- A fault runs no kernel call just when the low 16 bits of its syndrome are the number
of no registered call, and not the size of the table, whose slot is past the end. -/
theorem faultRunsNoCall_iff (gicDispatch : IntDispatchFn S) (kcalls : Kcalls S) (rs : Frame)
    (esr : Nat) (s : S) :
    FaultRunsNoCall gicDispatch kcalls rs esr s ↔
      exceptionClass esr = ecSvcAarch64 ∨
        (∀ call, ¬kcalls.Bound (callIdOf esr) call) ∧ callIdOf esr ≠ kcallBufferSize := by
  constructor
  · intro h
    refine or_iff_not_imp_left.mpr fun hec => ⟨fun call hbound => ?_, fun hsize => ?_⟩
    · exact not_runsNoCall_of_bound hbound (h hec)
    · have hrun := h hec kcalls fun _ => rfl
      rw [intDispatch_sync, kcallDispatch_of_size hsize] at hrun
      cases hrun
  · rintro (hec | ⟨hunbound, hsize⟩) hfault
    · exact absurd hec hfault
    · intro kcalls' hsame
      rw [intDispatch_sync]
      refine kcallDispatch_of_unbound (fun call hbound => ?_) hsize s rs
      obtain ⟨hi, hsome⟩ := bound_iff_isSome.mp ⟨call, hbound⟩
      rw [hsame] at hsome
      obtain ⟨call', hbound'⟩ := bound_iff_isSome.mpr ⟨hi, hsome⟩
      exact hunbound call' hbound'

namespace Kernel

/-- A read through a pointer that level 0 of the tables does not map: a data abort with
fault status 4, which is the number of `kcall_io_poll_out`. With 2 and a character in
`x0` and `x1` the fault writes the character to the UART. -/
theorem not_faultRunsNoCall_dataAbort :
    ∃ kdevs kcalls, setupDevices UartSession.slowBoard Machine.oneTable = some (2, kdevs) ∧
      setupSyscalls Machine.oneTable Machine.noText kdevs = some (4, kcalls) ∧
      exceptionClass 0x92000004 = 0x24 ∧
      ∀ (gicDispatch : IntDispatchFn (Kernel Unit)) (rs : Frame) (s : Kernel Unit),
        ¬FaultRunsNoCall gicDispatch kcalls rs 0x92000004 s := by
  obtain ⟨kdevs, hsetup, -⟩ := setupDevices_lists UartSession.slowBoard Machine.oneTable
  obtain ⟨kcalls, hsetup', hcalls⟩ := setupSyscalls_lists Machine.oneTable Machine.noText kdevs
  have hbound : kcalls.Bound (callIdOf 0x92000004) (kcallIoPollOut kdevs) := hcalls.bound (i := 4) rfl
  exact ⟨kdevs, kcalls, hsetup, hsetup', by decide, fun gicDispatch rs s h =>
    not_runsNoCall_of_bound hbound (h (by decide))⟩

end Kernel

end PiVOS
