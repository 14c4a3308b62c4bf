-- SUMMARY: The kernel-call table and its handlers, from `call.c` and `call/dev.c`.
import PiVOS.Dev
import PiVOS.Proc

/-!
# Kernel calls

A handler works on the state of the kernel and the caller's register frame.
-/

namespace PiVOS

abbrev KcallFn (S : Type) := S → Frame → Option (Frame × S)

def kcallBufferSize : Nat := 1024

abbrev Kcalls (S : Type) := Table kcallBufferSize (KcallFn S)

variable {S : Type}

def kcallRegister (kcalls : Kcalls S) (callId : Nat) (call : KcallFn S) : Option (Int × Kcalls S) :=
  if kcallBufferSize ≤ callId then some (Kstatus.callOutOfBounds, kcalls) else do
    if (← kcalls.slot callId).isSome then
      return (Kstatus.callAlreadyExists, kcalls)
    return (callId, ← kcalls.bind callId call)

def kcallUnsupported (rs : Frame) : Frame := rs.setStatus (-1)

/-- `(uint16_t)esr`. -/
def callIdOf (esr : Nat) : Nat := esr % 2 ^ 16

/-- The bound is checked with `>`, so the size itself passes. -/
def kcallDispatch (kcalls : Kcalls S) (esr : Nat) (s : S) (rs : Frame) : Option (Frame × S) :=
  let callId := callIdOf esr
  if kcallBufferSize < callId then some (kcallUnsupported rs, s) else do
    match ← kcalls.slot callId with
    | none => return (kcallUnsupported rs, s)
    | some call => call s rs

/-! ## Device calls -/

def kcallIoRead (kdevs : Kdevs S) : KcallFn S := fun s rs =>
  (kdevIoRead kdevs (rs.int32 0) (rs 1).toNat (rs.uint32 2) s).map fun (status, s) =>
    (rs.setStatus status, s)

def kcallIoWrite (kdevs : Kdevs S) : KcallFn S := fun s rs =>
  (kdevIoWrite kdevs (rs.int32 0) (rs 1).toNat (rs.uint32 2) s).map fun (status, s) =>
    (rs.setStatus status, s)

def kcallIoPollOut (kdevs : Kdevs S) : KcallFn S := fun s rs =>
  (kdevIoPoolOut kdevs (rs.int32 0) (UInt8.ofNat (rs 1).toNat) s).map fun (status, s) =>
    (rs.setStatus status, s)

/-! ## Dispatch -/

/-- Registering the call behind those already there. -/
theorem kcallRegister_next {kcalls : Kcalls S} {calls : List (KcallFn S)} (h : kcalls.Lists calls)
    {i : Nat} (hi : calls.length = i) (hroom : i < kcallBufferSize) (call : KcallFn S) :
    ∃ kcalls', kcallRegister kcalls i call = some ((i : Int), kcalls') ∧
      kcalls'.Lists (calls ++ [call]) := by
  subst hi
  obtain ⟨kcalls', hbind, hlists⟩ := h.bind hroom call
  refine ⟨kcalls', ?_, hlists⟩
  rw [kcallRegister, if_neg (by omega), h.slots _ hroom, List.getElem?_eq_none (Nat.le_refl _),
    hbind]
  rfl

theorem kcallDispatch_of_bound {kcalls : Kcalls S} {esr : Nat} {call : KcallFn S}
    (h : kcalls.Bound (callIdOf esr) call) (s : S) (rs : Frame) :
    kcallDispatch kcalls esr s rs = call s rs := by
  have hin : ¬kcallBufferSize < callIdOf esr := fun hlt => by
    have hnone := Table.slot_of_not_mem (t := kcalls) (i := callIdOf esr) (by omega)
    rw [h] at hnone
    cases hnone
  rw [kcallDispatch]
  rw [if_neg hin, h]
  rfl

/-- A call number without a handler, other than the size of the table. -/
theorem kcallDispatch_of_unbound {kcalls : Kcalls S} {esr : Nat}
    (h : ∀ call, ¬kcalls.Bound (callIdOf esr) call) (hne : callIdOf esr ≠ kcallBufferSize) (s : S)
    (rs : Frame) : kcallDispatch kcalls esr s rs = some (rs.setStatus (-1), s) := by
  rw [kcallDispatch]
  by_cases hlt : kcallBufferSize < callIdOf esr
  · rw [if_pos hlt]
    rfl
  · obtain ⟨slot, hslot⟩ : ∃ slot, kcalls.slot (callIdOf esr) = some slot :=
      ⟨_, dif_pos ⟨by omega, by omega⟩⟩
    cases slot with
    | none => rw [if_neg hlt, hslot]; rfl
    | some call => exact absurd hslot (h call)

/-- The size of the table passes the check, and there is no such slot. -/
theorem kcallDispatch_of_size {kcalls : Kcalls S} {esr : Nat} (h : callIdOf esr = kcallBufferSize)
    (s : S) (rs : Frame) : kcallDispatch kcalls esr s rs = none := by
  have hslot : kcalls.slot (callIdOf esr) = none := Table.slot_of_not_mem (by omega)
  rw [kcallDispatch]
  rw [if_neg (by omega), hslot]
  rfl

end PiVOS
