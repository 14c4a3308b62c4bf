-- SUMMARY: The kernel that `main.c` sets up: its devices, its kernel calls, its first program.
import PiVOS.Call
import PiVOS.Dev.UartBytes
import PiVOS.ProcNesting

/-!
# The kernel

`setup_devices` and `setup_syscalls` fill the two tables once; after that the
state of the kernel is its processes and its UART.
-/

namespace PiVOS

structure Kernel (M : Type) where
  proc : ProcKernel M
  uart : DevUart

namespace Kernel

variable {M : Type} (b : Board) (ops : MemoryOps M) (progs : KprocProgTab)

/-! ## Devices -/

/-- The bytes a program sees from `ptr` on. -/
def userBytes (s : Kernel M) (ptr i : Nat) : UInt8 :=
  ops.load s.proc.memory s.proc.ttbr0 (u64 (ptr + i))

/-- The loads of the first `n` bytes from `ptr` on go through. -/
def loadsReach (s : Kernel M) (ptr n : Nat) : Bool :=
  (List.range n).all fun i => ops.reaches s.proc.memory s.proc.ttbr0 .load (u64 (ptr + i))

/-- `dev_uart_get`: the UART as an I/O device on the pointers of the caller. A write that
returns `r` has loaded `r` bytes, and the next one when it was stopped by a full ring; it
never returns from a load that faults. -/
def devUart : KdevIo (Kernel M) where
  write s src n :=
    (s.uart.kdevWrite b (s.userBytes ops src) n).bind fun (r, uart) =>
      if s.loadsReach ops src (min n (r.toNat + 1)) then some (r, { s with uart }) else none
  read s dst n :=
    (s.uart.kdevRead b (s.userBytes ops dst) n).bind fun (r, bytes, uart) =>
      (ops.copyOut s.proc.ttbr0 dst ((List.range r.toNat).map bytes) s.proc.memory).map fun memory =>
        (r, { proc := { s.proc with memory }, uart })
  poolOut s c :=
    let (r, uart) := s.uart.kdevPoolOut b c
    some (r, { s with uart })

/-- The registrations of `setup_devices`. -/
def setupDevices : Option (Int × Kdevs (Kernel M)) := do
  let (status, kdevs) ← kdevRegister .empty 0 .gic
  if status < 0 then return (status, kdevs)
  let (status, kdevs) ← kdevRegister kdevs 1 .timer
  if status < 0 then return (status, kdevs)
  kdevRegister kdevs 2 (.io (devUart b ops))

/-! ## Kernel calls -/

def kcallProcExit : KcallFn (Kernel M) := fun s rs =>
  (s.proc.kcallProcExit ops rs).map fun (rs, proc) => (rs, { s with proc })

def kcallProcStart : KcallFn (Kernel M) := fun s rs =>
  (s.proc.kcallProcStart ops progs rs).map fun (rs, proc) => (rs, { s with proc })

def setupSyscalls (kdevs : Kdevs (Kernel M)) : Option (Int × Kcalls (Kernel M)) := do
  let (status, kcalls) ← kcallRegister .empty 0 (kcallProcExit ops)
  if status < 0 then return (status, kcalls)
  let (status, kcalls) ← kcallRegister kcalls 1 (kcallProcStart ops progs)
  if status < 0 then return (status, kcalls)
  let (status, kcalls) ← kcallRegister kcalls 2 (kcallIoWrite kdevs)
  if status < 0 then return (status, kcalls)
  let (status, kcalls) ← kcallRegister kcalls 3 (kcallIoRead kdevs)
  if status < 0 then return (status, kcalls)
  kcallRegister kcalls 4 (kcallIoPollOut kdevs)

/-- The devices of the kernel, by number. -/
def devices : List (Kdev (Kernel M)) := [.gic, .timer, .io (devUart b ops)]

/-- Its calls, by number. -/
def calls (kdevs : Kdevs (Kernel M)) : List (KcallFn (Kernel M)) :=
  [kcallProcExit ops, kcallProcStart ops progs, kcallIoWrite kdevs, kcallIoRead kdevs,
    kcallIoPollOut kdevs]

theorem setupDevices_lists : ∃ kdevs, setupDevices b ops = some (2, kdevs) ∧
    kdevs.Lists (devices b ops) := by
  obtain ⟨t₁, h₁, hlists₁⟩ := kdevRegister_next (S := Kernel M) (i := 0) Table.empty_lists rfl
    (by decide) .gic
  obtain ⟨t₂, h₂, hlists₂⟩ := kdevRegister_next (i := 1) hlists₁ rfl (by decide) .timer
  obtain ⟨t₃, h₃, hlists₃⟩ := kdevRegister_next (i := 2) hlists₂ rfl (by decide)
    (.io (devUart b ops))
  exact ⟨t₃, by simp [setupDevices, h₁, h₂, h₃], hlists₃⟩

theorem setupSyscalls_lists (kdevs : Kdevs (Kernel M)) :
    ∃ kcalls, setupSyscalls ops progs kdevs = some (4, kcalls) ∧
      kcalls.Lists (calls ops progs kdevs) := by
  obtain ⟨t₁, h₁, hlists₁⟩ := kcallRegister_next (i := 0) Table.empty_lists rfl (by decide)
    (kcallProcExit ops)
  obtain ⟨t₂, h₂, hlists₂⟩ := kcallRegister_next (i := 1) hlists₁ rfl (by decide)
    (kcallProcStart ops progs)
  obtain ⟨t₃, h₃, hlists₃⟩ := kcallRegister_next (i := 2) hlists₂ rfl (by decide) (kcallIoWrite kdevs)
  obtain ⟨t₄, h₄, hlists₄⟩ := kcallRegister_next (i := 3) hlists₃ rfl (by decide) (kcallIoRead kdevs)
  obtain ⟨t₅, h₅, hlists₅⟩ := kcallRegister_next (i := 4) hlists₄ rfl (by decide)
    (kcallIoPollOut kdevs)
  exact ⟨t₅, by simp [setupSyscalls, h₁, h₂, h₃, h₄, h₅], hlists₅⟩

end Kernel

end PiVOS
