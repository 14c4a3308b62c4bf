-- SUMMARY: Processes and their kernel calls, from `proc.c` and `call/proc.c`.
import PiVOS.Buffer.Stack
import PiVOS.Log
import PiVOS.Memory

/-!
# Processes

Processes form a stack: a process that starts another is suspended until that
one exits. Memory is a parameter, so that what is shown here holds whatever the
page tables do. A function gives `none` where the source would use a null pointer
or an entry past the end of the program table.
-/

namespace PiVOS

/-- The 32 slots of a saved register frame; `x0` to `x30` are the first 31. -/
abbrev Frame := Fin 32 → BitVec 64

instance frameSlots : NeZero 32 := ⟨by decide⟩

/-- `rs[0] = status`. -/
def Frame.setStatus (rs : Frame) (status : Int) : Frame :=
  Function.update rs 0 (BitVec.ofInt 64 status)

/-- `*((uint32_t *)(rs + i))`. -/
def Frame.uint32 (rs : Frame) (i : Fin 32) : Nat := ((rs i).setWidth 32).toNat

/-- `*((int32_t *)(rs + i))`. -/
def Frame.int32 (rs : Frame) (i : Fin 32) : Int := ((rs i).setWidth 32).toInt

structure SuspendState where
  sp : BitVec 64
  elr : BitVec 64
  generalRegs : Frame

structure Kproc where
  level0Table : Nat
  suspend : SuspendState

def kprocMaxCount : Nat := 16
def kprocProgOffset : Nat := 0x80000

/-- The number of entries of `kproc_prog_tab`. -/
def kprocProgCount : Nat := 3

/-- The texts `kproc_prog_tab` points to. -/
abbrev KprocProgTab := Fin kprocProgCount → List UInt8

/-- `sizeof(struct kproc)`: a pointer, `sp`, `elr` and 32 registers. -/
def sizeofKproc : Nat := 35 * 8

def kprocRegion : MemoryRegion :=
  { memoryType := memoryTypeNormalNoCache, va := 0, size := alignUp64 sizeofKproc (2 * mbInB) }

/-- The process stack, the memory and the system registers the calls touch. -/
structure ProcKernel (M : Type) where
  stack : Stack Kproc
  memory : M
  ttbr0 : Nat
  spEl0 : BitVec 64
  elrEl1 : BitVec 64

namespace ProcKernel

variable {M : Type} (ops : MemoryOps M) (progs : KprocProgTab)

def kprocCount (k : ProcKernel M) : Nat := k.stack.len

/-- The new process keeps what its slot held as suspend state. -/
def kprocAlloc (k : ProcKernel M) : Option Nat × ProcKernel M :=
  match k.stack.alloc with
  | (none, stack) => (none, { k with stack })
  | (some proc, stack) =>
    let (level0Table, memory) := ops.createContext k.memory
    (some proc, { k with
      stack := stack.modify proc fun kproc => { kproc with level0Table }
      memory := ops.mapRegion memory level0Table kprocRegion .alloc })

def kprocFree (k : ProcKernel M) : Option (Option Nat × ProcKernel M) :=
  k.stack.peek.map fun proc =>
    let memory := ops.destroyContext k.memory (k.stack.buffer proc).level0Table
    let stack := k.stack.free
    (stack.peek, { k with memory, stack })

def kprocMemSwitch (k : ProcKernel M) (proc : Nat) : ProcKernel M :=
  let phyTab := clearKernelSpace (k.stack.buffer proc).level0Table
  { k with ttbr0 := phyTab ||| u64 (k.stack.len <<< 48) }

def kprocInit (k : ProcKernel M) (text : List UInt8) : ProcKernel M :=
  { k with
    memory := ops.bytecpy k.ttbr0 kprocProgOffset text k.memory
    spEl0 := BitVec.ofNat 64 kprocProgOffset
    elrEl1 := BitVec.ofNat 64 kprocProgOffset }

def kprocSuspend (k : ProcKernel M) (proc : Nat) (rs : Frame) : ProcKernel M :=
  { k with stack := k.stack.modify proc fun kproc =>
      { kproc with suspend := ⟨k.spEl0, k.elrEl1, rs⟩ } }

def kprocRestore (k : ProcKernel M) (proc : Nat) : Frame × ProcKernel M :=
  let suspend := (k.stack.buffer proc).suspend
  (suspend.generalRegs, { k with spEl0 := suspend.sp, elrEl1 := suspend.elr })

/-- `&kproc_prog_tab[prog_id]`, which is an entry only for an existing program. -/
def kprocProgTab (progId : Nat) : Option (List UInt8) :=
  if h : progId < kprocProgCount then some (progs ⟨progId, h⟩) else none

/-- A new process, switched to and loaded: how starting and executing a program end. -/
def kprocEnter (k : ProcKernel M) (text : List UInt8) : Option (ProcKernel M) :=
  let (proc, k) := k.kprocAlloc ops
  proc.map fun proc => (k.kprocMemSwitch proc).kprocInit ops text

/-- The entry is used only once there is room for a process. -/
def kprocStart (k : ProcKernel M) (progId : Nat) (rs : Frame) : Option (Int × ProcKernel M) := do
  if k.stack.full then
    return (Kstatus.procStackFull, k)
  let prog ← kprocProgTab progs progId
  let proc ← k.stack.peek
  let k := (k.kprocMemSwitch proc).kprocSuspend proc rs
  let k ← k.kprocEnter ops prog
  return (Kstatus.procOk, k)

def kprocExec (k : ProcKernel M) (progId : Nat) : Option (ProcKernel M) := do
  let prog ← kprocProgTab progs progId
  k.kprocEnter ops prog

def kprocExit (k : ProcKernel M) (rs : Frame) : Option (Int × Frame × ProcKernel M) := do
  if k.kprocCount = 1 then
    return (Kstatus.procLast, rs, k)
  let (proc, k) ← k.kprocFree ops
  let proc ← proc
  let (rs, k) := (k.kprocMemSwitch proc).kprocRestore proc
  return (0, rs, k)

/-! ## Kernel calls -/

def kcallProcStart (k : ProcKernel M) (rs : Frame) : Option (Frame × ProcKernel M) :=
  (k.kprocStart ops progs (rs.uint32 0) rs).map fun (status, k) => (rs.setStatus status, k)

def kcallProcExit (k : ProcKernel M) (rs : Frame) : Option (Frame × ProcKernel M) :=
  (k.kprocExit ops rs).map fun (status, rs, k) => (rs.setStatus status, k)

end ProcKernel

end PiVOS
