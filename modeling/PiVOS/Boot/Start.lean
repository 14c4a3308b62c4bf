-- SUMMARY: The instructions of `boot/boot.S` and `boot/mmu.S`, and what a core does with them.
import PiVOS.Lib.Interleave
import PiVOS.Memory.UserAccess

/-!
# The boot code

From the reset on, every core runs the same code. It is interpreted instruction by
instruction, with labels where the source has them; all stores come before the MMU is on, so
an address that is stored to is a place in memory.
-/

namespace PiVOS
namespace Boot

/-! ## The machine -/

inductive SysReg
  | mpidrEl1 | currentEl | hcrEl2 | spsrEl2 | elrEl2
  | ttbr0El1 | ttbr1El1 | mairEl1 | tcrEl1 | sctlrEl1 | sctlrEl2 | sctlrEl3
deriving DecidableEq

inductive Label
  | start | checkCore | zeroBss | zeroMmuSpace | ensureEl2 | transitionToEl1 | setupMemory
  | setStack | enterKernel | halt | zeroLoop | zeroLoopDone
  | enableMmu | prepare | setupTables | createEntriesLoop | setupRegisters
deriving DecidableEq

/-- What `ldr` loads from a literal: a symbol of the linker script, or a number. -/
inductive Literal
  | bssStart | bssEnd | mmuSpaceStart | mmuSpaceEnd | stackTop | kernelMain
  | number (v : BitVec 64)

abbrev Reg := Fin 31

inductive Insn
  | mrs (d : Reg) (r : SysReg)
  | msr (r : SysReg) (s : Reg)
  | ldrLiteral (d : Reg) (v : Literal)
  | mov (d s : Reg)
  | movImm (d : Reg) (v : BitVec 64)
  | movSp (s : Reg)
  | andImm (d s : Reg) (v : BitVec 64)
  | orrImm (d s : Reg) (v : BitVec 64)
  | orr (d a b : Reg)
  | add (d a b : Reg)
  | cmp (a b : Reg)
  | cmpImm (a : Reg) (v : BitVec 64)
  | b (l : Label)
  | bne (l : Label)
  | bge (l : Label)
  | blo (l : Label)
  | bl (l : Label)
  | br (s : Reg)
  | ret
  | adr (d : Reg) (l : Label)
  | eret
  | wfe
  | barrier
  /-- `str wzr, [a], #4` -/
  | strWzr (a : Reg)
  | str (s a : Reg)
  /-- `str s, [a], #8` -/
  | strPost (s a : Reg)

/-- A line of the source. -/
inductive Line
  | label (l : Label)
  | insn (i : Insn)

local instance bootRegs : NeZero 31 := ⟨by decide⟩

def mairMemoryNormalNoCache : Nat := 0
def mairMemoryDevice : Nat := 1

/-- `MAIR_CREATE_MEMORY_PROFILE` of `MAIR_CREATE_ATTRIBUTE`. -/
def mairProfile (index upper lower : Nat) : BitVec 64 :=
  BitVec.ofNat 64 ((upper <<< 4 ||| lower) <<< (index * 8))

def mairValue : BitVec 64 :=
  mairProfile mairMemoryNormalNoCache 0b0100 0b0100 ||| mairProfile mairMemoryDevice 0b0000 0b0000

/-- `boot.S`, with `mmu.S` behind it. -/
def source : List Line := [
  .label .start,
  .label .checkCore,
  .insn (.mrs 0 .mpidrEl1),
  .insn (.andImm 0 0 3),
  .insn (.cmpImm 0 0),
  .insn (.bne .halt),
  .label .zeroBss,
  .insn (.ldrLiteral 0 .bssStart),
  .insn (.andImm 0 0 0x0000FFFFFFFFFFFF),
  .insn (.ldrLiteral 1 .bssEnd),
  .insn (.andImm 1 1 0x0000FFFFFFFFFFFF),
  .insn (.bl .zeroLoop),
  .label .zeroMmuSpace,
  .insn (.ldrLiteral 0 .mmuSpaceStart),
  .insn (.andImm 0 0 0x0000FFFFFFFFFFFF),
  .insn (.ldrLiteral 1 .mmuSpaceEnd),
  .insn (.andImm 1 1 0x0000FFFFFFFFFFFF),
  .insn (.bl .zeroLoop),
  .label .ensureEl2,
  .insn (.mrs 0 .currentEl),
  .insn (.andImm 0 0 0xc),
  .insn (.cmpImm 0 0x8),
  .insn (.bne .halt),
  .label .transitionToEl1,
  .insn (.mrs 0 .hcrEl2),
  .insn (.movImm 0 0),
  .insn (.orrImm 0 0 0x80000000),
  .insn (.msr .hcrEl2 0),
  .insn (.mrs 0 .spsrEl2),
  .insn (.movImm 0 0),
  .insn (.movImm 1 0x5),
  .insn (.orr 0 0 1),
  .insn (.andImm 0 0 0xffffffffffffff3f),
  .insn (.orrImm 0 0 0x300),
  .insn (.msr .spsrEl2 0),
  .insn (.adr 0 .setupMemory),
  .insn (.msr .elrEl2 0),
  .insn .eret,
  .insn (.b .halt),
  .label .setupMemory,
  .insn (.bl .enableMmu),
  .label .setStack,
  .insn (.ldrLiteral 0 .stackTop),
  .insn (.movSp 0),
  .label .enterKernel,
  .insn (.ldrLiteral 0 .kernelMain),
  .insn (.br 0),
  .label .halt,
  .insn .wfe,
  .insn (.b .halt),
  .label .zeroLoop,
  .insn (.cmp 0 1),
  .insn (.bge .zeroLoopDone),
  .insn (.strWzr 0),
  .insn (.b .zeroLoop),
  .label .zeroLoopDone,
  .insn .ret,
  -- `mmu.S`
  .label .enableMmu,
  .label .prepare,
  .insn (.ldrLiteral 25 (.number 0x1000)),
  .insn (.ldrLiteral 26 .mmuSpaceStart),
  .insn (.andImm 26 26 0x0000FFFFFFFFFFFF),
  .insn (.add 27 26 25),
  .insn (.add 28 27 25),
  .insn (.add 29 28 25),
  .label .setupTables,
  .insn (.mov 0 26),
  .insn (.mov 1 27),
  .insn (.orrImm 1 1 3),
  .insn (.str 1 0),
  .insn (.mov 0 27),
  .insn (.mov 1 28),
  .insn (.orrImm 1 1 3),
  .insn (.str 1 0),
  .insn (.movImm 0 0),
  .insn (.ldrLiteral 1 (.number 0x40000000)),
  .insn (.ldrLiteral 2 (.number 0x200000)),
  .insn (.mov 3 28),
  .insn (.ldrLiteral 5 (.number (BitVec.ofNat 64 mmuTableAttr))),
  .label .createEntriesLoop,
  .insn (.mov 4 0),
  .insn (.orr 4 4 5),
  .insn (.strPost 4 3),
  .insn (.add 0 0 2),
  .insn (.cmp 0 1),
  .insn (.blo .createEntriesLoop),
  .label .setupRegisters,
  .insn (.msr .ttbr1El1 26),
  .insn (.msr .ttbr0El1 26),
  .insn (.ldrLiteral 0 (.number mairValue)),
  .insn (.ldrLiteral 1 (.number tcrValue)),
  .insn (.msr .mairEl1 0),
  .insn (.msr .tcrEl1 1),
  .insn (.mrs 0 .sctlrEl1),
  .insn (.orrImm 0 0 1),
  .insn (.msr .sctlrEl1 0),
  .insn .barrier,
  .insn .barrier,
  .insn .ret]

/-- The instructions, by number. -/
def code : List Insn := source.filterMap fun | .insn i => some i | .label _ => none

/-- The instructions before a label. -/
def countBefore (l : Label) : List Line → Nat
  | [] => 0
  | .label l' :: rest => if l = l' then 0 else countBefore l rest
  | .insn _ :: rest => countBefore l rest + 1

/-- The number of the instruction at a label. -/
def Label.position (l : Label) : Nat := countBefore l source

/-- Where a core is: at an instruction of the boot code, or gone into the kernel. -/
inductive Pc
  | boot (i : Nat)
  | kernel (entry : BitVec 64)

structure Core where
  x : Reg → BitVec 64
  sp : BitVec 64
  pc : Pc
  sys : SysReg → BitVec 64
  /-- The mask bits D, A, I and F. -/
  daif : BitVec 4
  /-- The operands of the last comparison. -/
  compared : BitVec 64 × BitVec 64

/-- What the linker decides: where the sections lie in memory, behind one another, and where
the instructions of the boot code are, before all of them. -/
structure Layout where
  bssStart : Nat
  bssEnd : Nat
  stackTop : Nat
  mmuSpaceStart : Nat
  kernelMain : Nat
  address : Nat → BitVec 64
  locate : BitVec 64 → Nat
  bss_aligned : bssStart % 4 = 0
  bss_le : bssStart ≤ bssEnd
  stack : stackTop = (bssEnd + 15) / 16 * 16 + 0x4000
  mmuSpace : mmuSpaceStart = (stackTop + 4095) / 4096 * 4096
  image_lt : mmuSpaceStart + 3 * 4096 < 512 * mbInB
  address_lt : ∀ i < code.length, (address i).toNat < bssStart
  locate_address : ∀ i < code.length, locate (address i) = i

namespace Layout

variable (l : Layout)

def mmuSpaceEnd : Nat := l.mmuSpaceStart + 4096 * 3

/-- A symbol of the linker script: symbols are in the kernel's half. -/
def symbol (address : Nat) : BitVec 64 := BitVec.ofNat 64 (setKernelSpace address)

def literal : Literal → BitVec 64
  | .bssStart => symbol l.bssStart
  | .bssEnd => symbol l.bssEnd
  | .mmuSpaceStart => symbol l.mmuSpaceStart
  | .mmuSpaceEnd => symbol l.mmuSpaceEnd
  | .stackTop => symbol l.stackTop
  | .kernelMain => symbol l.kernelMain
  | .number v => v

end Layout

/-! ## Instructions -/

/-- A store of 32 zero bits at the `a`-th word of four bytes. -/
def zeroWord (mem : Nat → Nat) (a : Nat) : Nat → Nat :=
  Function.update mem (a / 2)
    (if a % 2 = 0 then mem (a / 2) / 2 ^ 32 * 2 ^ 32 else mem (a / 2) % 2 ^ 32)

namespace Core

def setX (c : Core) (d : Reg) (v : BitVec 64) : Core := { c with x := Function.update c.x d v }

def setSys (c : Core) (r : SysReg) (v : BitVec 64) : Core := { c with sys := Function.update c.sys r v }

def goto (c : Core) (i : Nat) : Core := { c with pc := .boot i }

/-- `eret` from EL2 to a lower level in the AArch64 state, as `SPSR_EL2` says; anything else is
an illegal return. -/
def eret (l : Layout) (c : Core) : Option Core :=
  let spsr := c.sys .spsrEl2
  if c.sys .currentEl &&& 0xc = 0x8 ∧ (c.sys .hcrEl2).getLsbD 31 = true ∧ spsr.getLsbD 4 = false ∧
      (spsr.extractLsb' 2 2).toNat ≤ 1 then
    some (({ c with daif := spsr.extractLsb' 6 4 }.setSys .currentEl
      ((spsr.extractLsb' 2 2).setWidth 64 <<< 2)).goto (l.locate (c.sys .elrEl2)))
  else none

end Core

/-- The instruction with number `i`. A store that is not aligned faults. -/
def exec (l : Layout) (i : Nat) (c : Core) (mem : Nat → Nat) : Insn → Option (Core × (Nat → Nat))
  | .mrs d r => some ((c.setX d (c.sys r)).goto (i + 1), mem)
  | .msr r s => some ((c.setSys r (c.x s)).goto (i + 1), mem)
  | .ldrLiteral d v => some ((c.setX d (l.literal v)).goto (i + 1), mem)
  | .mov d s => some ((c.setX d (c.x s)).goto (i + 1), mem)
  | .movImm d v => some ((c.setX d v).goto (i + 1), mem)
  | .movSp s => some ({ c with sp := c.x s }.goto (i + 1), mem)
  | .andImm d s v => some ((c.setX d (c.x s &&& v)).goto (i + 1), mem)
  | .orrImm d s v => some ((c.setX d (c.x s ||| v)).goto (i + 1), mem)
  | .orr d a b => some ((c.setX d (c.x a ||| c.x b)).goto (i + 1), mem)
  | .add d a b => some ((c.setX d (c.x a + c.x b)).goto (i + 1), mem)
  | .cmp a b => some ({ c with compared := (c.x a, c.x b) }.goto (i + 1), mem)
  | .cmpImm a v => some ({ c with compared := (c.x a, v) }.goto (i + 1), mem)
  | .b label => some (c.goto label.position, mem)
  | .bne label => some (c.goto (if c.compared.1 = c.compared.2 then i + 1 else label.position), mem)
  | .bge label => some (c.goto (if c.compared.2.sle c.compared.1 then label.position else i + 1), mem)
  | .blo label => some (c.goto (if c.compared.1.ult c.compared.2 then label.position else i + 1), mem)
  | .bl label => some ((c.setX 30 (l.address (i + 1))).goto label.position, mem)
  | .br s => some ({ c with pc := .kernel (c.x s) }, mem)
  | .ret => some (c.goto (l.locate (c.x 30)), mem)
  | .adr d label => some ((c.setX d (l.address label.position)).goto (i + 1), mem)
  | .eret => (c.eret l).map fun c => (c, mem)
  | .wfe => some (c.goto (i + 1), mem)
  | .barrier => some (c.goto (i + 1), mem)
  | .strWzr a =>
    if (c.x a).toNat % 4 = 0 then
      some ((c.setX a (c.x a + 4)).goto (i + 1), zeroWord mem ((c.x a).toNat / 4))
    else none
  | .str s a =>
    if (c.x a).toNat % 8 = 0 then
      some (c.goto (i + 1), Function.update mem ((c.x a).toNat / 8) (c.x s).toNat)
    else none
  | .strPost s a =>
    if (c.x a).toNat % 8 = 0 then
      some ((c.setX a (c.x a + 8)).goto (i + 1), Function.update mem ((c.x a).toNat / 8) (c.x s).toNat)
    else none

namespace Core

/-- `SCTLR` of the level the core is in. -/
def sctlr (c : Core) : BitVec 64 :=
  match (c.sys .currentEl >>> 2 &&& 3).toNat with
  | 3 => c.sys .sctlrEl3
  | 2 => c.sys .sctlrEl2
  | _ => c.sys .sctlrEl1

/-- Instruction `i` does not fault for what `SCTLR` says. Its bit EE turns the bytes of data
around. With its bit M the instruction is looked up in the tables, of which only those of EL1
are known here, and bit WXN forbids to execute what can be written. -/
def CanExecute (l : Layout) (c : Core) (mem : Nat → Nat) (i : Nat) : Prop :=
  c.sctlr.getLsbD 25 = false ∧ (c.sctlr.getLsbD 0 = true → c.sctlr.getLsbD 19 = false ∧
    c.sys .currentEl >>> 2 &&& 3 = 1 ∧
    el1Address mem (c.sys .ttbr0El1).toNat (c.sys .ttbr1El1).toNat .load (l.address i).toNat =
      some (l.address i).toNat)

instance (l : Layout) (c : Core) (mem : Nat → Nat) (i : Nat) : Decidable (c.CanExecute l mem i) :=
  inferInstanceAs (Decidable (_ ∧ (_ → _)))

end Core

/-- One instruction of a core; none once the core is in the kernel. -/
def step (l : Layout) (s : Core × (Nat → Nat)) : Option (Core × (Nat → Nat)) :=
  match s.1.pc with
  | .boot i => if s.1.CanExecute l s.2 i then code[i]?.bind (exec l i s.1 s.2) else none
  | .kernel _ => none

end Boot
end PiVOS
