-- SUMMARY: Interrupts between the instructions that enter programs, and between those of kernel calls.
import PiVOS.Lib.Interrupts
import PiVOS.ProcNesting

/-!
# Interrupts and processes

The model of processes takes a kernel call as one step. Here it is taken apart into the
instructions that read and write the registers a program is entered with, and interrupts may
come wherever they are not masked. Kernel calls are one step all the same; entering the first
program, which happens with interrupts unmasked, is not.
-/

namespace PiVOS

open Interrupts (Interrupted)

namespace ProcKernel

variable {M : Type}

/-! ## Instructions -/

/-- The place of a program in its address space, as a register holds it. -/
def progOffset : BitVec 64 := BitVec.ofNat 64 kprocProgOffset

def kprocInitInsns : List (Interrupts.Insn (BitVec 64)) := [.msrSpEl0 progOffset, .msrElr progOffset]

/-- With the values that are read. -/
def kprocSuspendInsns (sp elr : BitVec 64) : List (Interrupts.Insn (BitVec 64)) := [.mrsSpEl0 sp, .mrsElr elr]

def kprocRestoreInsns (suspend : SuspendState) : List (Interrupts.Insn (BitVec 64)) :=
  [.msrSpEl0 suspend.sp, .msrElr suspend.elr]

def kprocStartInsns (k : ProcKernel M) (sp elr : BitVec 64) : List (Interrupts.Insn (BitVec 64)) :=
  if k.stack.full then [] else kprocSuspendInsns sp elr ++ kprocInitInsns

def kprocExitInsns (k : ProcKernel M) : List (Interrupts.Insn (BitVec 64)) :=
  if k.kprocCount = 1 then [] else
    match k.stack.free.peek with
    | none => []
    | some proc => kprocRestoreInsns (k.stack.buffer proc).suspend

end ProcKernel

/-! ## The machine -/

/-- The core, the processes and the general registers of the running program. What the
process table is given for the registers of the core does not matter: they are in the core. -/
structure CoreMachine (M : Type) where
  core : Interrupts.Core (BitVec 64)
  kernel : ProcKernel M
  rs : Frame

/-- The program on its own, an interrupt, or a call, with what happens from its first
instruction in the kernel to the return. -/
inductive CoreBlock
  | user (rs : Frame) (sp pc : BitVec 64)
  | irq (handler : List (Interrupts.Event (BitVec 64)))
  | start (code : List (Interrupts.Event (BitVec 64)))
  | exit (code : List (Interrupts.Event (BitVec 64)))

namespace CoreBlock

/-- What the processes see of it. -/
def procEvent : CoreBlock → Option ProcEvent
  | .user rs sp pc => some (.user rs sp pc)
  | .irq _ => none
  | .start _ => some .start
  | .exit _ => some .exit

/-- What goes on in the kernel meanwhile. -/
def inside : CoreBlock → List (Interrupts.Event (BitVec 64))
  | .user _ _ _ => []
  | .irq handler => handler
  | .start code | .exit code => code

end CoreBlock

namespace CoreMachine

variable {M : Type} {ops : MemoryOps M} {progs : KprocProgTab} {vector : BitVec 64}
  {m m₀ m' : CoreMachine M} {block : CoreBlock} {blocks : List CoreBlock}

inductive Step (ops : MemoryOps M) (progs : KprocProgTab) (vector : BitVec 64) :
    CoreMachine M → CoreBlock → CoreMachine M → Prop
  | user (m : CoreMachine M) (rs : Frame) (sp pc : BitVec 64) :
    Step ops progs vector m (.user rs sp pc) { m with core := { m.core with spEl0 := sp, pc }, rs }
  | irq {m : CoreMachine M} {handler : List (Interrupts.Event (BitVec 64))} {core : Interrupts.Core (BitVec 64)}
      (hhandler : Interrupted [] handler)
      (hrun : Exec (Interrupts.Step vector) m.core (.irq :: (handler ++ [.eret])) core) :
    Step ops progs vector m (.irq handler) { m with core }
  | start {m : CoreMachine M} {code : List (Interrupts.Event (BitVec 64))} {core : Interrupts.Core (BitVec 64)}
      {sp elr : BitVec 64} {rs : Frame} {kernel : ProcKernel M} (hprog : m.rs.uint32 0 < kprocProgCount)
      (hcode : Interrupted (m.kernel.kprocStartInsns sp elr) code)
      (hrun : Exec (Interrupts.Step vector) m.core (.svc :: (code ++ [.eret])) core)
      (hcall : { m.kernel with spEl0 := sp, elrEl1 := elr }.kcallProcStart ops progs m.rs =
        some (rs, kernel)) :
    Step ops progs vector m (.start code) { core, kernel, rs }
  | exit {m : CoreMachine M} {code : List (Interrupts.Event (BitVec 64))} {core : Interrupts.Core (BitVec 64)}
      {rs : Frame} {kernel : ProcKernel M} (hcode : Interrupted m.kernel.kprocExitInsns code)
      (hrun : Exec (Interrupts.Step vector) m.core (.svc :: (code ++ [.eret])) core)
      (hcall : m.kernel.kcallProcExit ops m.rs = some (rs, kernel)) :
    Step ops progs vector m (.exit code) { core, kernel, rs }

/-- The processes, with the registers of the core where the program is. -/
def machine (m : CoreMachine M) : Machine M :=
  { kernel := { m.kernel with spEl0 := m.core.spEl0, elrEl1 := m.core.pc }, rs := m.rs }

end CoreMachine

/-! ## Calls -/

namespace ProcKernel

variable {M : Type} {ops : MemoryOps M} {progs : KprocProgTab} {k k' : ProcKernel M}

theorem kprocEnter_registers {text : List UInt8} (h : k.kprocEnter ops text = some k') :
    k'.spEl0 = progOffset ∧ k'.elrEl1 = progOffset := by
  obtain ⟨proc, -, rfl⟩ := Option.map_eq_some_iff.mp h
  exact ⟨rfl, rfl⟩

theorem kcallProcStart_registers (hroom : ¬k.stack.full = true) {rs rs' : Frame}
    (h : k.kcallProcStart ops progs rs = some (rs', k')) :
    k'.spEl0 = progOffset ∧ k'.elrEl1 = progOffset := by
  obtain ⟨⟨status, k₁⟩, hstart, heq⟩ := Option.map_eq_some_iff.mp h
  obtain ⟨-, rfl⟩ := Prod.mk.inj heq
  rw [kprocStart, if_neg hroom] at hstart
  obtain ⟨prog, -, hstart⟩ := Option.bind_eq_some_iff.mp hstart
  obtain ⟨proc, -, hstart⟩ := Option.bind_eq_some_iff.mp hstart
  obtain ⟨k₂, henter, heq⟩ := Option.bind_eq_some_iff.mp hstart
  obtain ⟨-, rfl⟩ := Prod.mk.inj (Option.some.inj heq)
  exact kprocEnter_registers henter

theorem free_buffer (stack : Stack Kproc) : stack.free.buffer = stack.buffer := by
  unfold Stack.free
  split <;> rfl

/-- An exit to a parent sets the registers whatever they were. -/
theorem kprocExit_of_deep (hdeep : ¬k.kprocCount = 1) (rs : Frame) (sp elr : BitVec 64) :
    { k with spEl0 := sp, elrEl1 := elr }.kprocExit ops rs = k.kprocExit ops rs := by
  have hdeep' : ¬{ k with spEl0 := sp, elrEl1 := elr }.kprocCount = 1 := hdeep
  rw [kprocExit, kprocExit, if_neg hdeep, if_neg hdeep', kprocFree, kprocFree]
  cases k.stack.peek with
  | none => rfl
  | some top =>
    simp only [Option.map_some, Option.bind_eq_bind, Option.bind_some]
    cases k.stack.free.peek <;> rfl

theorem kprocExit_registers (hdeep : ¬k.kprocCount = 1) {status : Int} {rs rs' : Frame}
    (h : k.kprocExit ops rs = some (status, rs', k')) : ∃ proc, k.stack.free.peek = some proc ∧
      k'.spEl0 = (k.stack.buffer proc).suspend.sp ∧ k'.elrEl1 = (k.stack.buffer proc).suspend.elr := by
  rw [kprocExit, if_neg hdeep] at h
  obtain ⟨⟨proc, k₂⟩, hfree, h⟩ := Option.bind_eq_some_iff.mp h
  obtain ⟨top, -, heq⟩ := Option.map_eq_some_iff.mp hfree
  obtain ⟨rfl, rfl⟩ := Prod.mk.inj heq
  obtain ⟨proc, hpeek, hrestore⟩ := Option.bind_eq_some_iff.mp h
  obtain ⟨-, hrestore⟩ := Prod.mk.inj (Option.some.inj hrestore)
  obtain ⟨-, rfl⟩ := Prod.mk.inj hrestore
  rw [← free_buffer]
  exact ⟨proc, hpeek, rfl, rfl⟩

/-- The instructions of a start do to the registers what the start does, and save what was
in them. -/
theorem kcallProcStart_insns (core : Interrupts.Core (BitVec 64)) {sp elr : BitVec 64} {rs rs' : Frame}
    (hreads : core.ReadsAll (k.kprocStartInsns sp elr))
    (h : { k with spEl0 := sp, elrEl1 := elr }.kcallProcStart ops progs rs = some (rs', k')) :
    { k with spEl0 := core.spEl0, elrEl1 := core.elr }.kcallProcStart ops progs rs =
      some (rs', { k' with
        spEl0 := (core.execAll (k.kprocStartInsns sp elr)).spEl0
        elrEl1 := (core.execAll (k.kprocStartInsns sp elr)).elr }) := by
  by_cases hfull : k.stack.full = true
  · rw [kcallProcStart_of_stack_full (k := { k with spEl0 := sp, elrEl1 := elr }) ops progs hfull] at h
    obtain ⟨rfl, rfl⟩ := Prod.mk.inj (Option.some.inj h)
    rw [kprocStartInsns, if_pos hfull, kcallProcStart_of_stack_full
      (k := { k with spEl0 := core.spEl0, elrEl1 := core.elr }) ops progs hfull]
    rfl
  · rw [kprocStartInsns, if_neg hfull] at hreads ⊢
    -- the parent is saved with what the core had in its registers
    obtain ⟨rfl, rfl, -⟩ : core.spEl0 = sp ∧ core.elr = elr ∧ _ := hreads
    obtain ⟨hsp, helr⟩ := kcallProcStart_registers (k := { k with
      spEl0 := core.spEl0, elrEl1 := core.elr }) hfull h
    obtain ⟨stack, memory, ttbr0, spEl0, elrEl1⟩ := k'
    obtain rfl : spEl0 = progOffset := hsp
    obtain rfl : elrEl1 = progOffset := helr
    exact h

theorem kcallProcExit_insns (core : Interrupts.Core (BitVec 64)) {rs rs' : Frame}
    (h : k.kcallProcExit ops rs = some (rs', k')) :
    { k with spEl0 := core.spEl0, elrEl1 := core.elr }.kcallProcExit ops rs =
      some (rs', { k' with
        spEl0 := (core.execAll k.kprocExitInsns).spEl0, elrEl1 := (core.execAll k.kprocExitInsns).elr }) := by
  by_cases hlast : k.kprocCount = 1
  · rw [kcallProcExit_of_last ops hlast] at h
    obtain ⟨rfl, rfl⟩ := Prod.mk.inj (Option.some.inj h)
    rw [kprocExitInsns, if_pos hlast]
    exact kcallProcExit_of_last ops (k := { k with spEl0 := core.spEl0, elrEl1 := core.elr }) hlast rs
  · obtain ⟨⟨status, rs₁, k₁⟩, hexit, heq⟩ := Option.map_eq_some_iff.mp h
    obtain ⟨rfl, rfl⟩ := Prod.mk.inj heq
    obtain ⟨proc, hpeek, hsp, helr⟩ := kprocExit_registers hlast hexit
    rw [kcallProcExit, kprocExit_of_deep hlast, hexit, Option.map_some, kprocExitInsns, if_neg hlast, hpeek]
    simp only [Interrupts.Core.execAll, kprocRestoreInsns, List.foldl_cons, List.foldl_nil,
      Interrupts.Core.exec, ← hsp, ← helr]

end ProcKernel

namespace CoreMachine

variable {M : Type} {ops : MemoryOps M} {progs : KprocProgTab} {vector : BitVec 64}
  {m m₀ m' : CoreMachine M} {block : CoreBlock} {blocks : List CoreBlock}

/-- What a block is to the processes: the step it stands for, or nothing. Interrupts come
neither into calls nor into one another. -/
structure Refines (ops : MemoryOps M) (progs : KprocProgTab) (m : CoreMachine M) (block : CoreBlock)
    (m' : CoreMachine M) : Prop where
  inside : .irq ∉ block.inside
  pstate : m'.core.pstate = m.core.pstate
  own : block.procEvent = none → m'.machine = m.machine
  step : ∀ e, block.procEvent = some e → Machine.Step ops progs m.machine e m'.machine

theorem Step.refines (h : Step ops progs vector m block m') : Refines ops progs m block m' := by
  cases h with
  | user rs sp pc =>
    refine ⟨List.not_mem_nil, rfl, fun hnone => (nomatch hnone), fun e he => ?_⟩
    obtain rfl := Option.some.inj he
    exact .user m.machine rs sp pc
  | irq hhandler hrun =>
    obtain ⟨hinside, -, rfl⟩ := hhandler.served hrun
    exact ⟨hinside, rfl, fun _ => rfl, fun e he => nomatch he⟩
  | @start code core sp elr rs kernel hprog hcode hrun hcall =>
    have hkeeps : .msrDaif false ∉ m.kernel.kprocStartInsns sp elr := by
      unfold ProcKernel.kprocStartInsns
      split <;> simp [ProcKernel.kprocSuspendInsns, ProcKernel.kprocInitInsns]
    obtain ⟨hinside, hreads, rfl⟩ := hcode.call hkeeps hrun
    have hatomic := ProcKernel.kcallProcStart_insns (m.core.take vector) hreads hcall
    refine ⟨hinside, rfl, fun hnone => (nomatch hnone), fun e he => ?_⟩
    obtain rfl := Option.some.inj he
    exact .start hprog hatomic
  | @exit code core rs kernel hcode hrun hcall =>
    have hkeeps : .msrDaif false ∉ m.kernel.kprocExitInsns := by
      unfold ProcKernel.kprocExitInsns
      split
      · exact List.not_mem_nil
      · split <;> simp [ProcKernel.kprocRestoreInsns]
    obtain ⟨hinside, -, rfl⟩ := hcode.call hkeeps hrun
    have hatomic := ProcKernel.kcallProcExit_insns (m.core.take vector) hcall
    refine ⟨hinside, rfl, fun hnone => (nomatch hnone), fun e he => ?_⟩
    obtain rfl := Option.some.inj he
    exact .exit hatomic

/-- Interrupts do not show. In every run of programs, calls and interrupts, with interrupts
requested at any time, also in the middle of calls, none is served within a call or within
another interrupt, programs always run in the mode the first one ran in, and the processes,
with the stack pointer and the place the core has for the running program, go through a run
of the calls taken as single steps. -/
theorem interrupts_hidden (hrun : Exec (Step ops progs vector) m₀ blocks m) :
    (∀ block ∈ blocks, .irq ∉ block.inside) ∧ m.core.pstate = m₀.core.pstate ∧
      Exec (Machine.Step ops progs) m₀.machine (blocks.filterMap CoreBlock.procEvent) m.machine := by
  induction hrun with
  | nil => exact ⟨fun _ hmem => absurd hmem List.not_mem_nil, rfl, .nil⟩
  | @snoc blocks block m m' _ hstep ih =>
    obtain ⟨hinside, hpstate, hmachine⟩ := ih
    obtain ⟨hinside', hpstate', hown, hproc⟩ := hstep.refines
    refine ⟨fun block' hmem => ?_, hpstate'.trans hpstate, ?_⟩
    · rcases List.mem_append.mp hmem with hmem | hmem
      · exact hinside block' hmem
      · rwa [List.mem_singleton.mp hmem]
    · rw [List.filterMap_append]
      cases he : block.procEvent with
      | none => simpa [he, hown he] using hmachine
      | some e => simpa [he] using hmachine.snoc (hproc e he)

/-- The only process, on its first instruction. -/
def firstMachine : CoreMachine Unit where
  core :=
    { pc := ProcKernel.progOffset, pstate := ⟨.el0t, false⟩, spEl0 := ProcKernel.progOffset
      elr := ProcKernel.progOffset, spsr := some ⟨.el0t, false⟩ }
  kernel := { Machine.noProcess with stack := { Machine.noProcess.stack with len := 1 } }
  rs _ := 0

/-- The instructions of a start between which there is nothing else. -/
def plainStart : List (Interrupts.Event (BitVec 64)) :=
  [.insn (.mrsSpEl0 ProcKernel.progOffset), .insn (.mrsElr ProcKernel.progOffset),
    .insn (.msrSpEl0 ProcKernel.progOffset), .insn (.msrElr ProcKernel.progOffset)]

theorem interrupts_hidden_firstMachine : ∃ m : CoreMachine Unit,
    (∀ block ∈ [CoreBlock.irq [.code], .start plainStart], .irq ∉ block.inside) ∧
      m.core.pstate = firstMachine.core.pstate ∧
      Exec (Machine.Step Machine.oneTable Machine.noText) firstMachine.machine
        ([CoreBlock.irq [.code], .start plainStart].filterMap CoreBlock.procEvent) m.machine := by
  have hirq : Exec (Interrupts.Step 0) firstMachine.core [.irq, .code, .eret] firstMachine.core :=
    ((Exec.nil.snoc (.irq rfl)).snoc (.code _ 0)).snoc (.eret rfl)
  have hcode : Interrupted (firstMachine.kernel.kprocStartInsns ProcKernel.progOffset ProcKernel.progOffset)
      plainStart :=
    (((Interrupted.nil.insn _).insn _).insn _).insn _
  have hstart : Exec (Interrupts.Step 0) firstMachine.core (.svc :: (plainStart ++ [.eret])) _ :=
    (((((Exec.nil.snoc (.svc _)).snoc (.insn 0 rfl)).snoc (.insn 0 rfl)).snoc (.insn 0 trivial)).snoc
      (.insn 0 trivial)).snoc (.eret rfl)
  have hblock : Step Machine.oneTable Machine.noText 0 firstMachine (.irq [.code]) firstMachine :=
    .irq (.code .nil) hirq
  exact ⟨_, interrupts_hidden ((Exec.nil.snoc hblock).snoc (.start (by decide) hcode hstart rfl))⟩

end CoreMachine

/-! ## The first program -/

namespace ProcKernel

variable {M : Type} {ops : MemoryOps M} {progs : KprocProgTab} {k k' : ProcKernel M}
  {vector : BitVec 64} {s s' : Interrupts.Core (BitVec 64)} {before after : List (Interrupts.Event (BitVec 64))}

/-- From `irq_unlock(key)` to where `kproc_init` sets the place of the program. -/
def irqUnlockInsns (key : Bool) : List (Interrupts.Insn (BitVec 64)) := [.msrDaif key, .msrSpEl0 progOffset]

/-- What happens from `irq_unlock` to the return in `kproc_exec`, in two parts: before and
after the place of the program is set. -/
def execEvents (before after : List (Interrupts.Event (BitVec 64))) : List (Interrupts.Event (BitVec 64)) :=
  before ++ .insn (.msrElr progOffset) :: (after ++ [.eret])

/-- How the return comes out. -/
structure ExecReturn (k' : ProcKernel M) (vector : BitVec 64) (s : Interrupts.Core (BitVec 64))
    (before after : List (Interrupts.Event (BitVec 64))) (s' : Interrupts.Core (BitVec 64)) : Prop where
  stack : s'.spEl0 = k'.spEl0
  /-- Without interrupts the mode is what the register held at the reset. -/
  alone : .irq ∉ before → .irq ∉ after → s.spsr = some s'.pstate
  /-- With one, it is the mode of the kernel. -/
  interrupted : .irq ∈ before ∨ .irq ∈ after → s'.pstate = ⟨.el1h, false⟩
  place : .irq ∉ after → s'.pc = k'.elrEl1
  /-- An interrupt in the second part brings the kernel back to where it was interrupted. -/
  back : .irq ∈ after → ∃ after₁ after₂ s₁, after = after₁ ++ .irq :: after₂ ∧
    Exec (Interrupts.Step vector) s (before ++ .insn (.msrElr progOffset) :: after₁) s₁ ∧ s'.pc = s₁.pc

theorem kprocExec_registers {progId : Nat} (h : k.kprocExec ops progs progId = some k') :
    k'.spEl0 = progOffset ∧ k'.elrEl1 = progOffset := by
  obtain ⟨prog, -, henter⟩ := Option.bind_eq_some_iff.mp h
  exact kprocEnter_registers henter

theorem execReturn {progId : Nat} (hexec : k.kprocExec ops progs progId = some k')
    (hlocked : s.pstate = ⟨.el1h, true⟩) {key : Bool} (hbefore : Interrupted (irqUnlockInsns key) before)
    (hafter : Interrupted [] after)
    (hrun : Exec (Interrupts.Step vector) s (execEvents before after) s') :
    k'.ExecReturn vector s before after s' := by
  obtain ⟨hsp, helr⟩ := kprocExec_registers hexec
  obtain ⟨s₁, hrun₁, hrest⟩ := hrun.of_append
  obtain ⟨s₂, hset, hrest⟩ := hrest.of_cons
  obtain ⟨s₃, hrun₃, hreturn⟩ := hrest.of_snoc
  obtain ⟨pstate, hspsr, rfl⟩ : ∃ pstate, s₃.spsr = some pstate ∧
      s' = { s₃ with pc := s₃.elr, pstate } := by
    cases hreturn with
    | eret hspsr => exact ⟨_, hspsr, rfl⟩
  have hset₂ := hset.insn_eq
  have hspsr₂ : s₂.spsr = s₁.spsr := by rw [hset₂, Interrupts.Core.exec_spsr]
  have helr₂ : s₂.elr = progOffset := by rw [hset₂]; rfl
  have hmode₂ : s₂.pstate.mode = .el1h := by
    obtain ⟨hpstate₁, -⟩ := hbefore.kept hrun₁
    rw [hset₂]
    refine (congrArg Interrupts.Pstate.mode hpstate₁).trans ((Interrupts.Core.execAll_mode _ _).trans ?_)
    rw [hlocked]
  have hstack : s₃.spEl0 = progOffset := by
    obtain ⟨-, hspEl0₁⟩ := hbefore.kept hrun₁
    obtain ⟨-, hspEl0₃⟩ := hafter.kept hrun₃
    rw [hspEl0₃, Interrupts.Core.execAll, List.foldl_nil, hset₂]
    exact hspEl0₁
  have hquiet : .irq ∉ after → s₃.elr = progOffset ∧ s₃.spsr = s₁.spsr := by
    intro hnone
    rw [hafter.alone hnone hrun₃]
    exact ⟨helr₂, hspsr₂⟩
  refine ⟨hstack.trans hsp.symm, fun hnone hnone' => ?_, fun hirq => ?_, fun hnone => ?_, fun hirq => ?_⟩
  · have halone : s₁.spsr = s.spsr := by
      rw [hbefore.alone hnone hrun₁]
      exact Interrupts.Core.execAll_spsr _ _
    rw [← halone, ← (hquiet hnone').2, hspsr]
  · have hleft : s₃.spsr = some ⟨.el1h, false⟩ := by
      by_cases hirq' : .irq ∈ after
      · rw [hafter.spsr hrun₃ hirq', hmode₂]
      · rw [(hquiet hirq').2, hbefore.spsr hrun₁ (hirq.resolve_right hirq'), hlocked]
    exact Option.some.inj (hspsr.symm.trans hleft)
  · exact (hquiet hnone).1.trans helr.symm
  · obtain ⟨after₁, after₂, s₄, rfl, hrun₄, hpc⟩ := hafter.elr (fun v => List.not_mem_nil) hrun₃ hirq
    refine ⟨after₁, after₂, s₄, rfl, ?_, hpc⟩
    simpa using (hrun₁.snoc hset).append hrun₄

/-- An interrupt as soon as `irq_unlock` lets it come, and none later. -/
def interruptedUnlock : List (Interrupts.Event (BitVec 64)) :=
  [.insn (.msrDaif false), .irq, .eret, .insn (.msrSpEl0 progOffset)]

theorem interruptedUnlock_interrupted : Interrupted (irqUnlockInsns false) interruptedUnlock :=
  ((Interrupted.nil.insn (.msrDaif false)).irq .nil).insn (.msrSpEl0 progOffset)

theorem exists_kernelMode (vector : BitVec 64) (hlocked : s.pstate = ⟨.el1h, true⟩) :
    ∃ s', Exec (Interrupts.Step vector) s (execEvents interruptedUnlock []) s' ∧
      s'.pc = progOffset ∧ s'.pstate = ⟨.el1h, false⟩ := by
  obtain ⟨pc, _, spEl0, elr, spsr⟩ := s
  obtain rfl := hlocked
  exact ⟨_, (((((Exec.nil.snoc (.insn pc trivial)).snoc (.irq rfl)).snoc (.eret rfl)).snoc
    (.insn pc trivial)).snoc (.insn pc trivial)).snoc (.eret rfl), rfl, rfl⟩

/-- The first program is entered from where interrupts have just been unmasked, and over every
course of interrupts from there on its stack pointer is its own. It runs in EL0 if no
interrupt comes and the mode that `SPSR_EL1` held at the reset, which nothing in the kernel
sets, was EL0. An interrupt before its place is set puts it into the mode of the kernel,
which can happen whatever the register held; an interrupt after that leads back into
`kproc_exec` in its place. -/
theorem first_program (ops : MemoryOps M) (progs : KprocProgTab) {progId : Nat}
    (hexec : k.kprocExec ops progs progId = some k') (hlocked : s.pstate = ⟨.el1h, true⟩)
    (vector : BitVec 64) :
    (∀ key before after s', Interrupted (irqUnlockInsns key) before → Interrupted [] after →
      Exec (Interrupts.Step vector) s (execEvents before after) s' →
      k'.ExecReturn vector s before after s') ∧
    ∃ before s', Interrupted (irqUnlockInsns false) before ∧
      Exec (Interrupts.Step vector) s (execEvents before []) s' ∧
      s'.pc = k'.elrEl1 ∧ s'.pstate = ⟨.el1h, false⟩ := by
  obtain ⟨s', hrun, hpc, hmode⟩ := exists_kernelMode vector hlocked
  obtain ⟨-, helr⟩ := kprocExec_registers hexec
  exact ⟨fun key before after s' hbefore hafter hrun => execReturn hexec hlocked hbefore hafter hrun,
    interruptedUnlock, s', interruptedUnlock_interrupted, hrun, hpc.trans helr.symm, hmode⟩

/-- The core at the end of `irq_lock`, as a reset that sets the saved state to EL0 leaves it. -/
def lockedCore : Interrupts.Core (BitVec 64) :=
  { pc := 0, pstate := ⟨.el1h, true⟩, spEl0 := 0, elr := 0, spsr := some ⟨.el0t, false⟩ }

theorem first_program_oneTable : ∃ k',
    Machine.noProcess.kprocExec Machine.oneTable Machine.noText 0 = some k' ∧
    (∀ key before after s', Interrupted (irqUnlockInsns key) before → Interrupted [] after →
      Exec (Interrupts.Step 0) lockedCore (execEvents before after) s' →
      k'.ExecReturn 0 lockedCore before after s') ∧
    ∃ before s', Interrupted (irqUnlockInsns false) before ∧
      Exec (Interrupts.Step 0) lockedCore (execEvents before []) s' ∧
      s'.pc = k'.elrEl1 ∧ s'.pstate = ⟨.el1h, false⟩ := by
  obtain ⟨k', hexec, -⟩ := kprocExec_spec Machine.oneTable Machine.noText (k := Machine.noProcess) rfl rfl
    (show 0 < kprocProgCount by decide)
  exact ⟨k', hexec, first_program Machine.oneTable Machine.noText hexec rfl 0⟩

end ProcKernel
end PiVOS
