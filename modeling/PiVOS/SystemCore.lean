-- SUMMARY: The core that runs programs: exceptions through the vector code, and what a program gets back.
import PiVOS.Int.Trap
import PiVOS.ProcFresh
import PiVOS.SystemRuns

/-!
# The core

The registers of the core and the memory its stack is in join the system. While a program
runs the kernel's stack is empty, so nothing is assumed about it; an exception runs the
vector code down to the C function of its type and back. Every run of the core is one of the
system, and every start and exit is one of the process machine.
-/

namespace PiVOS

namespace Kernel

variable {M : Type} {b : Board} {ops : MemoryOps M} {progs : KprocProgTab} {kdevs : Kdevs (Kernel M)}
  {kcalls : Kcalls (Kernel M)} {s s' : Kernel M}

/-- Of the calls two touch the process table, as the exit and the start of a process do. -/
theorem kcallDispatch_cases (hdevs : kdevs.Lists (devices b ops))
    (hcalls : kcalls.Lists (calls ops progs kdevs)) {esr : Nat} {rs rs' : Frame}
    (h : kcallDispatch kcalls esr s rs = some (rs', s')) :
    (callIdOf esr = 0 ∧ Machine.Step ops progs ⟨s.proc, rs⟩ .exit ⟨s'.proc, rs'⟩) ∨
    (callIdOf esr = 1 ∧ Machine.Step ops progs ⟨s.proc, rs⟩ .start ⟨s'.proc, rs'⟩) ∨
    (1 ≤ callIdOf esr ∧ s'.proc.stack = s.proc.stack) := by
  by_cases hsize : callIdOf esr = kcallBufferSize
  · rw [kcallDispatch_of_size hsize] at h
    cases h
  rcases Nat.lt_or_ge (callIdOf esr) 5 with hlt | hge
  · obtain hid | hid | hio : callIdOf esr = 0 ∨ callIdOf esr = 1 ∨ 2 ≤ callIdOf esr := by omega
    · rw [kcallDispatch_of_bound (hcalls.bound (calls_procExit ops progs kdevs hid))] at h
      obtain ⟨⟨rs₁, proc⟩, hexit, heq⟩ := Option.map_eq_some_iff.mp h
      obtain ⟨rfl, rfl⟩ := Prod.mk.inj heq
      exact .inl ⟨hid, .exit hexit⟩
    · rw [kcallDispatch_of_bound (hcalls.bound (calls_procStart ops progs kdevs hid))] at h
      obtain ⟨⟨rs₁, proc⟩, hstart, heq⟩ := Option.map_eq_some_iff.mp h
      obtain ⟨rfl, rfl⟩ := Prod.mk.inj heq
      rcases ProcKernel.kcallProcStart_cases hstart with ⟨-, rfl⟩ | hprog
      · exact .inr (.inr ⟨hid.ge, rfl⟩)
      · exact .inr (.inl ⟨hid, .start hprog hstart⟩)
    · obtain ⟨va, bytes, hproc⟩ := kcallDispatch_copiesOnly hdevs hcalls ⟨hio, hlt⟩ h
      exact .inr (.inr ⟨Nat.le_of_succ_le hio, by rw [hproc]⟩)
  · rw [kcallDispatch_of_unknown hcalls hge hsize] at h
    obtain ⟨-, rfl⟩ := Prod.mk.inj (Option.some.inj h)
    exact .inr (.inr ⟨by omega, rfl⟩)

end Kernel

structure Core (M : Type) where
  cpu : Cpu
  system : System M

inductive CoreEvent (M : Type)
  | program (x : Fin 31 → BitVec 64) (stack : Nat → BitVec 64) (memory : M) (spEl0 elrEl1 : BitVec 64)
  | uart (m : UartMove)
  | time (n : Nat)
  | trap (inputs : HardwareInputs) (type : IntType) (esr : Nat)

namespace Core

variable {M : Type} {b : Board} {ops : MemoryOps M} {progs : KprocProgTab}

/-- As in the system, with the registers of the core in the place of a given frame. -/
inductive Step (b : Board) (tables : System.Tables M) : Core M → CoreEvent M → Core M → Prop
  | program (c : Core M) (x : Fin 31 → BitVec 64) (stack : Nat → BitVec 64) (memory : M)
      (spEl0 elrEl1 : BitVec 64) :
    Step b tables c (.program x stack memory spEl0 elrEl1)
      { cpu := { c.cpu with x, mem := stack }
        system := { c.system with
          kernel := { c.system.kernel with
            proc := { c.system.kernel.proc with memory, spEl0, elrEl1 } } } }
  | uart (c : Core M) (m : UartMove) :
    Step b tables c (.uart m) { c with system := { c.system with
      kernel := { c.system.kernel with
        uart := { c.system.kernel.uart with reg := c.system.kernel.uart.reg.move b m } } } }
  | time (c : Core M) (n : Nat) : Step b tables c (.time n) { c with system := { c.system with
      timer := c.system.timer.tick n } }
  | trap {c : Core M} {inputs : HardwareInputs} {type : IntType} {esr : Nat} {cpu' : Cpu} {s' : System M}
      (htype : System.OfProgram type) (hown : type = .lowElAarch64Sync → System.OwnBuffer esr c.cpu.regs)
      (h : Trap tables.tab type esr c.cpu { c.system with inputs } cpu' s') :
    Step b tables c (.trap inputs type esr) ⟨cpu', s'⟩

/-- What a process finds again: its stack pointer, where it goes on, its general registers. -/
structure UserRegs where
  x : Fin 31 → BitVec 64
  spEl0 : BitVec 64
  elrEl1 : BitVec 64

def userRegs (c : Core M) : UserRegs :=
  ⟨c.cpu.x, c.system.kernel.proc.spEl0, c.system.kernel.proc.elrEl1⟩

def proc (c : Core M) : ProcKernel M := c.system.kernel.proc

/-- The number of processes. -/
def count (c : Core M) : Nat := c.proc.stack.len

/-- The number of suspended processes. -/
def depth (c : Core M) : Nat := c.count - 1

/-- The process machine of the core: the processes, with the registers as the vector code
stores them. -/
def machine (c : Core M) : Machine M := ⟨c.proc, c.cpu.regs⟩

/-- The invariant: a running system with room for a frame on the kernel's stack. -/
structure Good (b : Board) (ops : MemoryOps M) (progs : KprocProgTab) (kcalls₀ : Kcalls (Kernel M))
    (gic : Gic) (sp : Nat) (c : Core M) : Prop where
  running : System.Running b ops progs kcalls₀ gic c.system
  ready : c.cpu.StackReady
  sp : c.cpu.sp = sp

section Steps

variable {tables : System.Tables M} {s₀ s₁ : System M} {kdevs₀ : Kdevs (Kernel M)}
  {kcalls₀ : Kcalls (Kernel M)} {sp : Nat} {c c' : Core M}
  (hdevs₀ : kdevs₀.Lists (Kernel.devices b ops))
  (hcalls₀ : kcalls₀.Lists (Kernel.calls ops progs kdevs₀))
  (hpower : System.PowerOn b s₀) (hsetup : System.SetUp b ops progs s₀ tables s₁)

/-- Every step of the core is one of the system. -/
theorem Step.system {e : CoreEvent M} (hready : c.cpu.StackReady) (h : Step b tables c e c') :
    (∃ e', System.Step b tables c.system e' c'.system) ∧ c'.cpu.sp = c.cpu.sp := by
  cases h with
  | program x stack memory spEl0 elrEl1 => exact ⟨⟨_, .program _ memory spEl0 elrEl1⟩, rfl⟩
  | uart m => exact ⟨⟨_, .uart _ m⟩, rfl⟩
  | time n => exact ⟨⟨_, .time _ n⟩, rfl⟩
  | trap htype hown h =>
    obtain ⟨frame, hcall, hresumed⟩ := h.refines hready
    exact ⟨⟨_, .exception htype hown hcall⟩, hresumed.sp⟩

include hdevs₀ hcalls₀ hpower hsetup

theorem Good.step {e : CoreEvent M} (h : Good b ops progs kcalls₀ s₁.gic sp c)
    (hstep : Step b tables c e c') : Good b ops progs kcalls₀ s₁.gic sp c' := by
  obtain ⟨⟨e', hsystem⟩, hsp⟩ := hstep.system h.ready
  obtain ⟨haligned, hroom, hlt⟩ := h.ready
  rw [← hsp] at haligned hroom hlt
  exact ⟨h.running.step hdevs₀ hcalls₀ hsetup hpower.zero hpower.active hsystem, ⟨haligned, hroom, hlt⟩,
    hsp.trans h.sp⟩

/-- What a step can do to the process table: nothing, or what the call it traps for does. -/
theorem Good.cases {e : CoreEvent M} (h : Good b ops progs kcalls₀ s₁.gic sp c)
    (hstep : Step b tables c e c') :
    (c'.proc.stack = c.proc.stack ∧
      ∀ inputs esr, e = .trap inputs .lowElAarch64Sync esr → 1 ≤ callIdOf esr) ∨
    ∃ inputs esr, e = .trap inputs .lowElAarch64Sync esr ∧
      (callIdOf esr = 0 ∧ Machine.Step ops progs c.machine .exit c'.machine ∨
        callIdOf esr = 1 ∧ Machine.Step ops progs c.machine .start c'.machine) := by
  cases hstep with
  | program x stack memory spEl0 elrEl1 => exact .inl ⟨rfl, fun _ _ he => nomatch he⟩
  | uart m => exact .inl ⟨rfl, fun _ _ he => nomatch he⟩
  | time n => exact .inl ⟨rfl, fun _ _ he => nomatch he⟩
  | @trap inputs type esr cpu' s' htype hown htrap =>
    obtain ⟨frame, hcall, hresumed⟩ := htrap.refines h.ready
    obtain ⟨hirq, -, hserves⟩ | ⟨rfl, kernel, hkcall, rfl⟩ | ⟨-, hsync, -, rfl⟩ :=
      h.running.exception_cases hdevs₀ hcalls₀ hsetup hpower.zero hpower.active hcall
    · refine .inl ⟨congrArg ProcKernel.stack hserves.proc, fun _ _ he => ?_⟩
      injection he with _ htype _
      rw [htype] at hirq
      exact absurd hirq (by decide)
    · rcases Kernel.kcallDispatch_cases hdevs₀ hcalls₀ hkcall with ⟨hid, hexit⟩ | ⟨hid, hstart⟩ | ⟨hid, hstack⟩
      · rw [← hresumed.regs] at hexit
        exact .inr ⟨inputs, esr, rfl, .inl ⟨hid, hexit⟩⟩
      · rw [← hresumed.regs] at hstart
        exact .inr ⟨inputs, esr, rfl, .inr ⟨hid, hstart⟩⟩
      · refine .inl ⟨hstack, fun _ _ he => ?_⟩
        injection he with _ _ hesr
        rwa [← hesr]
    · refine .inl ⟨rfl, fun _ _ he => ?_⟩
      injection he with _ htype _
      exact absurd htype hsync

omit hpower hsetup in
theorem Good.live (h : Good b ops progs kcalls₀ s₁.gic sp c) : c.proc.Live :=
  (h.running.kernel.ready hdevs₀ hcalls₀).live

end Steps

/-- The user state the kernel has saved for process `d`. -/
def slot (c : Core M) (d : Nat) : SuspendState := (c.proc.stack.buffer d).suspend

section Nested

variable {tables : System.Tables M} {s₀ s₁ : System M} {kdevs₀ : Kdevs (Kernel M)}
  {kcalls₀ : Kcalls (Kernel M)} {c₀ c : Core M} {es : List (CoreEvent M)}
  (hdevs₀ : kdevs₀.Lists (Kernel.devices b ops))
  (hcalls₀ : kcalls₀.Lists (Kernel.calls ops progs kdevs₀))
  (hpower : System.PowerOn b s₀) (hsetup : System.SetUp b ops progs s₀ tables s₁) (sp : Nat)

/-- The process table as a record of suspended user states, in runs of the core. -/
def nesting : Nesting (Step b tables) where
  Snapshot := SuspendState
  depth := depth
  snapshot c := c.machine.userState
  saved := slot
  Inv := Good b ops progs kcalls₀ s₁.gic sp
  inv_step _ _ _ h hstep := h.step hdevs₀ hcalls₀ hpower hsetup hstep
  cases := by
    intro c e c' h hstep
    have hlive : c.machine.kernel.Live := h.live hdevs₀ hcalls₀
    have hpos := hlive.pos
    rcases h.cases hdevs₀ hcalls₀ hpower hsetup hstep with ⟨hstack, -⟩ | ⟨_, _, -, hcall⟩
    · exact .inr ⟨by rw [depth, depth, count, count, hstack], fun d _ => by rw [slot, slot, hstack]⟩
    · obtain ⟨pe, hmachine⟩ : ∃ pe, Machine.Step ops progs c.machine pe c'.machine := by
        rcases hcall with ⟨-, hexit⟩ | ⟨-, hstart⟩
        · exact ⟨_, hexit⟩
        · exact ⟨_, hstart⟩
      exact (Machine.nesting ops progs).cases hlive hmachine

/-- `c₁` made the start that matches an exit from `c`: its child is the top process of `c`,
and the parent has been suspended ever since. -/
def MatchingStart (b : Board) (tables : System.Tables M) (c₀ : Core M) (es : List (CoreEvent M))
    (c c₁ : Core M) : Prop :=
  ∃ before inputs esr after c₂, es = before ++ .trap inputs .lowElAarch64Sync esr :: after ∧
    callIdOf esr = 1 ∧ Exec (Step b tables) c₀ before c₁ ∧
    Step b tables c₁ (.trap inputs .lowElAarch64Sync esr) c₂ ∧ depth c₂ = depth c₁ + 1 ∧
    depth c = depth c₁ + 1 ∧ ExecBelow (Step b tables) depth (depth c₁) c₂ after c

include hdevs₀ hcalls₀ hpower hsetup

variable {sp} {c' : Core M}

/-- A step that goes deeper is a system call that starts a program. -/
theorem Good.start_of_deeper {e : CoreEvent M} (h : Good b ops progs kcalls₀ s₁.gic sp c)
    (hstep : Step b tables c e c') (hdeeper : depth c < depth c') :
    ∃ inputs esr, e = .trap inputs .lowElAarch64Sync esr ∧ callIdOf esr = 1 := by
  rcases h.cases hdevs₀ hcalls₀ hpower hsetup hstep with ⟨hstack, -⟩ | ⟨inputs, esr, he, ⟨-, hexit⟩ | ⟨hid, -⟩⟩
  · rw [depth, depth, count, count, hstack] at hdeeper
    exact absurd hdeeper (Nat.lt_irrefl _)
  · exact nomatch hexit.eq_start (h.live hdevs₀ hcalls₀) hdeeper
  · exact ⟨inputs, esr, he, hid⟩

theorem MatchingStart.of_leftAt (h₀ : Good b ops progs kcalls₀ s₁.gic sp c₀) {c₁ : Core M}
    (h : (nesting hdevs₀ hcalls₀ hpower hsetup sp).LeftAt c₀ es c (depth c - 1) c₁) (hdeep : 1 ≤ depth c) :
    MatchingStart b tables c₀ es c c₁ := by
  obtain ⟨⟨before, e, after, c₂, hes, hbefore, hpush, hdepth, hafter⟩, hc₁⟩ := h
  have hc₁' : depth c₁ = depth c - 1 := hc₁
  have h₁ : Good b ops progs kcalls₀ s₁.gic sp c₁ :=
    hbefore.invariant (nesting hdevs₀ hcalls₀ hpower hsetup sp).inv_step h₀
  have hdepth' : depth c₂ = depth c₁ + 1 := hc₁' ▸ hdepth
  obtain ⟨inputs, esr, rfl, hid⟩ := h₁.start_of_deeper hdevs₀ hcalls₀ hpower hsetup hpush
    (hdepth' ▸ Nat.lt_succ_self _)
  exact ⟨before, inputs, esr, after, c₂, hes, hid, hbefore, hpush, hdepth', by omega, hc₁' ▸ hafter⟩

/-- Above the first process there is such a start, and its parent's user state is saved. -/
theorem exists_matchingStart (h₀ : Good b ops progs kcalls₀ s₁.gic sp c₀) (hone : count c₀ = 1)
    (hrun : Exec (Step b tables) c₀ es c) (hdeep : 2 ≤ count c) :
    ∃ c₁, MatchingStart b tables c₀ es c c₁ ∧ slot c (count c - 2) = c₁.machine.userState := by
  have hlow : depth c₀ ≤ count c - 2 := Nat.le_trans (Nat.sub_le_of_le_add hone.le) (Nat.zero_le _)
  obtain ⟨c₁, hleft, hsaved⟩ := (nesting hdevs₀ hcalls₀ hpower hsetup sp).saved_eq h₀ hrun hlow
    (Nat.sub_lt_sub_left hdeep (Nat.lt_succ_self 1))
  exact ⟨c₁, .of_leftAt hdevs₀ hcalls₀ hpower hsetup h₀ hleft (Nat.sub_le_sub_right hdeep 1), hsaved⟩

end Nested

/-! ## What a program gets back -/

/-- An interrupt of the program in `c` comes back, with all its registers and the processes as
they were. -/
def Interruptible (b : Board) (tables : System.Tables M) (c : Core M) : Prop :=
  ∀ inputs esr,
    (∃ c', Step b tables c (.trap inputs .lowElAarch64Irq esr) c') ∧
    ∀ c', Step b tables c (.trap inputs .lowElAarch64Irq esr) c' → c'.userRegs = c.userRegs ∧ c'.proc = c.proc

/-- The exit from `c` comes back to the registers of `c₁`, with 0 in `x0`. -/
def ResumesAs (b : Board) (tables : System.Tables M) (c c₁ : Core M) : Prop :=
  ∀ inputs esr, callIdOf esr = 0 →
    (∃ c', Step b tables c (.trap inputs .lowElAarch64Sync esr) c') ∧
    ∀ c', Step b tables c (.trap inputs .lowElAarch64Sync esr) c' → c'.count + 1 = c.count ∧
      c'.userRegs = { c₁.userRegs with x := fun i => if i.val = 0 then 0 else c₁.cpu.x i }

section Back

variable {tables : System.Tables M} {s₀ s₁ : System M} {kdevs₀ : Kdevs (Kernel M)}
  {kcalls₀ : Kcalls (Kernel M)} {sp : Nat} {c : Core M}
  (hdevs₀ : kdevs₀.Lists (Kernel.devices b ops))
  (hcalls₀ : kcalls₀.Lists (Kernel.calls ops progs kdevs₀))
  (hpower : System.PowerOn b s₀) (hsetup : System.SetUp b ops progs s₀ tables s₁)

theorem regs_castSucc (cpu : Cpu) (i : Fin 31) : cpu.regs i.castSucc = cpu.x i := dif_pos i.isLt

/-- What an exit leaves in the registers, from the user state `u` that was saved. -/
theorem userRegs_of_exited {c' c₁ : Core M} {k' : ProcKernel M} {rs' : Frame}
    (hexited : c.proc.Exited k' rs') (hproc : c'.proc = k') (hregs : c'.cpu.regs = rs')
    (hslot : slot c (count c - 2) = c₁.machine.userState) :
    c'.userRegs = { c₁.userRegs with x := fun i => if i.val = 0 then 0 else c₁.cpu.x i } := by
  have hrestored := hexited.restored
  have hslot' : (c.proc.stack.buffer (c.proc.stack.len - 2)).suspend = c₁.machine.userState := hslot
  rw [hslot', ← hproc, ← hregs] at hrestored
  obtain ⟨hsp, helr, hframe⟩ := SuspendState.mk.inj hrestored
  have hx : ∀ i, c'.cpu.x i = if i.val = 0 then 0 else c₁.cpu.x i := by
    intro i
    rw [← regs_castSucc, hframe]
    by_cases hi : i.val = 0
    · obtain rfl : i = 0 := Fin.ext hi
      rw [if_pos hi]
      exact Function.update_self ..
    · rw [if_neg hi, Frame.setStatus_castSucc _ _ fun hzero => hi (congrArg Fin.val hzero)]
      exact regs_castSucc c₁.cpu i
  rw [userRegs, userRegs, UserRegs.mk.injEq]
  exact ⟨funext hx, hsp, helr⟩

include hdevs₀ hcalls₀ hpower hsetup

theorem Good.interruptible (h : Good b ops progs kcalls₀ s₁.gic sp c) : Interruptible b tables c := by
  intro inputs esr
  have hhandles := h.running.handles hdevs₀ hcalls₀ hsetup hpower.zero hpower.active
  obtain ⟨s', hdispatch, hserves⟩ := hhandles.irq .lowElAarch64Irq (.inr rfl) inputs c.cpu.regs esr
  obtain ⟨cpu', htrap⟩ := Trap.of_dispatch h.ready hdispatch
  refine ⟨⟨_, .trap (.inr (.inl rfl)) (fun hsync => nomatch hsync) htrap⟩, fun c' hstep => ?_⟩
  cases hstep with
  | trap _ _ htrap' =>
    obtain ⟨frame, hdispatch', hresumed⟩ := htrap'.refines h.ready
    obtain ⟨rfl, rfl⟩ := Prod.mk.inj (Option.some.inj (hdispatch'.symm.trans hdispatch))
    have hx : ∀ i, _ := fun i => congrFun hresumed.regs (Fin.castSucc i)
    simp only [regs_castSucc] at hx
    have hproc := hserves.proc
    refine ⟨?_, hproc⟩
    simp only [userRegs, funext hx, hproc]

/-- The exit of a child whose parent was suspended in the state of `c₁`. -/
theorem Good.resumesAs (h : Good b ops progs kcalls₀ s₁.gic sp c) (hdeep : 2 ≤ count c) {c₁ : Core M}
    (hslot : slot c (count c - 2) = c₁.machine.userState) : ResumesAs b tables c c₁ := by
  intro inputs esr hid
  have hlive : c.machine.kernel.Live := h.live hdevs₀ hcalls₀
  obtain ⟨rs', k', hexit, hexited⟩ := ProcKernel.kcallProcExit_of_deep ops hlive hdeep c.cpu.regs
  constructor
  · have hkcall : kcallDispatch kcalls₀ esr c.system.kernel c.cpu.regs =
        some (rs', { c.system.kernel with proc := k' }) := by
      rw [kcallDispatch_of_bound (hcalls₀.bound (Kernel.calls_procExit ops progs kdevs₀ hid))]
      exact congrArg (Option.map _) hexit
    have hdispatch := ((h.running.withInputs inputs).handles hdevs₀ hcalls₀ hsetup hpower.zero
      hpower.active).call c.cpu.regs esr
    rw [(System.kernelLens.lift_eq_some).mpr ⟨_, hkcall, rfl⟩] at hdispatch
    obtain ⟨cpu', htrap⟩ := Trap.of_dispatch h.ready hdispatch
    exact ⟨_, .trap (.inl rfl) (fun _ => System.ownBuffer_of_lt (by omega) _) htrap⟩
  · intro c' hstep
    obtain ⟨-, hcall⟩ | ⟨_, _, he, ⟨-, hstep'⟩ | ⟨hid', -⟩⟩ := h.cases hdevs₀ hcalls₀ hpower hsetup hstep
    · have := hcall inputs esr rfl
      omega
    · cases hstep' with
      | exit hexit' =>
        obtain ⟨hregs, hproc⟩ := Prod.mk.inj (Option.some.inj (hexit'.symm.trans hexit))
        refine ⟨?_, userRegs_of_exited hexited hproc hregs hslot⟩
        rw [count, hproc, hexited.len]
        rfl
    · injection he with _ _ hesr
      rw [← hesr, hid] at hid'
      cases hid'

end Back

/-- Programs on the core keep their registers. From the entry of the first program on, with any
registers and any room on the kernel's stack, along every interleaving of devices, of programs
that keep to their own half and of their exceptions: an exception leaves the kernel's stack
pointer where it was; an interrupt comes back with every register of the program, its stack
pointer and its place as they were; and the exit of a child comes back to the registers with
which its parent made the matching start, with 0 in `x0`. -/
theorem registers_kept (b : Board) (ops : MemoryOps M) (progs : KprocProgTab) {s₀ : System M}
    (hpower : System.PowerOn b s₀) {cpu : Cpu} (hready : cpu.StackReady) :
    ∃ tables s₁, System.kernelMain b ops progs s₀ = some (tables, s₁) ∧
      ∀ es c, Exec (Step b tables) ⟨cpu, s₁⟩ es c →
        c.cpu.sp = cpu.sp ∧ Interruptible b tables c ∧
        (2 ≤ count c → ∃ c₁, MatchingStart b tables ⟨cpu, s₁⟩ es c c₁ ∧ ResumesAs b tables c c₁) := by
  obtain ⟨tables, s₁, hmain, hsetup⟩ := System.kernelMain_spec b ops progs hpower.capacity hpower.empty
  obtain ⟨kdevs₀, -, hdevs₀⟩ := Kernel.setupDevices_lists b ops
  obtain ⟨kcalls₀, -, hcalls₀⟩ := Kernel.setupSyscalls_lists ops progs kdevs₀
  refine ⟨tables, s₁, hmain, fun es c hrun => ?_⟩
  have h₀ : Good b ops progs kcalls₀ s₁.gic cpu.sp ⟨cpu, s₁⟩ := ⟨hsetup.running hpower kcalls₀, hready, rfl⟩
  have hgood : Good b ops progs kcalls₀ s₁.gic cpu.sp c :=
    hrun.invariant (fun _ _ _ h hstep => h.step hdevs₀ hcalls₀ hpower hsetup hstep) h₀
  have hone : count (⟨cpu, s₁⟩ : Core M) = 1 := by
    obtain ⟨k, hexec, -, hone⟩ := ProcKernel.kprocExec_spec ops progs hpower.capacity hpower.empty
      (show 0 < kprocProgCount by decide)
    obtain rfl : s₁.kernel.proc = k := Option.some.inj (hsetup.proc.symm.trans hexec)
    exact hone
  refine ⟨hgood.sp, hgood.interruptible hdevs₀ hcalls₀ hpower hsetup, fun hdeep => ?_⟩
  obtain ⟨c₁, hmatching, hslot⟩ := exists_matchingStart hdevs₀ hcalls₀ hpower hsetup h₀ hone hrun hdeep
  exact ⟨c₁, hmatching, hgood.resumesAs hdevs₀ hcalls₀ hpower hsetup hdeep hslot⟩

/-- A core with a kilobyte of stack. -/
def idleCpu : Cpu := { x := fun _ => 0, sp := 1024, mem := fun _ => 0 }

theorem registers_kept_idleCpu :
    ∃ tables s₁, System.kernelMain UartSession.slowBoard Machine.oneTable Machine.noText
        System.resetSystem = some (tables, s₁) ∧
      ∀ es c, Exec (Step UartSession.slowBoard tables) ⟨idleCpu, s₁⟩ es c →
        c.cpu.sp = idleCpu.sp ∧ Interruptible UartSession.slowBoard tables c ∧
        (2 ≤ count c → ∃ c₁, MatchingStart UartSession.slowBoard tables ⟨idleCpu, s₁⟩ es c c₁ ∧
          ResumesAs UartSession.slowBoard tables c c₁) :=
  registers_kept UartSession.slowBoard Machine.oneTable Machine.noText System.resetSystem_powerOn
    ⟨by decide, by decide, by decide⟩

end Core
end PiVOS
