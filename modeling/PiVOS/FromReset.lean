-- SUMMARY: From the reset to the runs of programs: what the boot code leaves is what isolation rests on.
import PiVOS.Boot.StartRuns
import PiVOS.ProcIsolation

/-!
# From the reset

The boot code hands its memory to `memory_init`, and the translation table base it has set up
stays that of the kernel's half. What is shown of the runs of programs from a booted kernel
on thus holds from the reset on, whatever was in the memory and in the registers.
-/

namespace PiVOS
namespace Boot

variable {ι : Type} [DecidableEq ι] {cores : ι → Core} {first : ι}

/-- After enough turns the first core has entered the kernel, and memory is as it left it. -/
theorem Reset.enters (hreset : Reset cores first) (l : Layout) (mem : Nat → Nat)
    (hel : (cores first).sys .currentEl &&& 0xc = 0x8) :
    ∃ n, ∀ schedule, n ≤ schedule.count first →
      Entered l (cores first) ((turns (step l) schedule (cores, mem)).1 first) ∧
        (turns (step l) schedule (cores, mem)).2 =
          setupTables (l.cleared mem) (setKernelSpace l.mmuSpaceStart) := by
  obtain ⟨n, c', hrun, hentered⟩ :=
    enter_steps l mem (hreset.pc first) ((hreset.number first).mpr rfl) (hreset.off first) hel
  have hstop : step l (c', setupTables (l.cleared mem) (setKernelSpace l.mmuSpaceStart)) = none := by
    rw [step]
    simp only [hentered.pc]
  refine ⟨n, fun schedule hge => ?_⟩
  have hend := (hreset.alone l mem schedule).1.trans (Turns.stepsUpTo_of_stopped hrun hstop hge)
  obtain ⟨hcore, hmem⟩ := Prod.mk.inj hend
  rw [hcore]
  exact ⟨hentered, hmem⟩

/-- What the boot code clears contains the tables it builds. -/
theorem Layout.cleared_tables (l : Layout) (mem : Nat → Nat) {w : Nat}
    (hlo : (l.mmuSpaceEnd - 3 * 4096) / 8 ≤ w) (hhi : w < l.mmuSpaceEnd / 8) : l.cleared mem w = 0 := by
  obtain ⟨-, hpage, -⟩ := l.bssEnd_lt
  have hspace : l.mmuSpaceEnd = l.mmuSpaceStart + 4096 * 3 := rfl
  exact cleared_eq_zero (by omega) (by omega)

theorem Layout.memoryInit_eq (l : Layout) (memory : Nat → BitVec 64) (mem : Nat → Nat) :
    memoryInit memory (setupTables mem (setKernelSpace l.mmuSpaceStart)) (setKernelSpace l.mmuSpaceStart)
      (setKernelSpace l.mmuSpaceEnd) (4 * gbInB) = bootMemory memory mem l.mmuSpaceEnd := by
  have hstart : PiVOS.mmuSpaceStart l.mmuSpaceEnd = setKernelSpace l.mmuSpaceStart :=
    congrArg setKernelSpace (Nat.add_sub_cancel ..)
  rw [bootMemory, hstart]

/-- What holds once the first core is in the kernel, as it is in `c`: from the memory the core
has found it sets up, and whatever programs do from then on stays isolated. -/
structure RunsIsolated (l : Layout) (b : Board) (progs : KprocProgTab) (c : Core) (mem : Nat → Nat)
    (memory : Nat → BitVec 64) : Prop where
  entered : c.pc = .kernel (Layout.symbol l.kernelMain)
  runs : ∀ k₀ : ProcKernel Memory, k₀.stack.capacity = kprocMaxCount → k₀.stack.len = 0 →
    k₀.memory = memoryInit memory mem (setKernelSpace l.mmuSpaceStart) (setKernelSpace l.mmuSpaceEnd)
      (4 * gbInB) →
    ∃ kdevs kcalls k,
      Kernel.setupDevices b (Memory.kernelOps (c.sys .ttbr1El1).toNat) = some (2, kdevs) ∧
      Kernel.setupSyscalls (Memory.kernelOps (c.sys .ttbr1El1).toNat) progs kdevs = some (4, kcalls) ∧
      k₀.kprocExec (Memory.kernelOps (c.sys .ttbr1El1).toNat) progs 0 = some k ∧
      ∀ (uart : DevUart) (rs : Frame) (es : List UserEvent) (m : UserMachine),
        Exec (UserMachine.Step kcalls (c.sys .ttbr1El1).toNat) ⟨{ proc := k, uart }, rs⟩ es m →
        UserMachine.RunIsolated l.mmuSpaceEnd k₀.memory kcalls (c.sys .ttbr1El1).toNat
          ⟨{ proc := k, uart }, rs⟩ es m

/-- From the reset on, for any number of cores in any order, any memory and registers with the MMU
off, and any linked image that ends in the first MB: a first core that comes up in EL2 enters the kernel,
sets up its devices and calls and enters the first program, and over every run of programs
from there they do not reach the memory of the kernel and suspended programs keep theirs. -/
theorem runs_from_reset (hreset : Reset cores first) (hel : (cores first).sys .currentEl &&& 0xc = 0x8)
    (l : Layout) (hlow : 0x80000 < l.mmuSpaceEnd) (hhigh : l.mmuSpaceEnd ≤ 0x100000) (b : Board)
    (progs : KprocProgTab) (hfits : ∀ prog, kprocProgOffset + (progs prog).length ≤ kprocRegion.size)
    (mem : Nat → Nat) (memory : Nat → BitVec 64) :
    ∃ n, ∀ schedule, n ≤ schedule.count first →
      RunsIsolated l b progs ((turns (step l) schedule (cores, mem)).1 first)
        (turns (step l) schedule (cores, mem)).2 memory := by
  obtain ⟨n, henters⟩ := hreset.enters l mem hel
  refine ⟨n, fun schedule hge => ?_⟩
  obtain ⟨hentered, hmem⟩ := henters schedule hge
  refine ⟨hentered.pc, fun k₀ hcap hempty hk₀ => ?_⟩
  obtain ⟨-, hpage, -⟩ := l.bssEnd_lt
  have hspace : l.mmuSpaceEnd = l.mmuSpaceStart + 4096 * 3 := rfl
  have hmemory : k₀.memory = bootMemory memory (l.cleared mem) l.mmuSpaceEnd := by
    rw [hk₀, hmem, l.memoryInit_eq]
  have httbr1 : ((turns (step l) schedule (cores, mem)).1 first).sys .ttbr1El1 =
      BitVec.ofNat 64 l.mmuSpaceStart := hentered.ttbr1
  have httbr1' : (((turns (step l) schedule (cores, mem)).1 first).sys .ttbr1El1).toNat =
      l.mmuSpaceEnd - 3 * 4096 := by
    rw [httbr1, BitVec.toNat_ofNat, Nat.mod_eq_of_lt (by omega)]
    omega
  have hpage' : l.mmuSpaceEnd % 4096 = 0 := by omega
  obtain ⟨first', kdevs, kcalls, k, hsetup, hsetup', hexec, h⟩ := UserMachine.exists_booted memory
    (l.cleared mem) b progs (fun prog => (hfits prog).trans UserMachine.kprocRegion_size_le) hpage' hlow hhigh
    (fun w hlo hhi => l.cleared_tables mem hlo hhi) hcap hempty hmemory httbr1'
  rw [hmemory]
  exact ⟨kdevs, kcalls, k, hsetup, hsetup', hexec, fun uart rs es m hrun =>
    h.runIsolated (fun prog => (hfits prog).trans UserMachine.kprocRegion_size_le) hrun⟩

theorem runs_from_reset_fourCores : ∃ n, ∀ schedule, n ≤ schedule.count ⟨0, by decide⟩ →
    RunsIsolated smallLayout UartSession.slowBoard Machine.noText
      ((turns (step smallLayout) schedule (fourCores, fun _ => 0)).1 ⟨0, by decide⟩)
      (turns (step smallLayout) schedule (fourCores, fun _ => 0)).2 fun _ => 0 :=
  runs_from_reset fourCores_reset (by decide) smallLayout (by decide) (by decide)
    UartSession.slowBoard Machine.noText (fun _ => show kprocProgOffset ≤ kprocRegion.size by decide)
    (fun _ => 0) fun _ => 0

end Boot
end PiVOS
