-- SUMMARY: The whole of `main.c`: devices, interrupts and kernel calls set up, and what they dispatch to.
import PiVOS.Dev.GenericTimer
import PiVOS.Dev.Gicv2Irq
import PiVOS.Int
import PiVOS.Lib.Lens

/-!
# The system

The kernel with its interrupt controller and its timer. The tables hold the functions the
kernel has, acting on the system; they are filled once, before the first program.
-/

namespace PiVOS

/-- What the hardware gives at the next reads, and what the stack holds where the kernel
leaves it to chance. -/
structure HardwareInputs where
  gic : GicInputs
  timer : TimerInputs
  mis : BitVec 32

structure System (M : Type) where
  kernel : Kernel M
  gic : Gic
  timer : GenericTimer
  inputs : HardwareInputs

namespace System

variable {M : Type}

/-- The kernel proper, as a part of the system. -/
def kernelLens : Lens (System M) (Kernel M) where
  get := kernel
  set s kernel := { s with kernel }
  get_set _ _ := rfl
  set_get _ := rfl
  set_set _ _ _ := rfl

/-- An I/O device of the kernel in the system. -/
def liftIo (dev : KdevIo (Kernel M)) : KdevIo (System M) where
  write s src n := kernelLens.lift (fun kernel => dev.write kernel src n) s
  read s dst n := kernelLens.lift (fun kernel => dev.read kernel dst n) s
  poolOut s c := kernelLens.lift (fun kernel => dev.poolOut kernel c) s

/-- A handler of the kernel in the system. -/
def liftCall (call : KcallFn (Kernel M)) : KcallFn (System M) := fun s rs =>
  kernelLens.lift (fun kernel => call kernel rs) s

variable (b : Board) (ops : MemoryOps M) (progs : KprocProgTab)

/-! ## Interrupts -/

/-- The field `isr` of the devices: the controller has none, the others reset the timer and
move the bytes of the UART. -/
def isrOf : Kdev (System M) → Option (System M → Option (System M))
  | .gic => none
  | .timer => some fun s => (s.timer.kdevIsr s.inputs.timer).map fun timer => { s with timer }
  | .io _ => some fun s => (s.kernel.uart.kdevIsr b s.inputs.mis).map fun uart =>
      { s with kernel := { s.kernel with uart } }
  | .generic => none

/-- `gicv2_dispatch`. -/
def gicv2Dispatch (kdevs : Kdevs (System M)) : IntDispatchFn (System M) := fun rs _ s => do
  let (irqId, gic) := s.gic.getIrqId s.inputs.gic
  let s := { s with gic }
  let irqDevice ← s.gic.irqDevices[irqId]?
  let (_, s) ← kdevGenericIsr (isrOf b) kdevs irqDevice s
  return (rs, { s with gic := s.gic.endIsr s.inputs.gic irqId })

/-! ## Calls of the controller and of the timer -/

/-- What the calls of `kdev_gic_*` share: a device of another type is refused. -/
def kdevGic (kdevs : Kdevs (System M)) (devId : Int) (s : System M)
    (call : Gic → Option (Int × Gic)) : Option (Int × System M) := do
  let kdev ← ← kdevs.slot devId
  match kdev with
  | .gic => (call s.gic).map fun (status, gic) => (status, { s with gic })
  | _ => return (Kstatus.devInvalid, s)

def kdevGicRegisterIrq (kdevs : Kdevs (System M)) (devId : Int) (irqId : Nat) (irqDevId : Int)
    (params : DevGicv2Params) (s : System M) : Option (Int × System M) :=
  kdevGic kdevs devId s fun gic => gic.kdevRegisterIrq irqId irqDevId params

def kdevGicEnableIrq (kdevs : Kdevs (System M)) (devId : Int) (irqId : Nat) (s : System M) :
    Option (Int × System M) :=
  kdevGic kdevs devId s fun gic => gic.kdevEnableIrq irqId

/-- The dispatch function of the controller; none for a null pointer. -/
def kdevGicGetDispatch (kdevs : Kdevs (System M)) (devId : Int) : Option (IntDispatchFn (System M)) := do
  let kdev ← ← kdevs.slot devId
  match kdev with
  | .gic => return gicv2Dispatch b kdevs
  | _ => none

def kdevTimerSetAction (kdevs : Kdevs (System M)) (devId : Int) (action : TimerAction)
    (s : System M) : Option (Int × System M) := do
  let kdev ← ← kdevs.slot devId
  match kdev with
  | .timer => return (Kstatus.devTimerOk, { s with timer := s.timer.kdevSetAction action })
  | _ => return (Kstatus.devInvalid, s)

/-! ## Setup -/

/-- What the setup makes: the tables and the state. -/
structure Setup (M : Type) where
  kdevs : Kdevs (System M)
  tab : IntDispatchTab (System M)
  system : System M

def gicv2TimerParams : DevGicv2Params := { priority := 0, cpu := 1, trigger := 2 }
def gicv2UartParams : DevGicv2Params := { priority := 0, cpu := 1, trigger := 2 }

/-- `setup_devices`. The rings of the UART are in memory that holds zeros, its other
registers are not modelled. -/
def setupDevices (tab : IntDispatchTab (System M)) (s : System M) : Option (Int × Setup M) := do
  let s := { s with kernel := { s.kernel with
    uart := DevUart.init s.kernel.uart.reg (fun _ => 0) (fun _ => 0) } }
  let s := { s with gic := s.gic.devGicv2Init }
  let s := { s with timer := s.timer.init s.inputs.timer 4 }
  let (status, kdevs) ← kdevRegister .empty 0 .gic
  if status < 0 then return (status, ⟨kdevs, tab, s⟩)
  let (status, kdevs) ← kdevRegister kdevs 1 .timer
  if status < 0 then return (status, ⟨kdevs, tab, s⟩)
  let (status, kdevs) ← kdevRegister kdevs 2 (.io (liftIo (Kernel.devUart b ops)))
  if status < 0 then return (status, ⟨kdevs, tab, s⟩)
  let tab := intRegister tab .curElSpnIrq (← kdevGicGetDispatch b kdevs 0)
  let tab := intRegister tab .lowElAarch64Irq (← kdevGicGetDispatch b kdevs 0)
  let (_, s) ← kdevGicRegisterIrq kdevs 0 30 1 gicv2TimerParams s
  let (_, s) ← kdevGicEnableIrq kdevs 0 30 s
  let (_, s) ← kdevGicRegisterIrq kdevs 0 153 2 gicv2UartParams s
  let (_, s) ← kdevGicEnableIrq kdevs 0 153 s
  return (status, ⟨kdevs, tab, s⟩)

/-- The registrations of `setup_syscalls`. -/
def registerCalls (kdevs : Kdevs (System M)) : Option (Int × Kcalls (System M)) := do
  let (status, kcalls) ← kcallRegister .empty 0 (liftCall (Kernel.kcallProcExit ops))
  if status < 0 then return (status, kcalls)
  let (status, kcalls) ← kcallRegister kcalls 1 (liftCall (Kernel.kcallProcStart ops progs))
  if status < 0 then return (status, kcalls)
  let (status, kcalls) ← kcallRegister kcalls 2 (kcallIoWrite kdevs)
  if status < 0 then return (status, kcalls)
  let (status, kcalls) ← kcallRegister kcalls 3 (kcallIoRead kdevs)
  if status < 0 then return (status, kcalls)
  kcallRegister kcalls 4 (kcallIoPollOut kdevs)

/-- `setup_syscalls`. The entry for system calls comes first there: it looks at the table of
calls only when it runs. -/
def setupSyscalls (kdevs : Kdevs (System M)) (tab : IntDispatchTab (System M)) :
    Option (Int × Kcalls (System M) × IntDispatchTab (System M)) :=
  (registerCalls ops progs kdevs).map fun (status, kcalls) =>
    (status, kcalls, intRegister tab .lowElAarch64Sync fun rs esr s => kcallDispatch kcalls esr s rs)

/-- What stays when the kernel has been set up. -/
structure Tables (M : Type) where
  kdevs : Kdevs (System M)
  kcalls : Kcalls (System M)
  tab : IntDispatchTab (System M)

/-- `kernel_main`, from after `memory_init` on. No interrupt is taken inside: from
`irq_unlock` to the `eret` of `kproc_exec` that is up to the devices. -/
def kernelMain (s : System M) : Option (Tables M × System M) := do
  let (_, setup) ← setupDevices b ops intInitDispatchTab s
  let (_, kcalls, tab) ← setupSyscalls ops progs setup.kdevs setup.tab
  let (_, s) ← kdevTimerSetAction setup.kdevs 1 .testAction setup.system
  let proc ← s.kernel.proc.kprocExec ops progs 0
  return (⟨setup.kdevs, kcalls, tab⟩, { s with kernel := { s.kernel with proc } })

/-! ## What the setup leaves -/

/-- The devices of the system, by number. -/
def devices : List (Kdev (System M)) := [.gic, .timer, .io (liftIo (Kernel.devUart b ops))]

/-- Its calls, by number. -/
def calls (kdevs : Kdevs (System M)) : List (KcallFn (System M)) :=
  [liftCall (Kernel.kcallProcExit ops), liftCall (Kernel.kcallProcStart ops progs),
    kcallIoWrite kdevs, kcallIoRead kdevs, kcallIoPollOut kdevs]

section Controller

variable {b ops} {kdevs : Kdevs (System M)} (hdevs : kdevs.Lists (devices b ops)) (s : System M)

include hdevs

theorem kdevGic_zero (call : Gic → Option (Int × Gic)) : kdevGic kdevs 0 s call =
    (call s.gic).map fun (status, gic) => (status, { s with gic }) := by
  have hbound : kdevs.Bound 0 .gic := hdevs.bound (i := 0) rfl
  rw [kdevGic, hbound]
  rfl

theorem kdevGicGetDispatch_zero : kdevGicGetDispatch b kdevs 0 = some (gicv2Dispatch b kdevs) := by
  have hbound : kdevs.Bound 0 .gic := hdevs.bound (i := 0) rfl
  rw [kdevGicGetDispatch, hbound]
  rfl

theorem kdevTimerSetAction_one (action : TimerAction) : kdevTimerSetAction kdevs 1 action s =
    some (Kstatus.devTimerOk, { s with timer := s.timer.kdevSetAction action }) := by
  have hbound : kdevs.Bound 1 .timer := hdevs.bound (i := 1) rfl
  rw [kdevTimerSetAction, hbound]
  rfl

/-- An interrupt is registered and enabled; the rest of the system does not change. -/
theorem registerEnable_spec {r : Gicv2.Registration} (hr : r.Valid) :
    ∃ s₁ gic, kdevGicRegisterIrq kdevs 0 r.irqId r.irqDevId r.params s = some (Kstatus.devGicOk, s₁) ∧
      kdevGicEnableIrq kdevs 0 r.irqId s₁ = some (Kstatus.devGicOk, { s with gic }) ∧
      s.gic.TakesOn r gic := by
  obtain ⟨gic₁, gic, hregister, henable, htakes⟩ := s.gic.takesOn_spec hr
  refine ⟨{ s with gic := gic₁ }, gic, ?_, ?_, htakes⟩
  · rw [kdevGicRegisterIrq, kdevGic_zero hdevs, hregister]
    rfl
  · rw [kdevGicEnableIrq, kdevGic_zero hdevs, henable]
    rfl

end Controller

/-- The controller with the interrupts of the timer and of the UART set up. -/
structure Wired (gic₀ gic : Gic) : Prop where
  config : ∀ id < 1024, gic.config id =
    if id = 30 then ⟨0, 1, 2, 1⟩ else if id = 153 then ⟨0, 1, 2, 2⟩ else gic₀.config id
  enabled : ∀ id < 1024, gic.enabled id = (decide (id = 30 ∨ id = 153) || gic₀.enabled id)
  control : gic.gicdCtlr.getLsbD 0 = true ∧ gic.giccCtlr.getLsbD 0 = true ∧ gic.giccPmr.setWidth 8 = 0xFF#8
  active : gic.active = gic₀.active

theorem Wired.of_takesOn {gic₀ gic₁ gic₂ : Gic}
    (h₁ : gic₀.devGicv2Init.TakesOn ⟨30, 1, gicv2TimerParams⟩ gic₁)
    (h₂ : gic₁.TakesOn ⟨153, 2, gicv2UartParams⟩ gic₂) : Wired gic₀ gic₂ := by
  obtain ⟨hdist, hcpu, hmask⟩ := gic₀.devGicv2Init_enables
  refine ⟨fun id hid => ?_, fun id hid => ?_, ?_, ?_⟩
  · rw [h₂.config id hid, h₁.config id hid]
    by_cases huart : id = 153
    · subst huart
      rfl
    · simp only [if_neg huart]
      rfl
  · rw [h₂.enabled id hid, h₁.enabled id hid, Bool.decide_or, ← Bool.or_assoc]
    exact congrArg (· || gic₀.enabled id) (Bool.or_comm ..)
  · obtain ⟨hdist₁, hcpu₁, hmask₁⟩ := h₁.control
    obtain ⟨hdist₂, hcpu₂, hmask₂⟩ := h₂.control
    rw [hdist₂, hdist₁, hcpu₂, hcpu₁, hmask₂, hmask₁]
    exact ⟨hdist, hcpu, hmask⟩
  · exact h₂.active.trans h₁.active

/-- Both interrupts are delivered. -/
theorem Wired.delivers {gic₀ gic : Gic} (h : Wired gic₀ gic) {id : Nat} (hid : id = 30 ∨ id = 153) :
    gic.delivers id = true := by
  obtain ⟨hdist, hcpu, hmask⟩ := h.control
  have hlt : id < 1024 := by omega
  have henabled : gic.enabled id = true := by
    rw [h.enabled id hlt, decide_eq_true hid, Bool.true_or]
  rw [Gic.delivers, hdist, hcpu, henabled, hmask, h.config id hlt]
  rcases hid with rfl | rfl
  · rfl
  · rw [if_neg (by decide), if_pos rfl]
    rfl

/-- `setup_devices` comes through whatever the hardware holds. -/
theorem setupDevices_spec (tab : IntDispatchTab (System M)) (s : System M) :
    ∃ kdevs gic, setupDevices b ops tab s = some (2,
        ⟨kdevs, intRegister (intRegister tab .curElSpnIrq (gicv2Dispatch b kdevs)) .lowElAarch64Irq
            (gicv2Dispatch b kdevs),
          { kernel := { s.kernel with uart := DevUart.init s.kernel.uart.reg (fun _ => 0) (fun _ => 0) }
            gic
            timer := s.timer.init s.inputs.timer 4
            inputs := s.inputs }⟩) ∧
      kdevs.Lists (devices b ops) ∧ Wired s.gic gic := by
  obtain ⟨t₁, hreg₁, hlists₁⟩ := kdevRegister_next (S := System M) (i := 0) Table.empty_lists rfl
    (by decide) .gic
  obtain ⟨t₂, hreg₂, hlists₂⟩ := kdevRegister_next (i := 1) hlists₁ rfl (by decide) .timer
  obtain ⟨t₃, hreg₃, hlists₃⟩ := kdevRegister_next (i := 2) hlists₂ rfl (by decide)
    (.io (liftIo (Kernel.devUart b ops)))
  have hdevs : t₃.Lists (devices b ops) := hlists₃
  let uart := DevUart.init s.kernel.uart.reg (fun _ => 0) (fun _ => 0)
  let start : System M :=
    ⟨⟨s.kernel.proc, uart⟩, s.gic.devGicv2Init, s.timer.init s.inputs.timer 4, s.inputs⟩
  obtain ⟨s₁, gic₁, htimer, htimer', htakes₁⟩ := registerEnable_spec hdevs start
    (r := ⟨30, 1, gicv2TimerParams⟩) ⟨by decide, by decide⟩
  obtain ⟨s₂, gic₂, huart, huart', htakes₂⟩ := registerEnable_spec hdevs { start with gic := gic₁ }
    (r := ⟨153, 2, gicv2UartParams⟩) ⟨by decide, by decide⟩
  refine ⟨t₃, gic₂, ?_, hdevs, .of_takesOn htakes₁ htakes₂⟩
  simp only [start, uart, BitVec.ofNat_eq_ofNat] at htimer htimer' huart huart'
  simp [setupDevices, hreg₁, hreg₂, hreg₃, kdevGicGetDispatch_zero hdevs, htimer, htimer', huart, huart']

theorem registerCalls_lists (kdevs : Kdevs (System M)) :
    ∃ kcalls, registerCalls ops progs kdevs = some (4, kcalls) ∧
      kcalls.Lists (calls ops progs kdevs) := by
  obtain ⟨t₁, h₁, hlists₁⟩ := kcallRegister_next (i := 0) Table.empty_lists rfl (by decide)
    (liftCall (Kernel.kcallProcExit ops))
  obtain ⟨t₂, h₂, hlists₂⟩ := kcallRegister_next (i := 1) hlists₁ rfl (by decide)
    (liftCall (Kernel.kcallProcStart ops progs))
  obtain ⟨t₃, h₃, hlists₃⟩ := kcallRegister_next (i := 2) hlists₂ rfl (by decide) (kcallIoWrite kdevs)
  obtain ⟨t₄, h₄, hlists₄⟩ := kcallRegister_next (i := 3) hlists₃ rfl (by decide) (kcallIoRead kdevs)
  obtain ⟨t₅, h₅, hlists₅⟩ := kcallRegister_next (i := 4) hlists₄ rfl (by decide)
    (kcallIoPollOut kdevs)
  exact ⟨t₅, by simp [registerCalls, h₁, h₂, h₃, h₄, h₅], hlists₅⟩

/-- The setup as a whole: from here on the system acts through these tables. -/
structure SetUp (s₀ : System M) (tables : Tables M) (s : System M) : Prop where
  devs : tables.kdevs.Lists (devices b ops)
  calls : tables.kcalls.Lists (calls ops progs tables.kdevs)
  tab : tables.tab = kernelDispatchTab (gicv2Dispatch b tables.kdevs) tables.kcalls
  wired : Wired s₀.gic s.gic
  timer : s.timer = (s₀.timer.init s₀.inputs.timer 4).kdevSetAction .testAction
  uart : s.kernel.uart = DevUart.init s₀.kernel.uart.reg (fun _ => 0) (fun _ => 0)
  proc : s₀.kernel.proc.kprocExec ops progs 0 = some s.kernel.proc
  inputs : s.inputs = s₀.inputs

theorem kernelMain_spec {s : System M} (hcap : s.kernel.proc.stack.capacity = kprocMaxCount)
    (hempty : s.kernel.proc.stack.len = 0) :
    ∃ tables s', kernelMain b ops progs s = some (tables, s') ∧ SetUp b ops progs s tables s' := by
  obtain ⟨kdevs, gic, hsetup, hdevs, hwired⟩ := setupDevices_spec b ops intInitDispatchTab s
  obtain ⟨kcalls, hregister, hcalls⟩ := registerCalls_lists ops progs kdevs
  obtain ⟨proc, hexec, -⟩ := ProcKernel.kprocExec_spec ops progs hcap hempty
    (show 0 < kprocProgCount by decide)
  let uart := DevUart.init s.kernel.uart.reg (fun _ => 0) (fun _ => 0)
  let timer := (s.timer.init s.inputs.timer 4).kdevSetAction .testAction
  refine ⟨⟨kdevs, kcalls, kernelDispatchTab (gicv2Dispatch b kdevs) kcalls⟩,
    ⟨⟨proc, uart⟩, gic, timer, s.inputs⟩, ?_, hdevs, hcalls, rfl, hwired, rfl, rfl, hexec, rfl⟩
  simp [kernelMain, hsetup, setupSyscalls, hregister, kdevTimerSetAction_one hdevs, hexec,
    kernelDispatchTab, uart, timer]

end System
end PiVOS
